import TreeScript.Program.Schema
import TreeScript.Json.Printer

/-!
# Programs as uniform trees

Between a program and its JSON text stands a tree in which all nodes look alike: a tag and the
contents of its fields in their order.  A program has one such tree (`Program.toTree`), the tree
has one JSON value (`Tree.toJson`), and a tree that fits the shapes is the tree of one program
(`Program.ofTree?`).
-/

namespace TreeScript

/-- The uniform tree of a program. -/
inductive Tree where
  | text (s : String)
  | payload (value : Json)
  | word (w : Word)
  | absent
  | list (items : List Tree)
  | node (tag : Tag) (fields : List Tree)
  deriving Inhabited

/-! ## 1. From a program to its tree -/

/-- A text that may be absent. -/
def Tree.ofText? : Option String → Tree
  | none => .absent
  | some s => .text s

/-- The tree of a parameter. -/
def Parameter.toTree (p : Parameter) : Tree :=
  .node .parameter [.text p.name, .ofText? p.declaredType]

mutual

/-- The tree of an expression. -/
def Expr.toTree : Expr → Tree
  | .literal payload kind => .node .literal [.payload payload, .word (.kind kind)]
  | .identifier name => .node .identifier [.text name]
  | .binary op left right => .node .binaryOp [.word (.binary op), left.toTree, right.toTree]
  | .unary op operand => .node .unaryOp [.word (.unary op), operand.toTree]
  | .call name arguments => .node .functionCall [.text name, .list (Expr.toTrees arguments)]
  | .index base position => .node .index [base.toTree, position.toTree]
  | .sequence elements => .node .sequence [.list (Expr.toTrees elements)]
  | .mapping entries => .node .mapping [.list (Expr.entryTrees entries)]

/-- The trees of a list of expressions. -/
def Expr.toTrees : List Expr → List Tree
  | [] => []
  | e :: rest => e.toTree :: Expr.toTrees rest

/-- The trees of the entries of a mapping. -/
def Expr.entryTrees : List (String × Expr) → List Tree
  | [] => []
  | (key, value) :: rest => .node .entry [.text key, value.toTree] :: Expr.entryTrees rest

end

/-- The tree of an expression that may be absent. -/
def Expr.toTree? : Option Expr → Tree
  | none => .absent
  | some e => e.toTree

mutual

/-- The tree of a statement. -/
def Stmt.toTree : Stmt → Tree
  | .assign name value => .node .assignment [.text name, value.toTree]
  | .branch condition thenBlock elseBlock =>
    .node .branch [condition.toTree, thenBlock.toTree, Stmt.toTree? elseBlock]
  | .loop condition body => .node .whileLoop [condition.toTree, body.toTree]
  | .loopFor init condition increment body =>
    .node .forLoop [init.toTree, condition.toTree, increment.toTree, body.toTree]
  | .loopEach item collection body =>
    .node .forEach [.text item, collection.toTree, body.toTree]
  | .declare name parameters body =>
    .node .function [.text name, .list (parameters.map Parameter.toTree), body.toTree]
  | .giveBack value => .node .giveBack [Expr.toTree? value]
  | .evaluate expr => .node .expression [expr.toTree]
  | .block statements => .node .block [.list (Stmt.toTrees statements)]

/-- The tree of an else part. -/
def Stmt.toTree? : Option Stmt → Tree
  | none => .absent
  | some s => s.toTree

/-- The trees of a list of statements. -/
def Stmt.toTrees : List Stmt → List Tree
  | [] => []
  | s :: rest => s.toTree :: Stmt.toTrees rest

end

/-- The tree of a program. -/
def Program.toTree (p : Program) : Tree := .node .program [.list (Stmt.toTrees p.statements)]

/-! ## 2. From a tree to its program -/

/-- The parameter of a tree. -/
def Parameter.ofTree? : Tree → Option Parameter
  | .node .parameter [.text name, .absent] => some ⟨name, none⟩
  | .node .parameter [.text name, .text declared] => some ⟨name, some declared⟩
  | _ => none

/-- The parameters of a list of trees. -/
def Parameter.ofTrees? : List Tree → Option (List Parameter)
  | [] => some []
  | t :: rest => do
    let p ← Parameter.ofTree? t
    let ps ← Parameter.ofTrees? rest
    return p :: ps

mutual

/-- The expression of a tree. -/
def Expr.ofTree? : Tree → Option Expr
  | .node .literal [.payload payload, .word (.kind kind)] => some (.literal payload kind)
  | .node .identifier [.text name] => some (.identifier name)
  | .node .binaryOp [.word (.binary op), left, right] => do
    let left ← Expr.ofTree? left
    let right ← Expr.ofTree? right
    return .binary op left right
  | .node .unaryOp [.word (.unary op), operand] => do
    let operand ← Expr.ofTree? operand
    return .unary op operand
  | .node .functionCall [.text name, .list arguments] => do
    let arguments ← Expr.ofTrees? arguments
    return .call name arguments
  | .node .index [base, position] => do
    let base ← Expr.ofTree? base
    let position ← Expr.ofTree? position
    return .index base position
  | .node .sequence [.list elements] => do
    let elements ← Expr.ofTrees? elements
    return .sequence elements
  | .node .mapping [.list entries] => do
    let entries ← Expr.ofEntryTrees? entries
    return .mapping entries
  | _ => none

/-- The expressions of a list of trees. -/
def Expr.ofTrees? : List Tree → Option (List Expr)
  | [] => some []
  | t :: rest => do
    let e ← Expr.ofTree? t
    let es ← Expr.ofTrees? rest
    return e :: es

/-- The entries of a mapping from their trees. -/
def Expr.ofEntryTrees? : List Tree → Option (List (String × Expr))
  | [] => some []
  | .node .entry [.text key, value] :: rest => do
    let value ← Expr.ofTree? value
    let entries ← Expr.ofEntryTrees? rest
    return (key, value) :: entries
  | _ => none

end

/-- The expression of a tree that may be absent. -/
def Expr.ofOptional? : Tree → Option (Option Expr)
  | .absent => some none
  | t => (Expr.ofTree? t).map some

mutual

/-- The statement of a tree. -/
def Stmt.ofTree? : Tree → Option Stmt
  | .node .assignment [.text name, value] => do
    let value ← Expr.ofTree? value
    return .assign name value
  | .node .branch [condition, thenBlock, elseBlock] => do
    let condition ← Expr.ofTree? condition
    let thenBlock ← Stmt.ofTree? thenBlock
    match elseBlock with
    | .absent => return .branch condition thenBlock none
    | other => do
      let elseBlock ← Stmt.ofTree? other
      return .branch condition thenBlock (some elseBlock)
  | .node .whileLoop [condition, body] => do
    let condition ← Expr.ofTree? condition
    let body ← Stmt.ofTree? body
    return .loop condition body
  | .node .forLoop [init, condition, increment, body] => do
    let init ← Stmt.ofTree? init
    let condition ← Expr.ofTree? condition
    let increment ← Stmt.ofTree? increment
    let body ← Stmt.ofTree? body
    return .loopFor init condition increment body
  | .node .forEach [.text item, collection, body] => do
    let collection ← Expr.ofTree? collection
    let body ← Stmt.ofTree? body
    return .loopEach item collection body
  | .node .function [.text name, .list parameters, body] => do
    let parameters ← Parameter.ofTrees? parameters
    let body ← Stmt.ofTree? body
    return .declare name parameters body
  | .node .giveBack [value] => do
    let value ← Expr.ofOptional? value
    return .giveBack value
  | .node .expression [expr] => do
    let expr ← Expr.ofTree? expr
    return .evaluate expr
  | .node .block [.list statements] => do
    let statements ← Stmt.ofTrees? statements
    return .block statements
  | _ => none

/-- The statements of a list of trees. -/
def Stmt.ofTrees? : List Tree → Option (List Stmt)
  | [] => some []
  | t :: rest => do
    let s ← Stmt.ofTree? t
    let ss ← Stmt.ofTrees? rest
    return s :: ss

end

/-! ## 3. From a tree to JSON -/

mutual

/-- The JSON value of a tree: every field is written, and the tag of a named node comes first. -/
def Tree.toJson : Tree → Json
  | .text s => .text s
  | .payload value => value
  | .word w => .text w.text
  | .absent => .null
  | .list items => .array (Tree.toJsonItems items)
  | .node tag fields =>
    .object ((if tag.isNamed then [("type", .text tag.word)] else []) ++
      Tree.toJsonMembers tag.fields fields)

/-- The JSON values of a list of trees. -/
def Tree.toJsonItems : List Tree → List Json
  | [] => []
  | t :: rest => t.toJson :: Tree.toJsonItems rest

/-- The members of a node, each named by its field. -/
def Tree.toJsonMembers : List Field → List Tree → List (String × Json)
  | f :: fields, t :: rest => (f.name, t.toJson) :: Tree.toJsonMembers fields rest
  | _, _ => []

end

/-- The JSON value of a program. -/
def Program.toJson (p : Program) : Json := p.toTree.toJson

/-- **The JSON text of a program.** -/
def Program.toText (p : Program) : String := p.toJson.toText

end TreeScript
