import TreeScript.Proofs.Program.Tree

/-!
# The declarations of a program

In the uniform tree of a program every node is listed by `Tree.nodes`, whatever its kind and wherever
it stands.  `Program.functionNodes` picks the declarations of functions among them, and
`Program.functionCount` is how many there are (`Program.length_functionNodes`): no place in which a
statement may stand is left out of the count, and none is counted twice.

A function is `Declared` in a program if its declaration is one of those nodes.
-/

namespace TreeScript

/-! ## 1. The nodes of a tree -/

mutual

/-- A tree and all trees inside it. -/
def Tree.nodes : Tree → List Tree
  | .text s => [.text s]
  | .payload value => [.payload value]
  | .word w => [.word w]
  | .absent => [.absent]
  | .list items => .list items :: Tree.nodesAll items
  | .node tag fields => .node tag fields :: Tree.nodesAll fields

/-- All trees in a list of trees. -/
def Tree.nodesAll : List Tree → List Tree
  | [] => []
  | t :: rest => t.nodes ++ Tree.nodesAll rest

end

theorem Tree.mem_nodes_self (t : Tree) : t ∈ t.nodes := by
  cases t <;> simp [Tree.nodes]

theorem Tree.nodes_subset_nodesAll {t : Tree} :
    ∀ {ts : List Tree}, t ∈ ts → t.nodes ⊆ Tree.nodesAll ts
  | first :: rest, h => by
    rcases List.mem_cons.mp h with rfl | h
    · exact List.subset_append_left _ _
    · exact List.Subset.trans (Tree.nodes_subset_nodesAll h) (List.subset_append_right _ _)

/-- What is in a field of a node is in the node. -/
theorem Tree.nodes_subset_node {tag : Tag} {fields : List Tree} {t : Tree} (h : t ∈ fields) :
    t.nodes ⊆ (Tree.node tag fields).nodes :=
  List.Subset.trans (Tree.nodes_subset_nodesAll h) (List.subset_cons_self _ _)

/-- What is in an item of a list is in the list. -/
theorem Tree.nodes_subset_list {items : List Tree} {t : Tree} (h : t ∈ items) :
    t.nodes ⊆ (Tree.list items).nodes :=
  List.Subset.trans (Tree.nodes_subset_nodesAll h) (List.subset_cons_self _ _)

theorem Stmt.toTree_mem_toTrees {s : Stmt} :
    ∀ {ss : List Stmt}, s ∈ ss → s.toTree ∈ Stmt.toTrees ss
  | first :: rest, h => by
    rw [Stmt.toTrees]
    rcases List.mem_cons.mp h with rfl | h
    · exact List.mem_cons_self
    · exact List.mem_cons_of_mem _ (Stmt.toTree_mem_toTrees h)

/-! ## 2. Declarations -/

/-- Whether a node declares a function. -/
def Tree.isFunction : Tree → Bool
  | .node .function _ => true
  | _ => false

/-- The name that stands first in a node. -/
def Tree.title : Tree → String
  | .node _ (.text name :: _) => name
  | _ => ""

/-- **The nodes anywhere in a program that declare a function.** -/
def Program.functionNodes (p : Program) : List Tree := p.toTree.nodes.filter Tree.isFunction

/-- The declaration of a function stands somewhere in a program. -/
def FunctionDef.Declared (f : FunctionDef) (p : Program) : Prop :=
  f.toStmt.toTree ∈ p.functionNodes

theorem FunctionDef.isFunction_toTree (f : FunctionDef) : f.toStmt.toTree.isFunction = true := by
  rw [FunctionDef.toStmt, Stmt.toTree]
  rfl

theorem FunctionDef.title_toTree (f : FunctionDef) : f.toStmt.toTree.title = f.name := by
  rw [FunctionDef.toStmt, Stmt.toTree]
  rfl

/-! ## 3. Counting them -/

/-- The number of declarations in a tree. -/
def Tree.functions (t : Tree) : Nat := t.nodes.countP Tree.isFunction

/-- The number of declarations in a list of trees. -/
def Tree.functionsAll (ts : List Tree) : Nat := (Tree.nodesAll ts).countP Tree.isFunction

@[simp] theorem Tree.functionsAll_nil : Tree.functionsAll [] = 0 := rfl

@[simp] theorem Tree.functionsAll_cons (t : Tree) (rest : List Tree) :
    Tree.functionsAll (t :: rest) = t.functions + Tree.functionsAll rest := by
  rw [Tree.functionsAll, Tree.nodesAll, List.countP_append]
  rfl

@[simp] theorem Tree.functions_text (s : String) : (Tree.text s).functions = 0 := rfl

@[simp] theorem Tree.functions_payload (value : Json) : (Tree.payload value).functions = 0 := rfl

@[simp] theorem Tree.functions_word (w : Word) : (Tree.word w).functions = 0 := rfl

@[simp] theorem Tree.functions_absent : Tree.absent.functions = 0 := rfl

@[simp] theorem Tree.functions_list (items : List Tree) :
    (Tree.list items).functions = Tree.functionsAll items := by
  rw [Tree.functions, Tree.nodes, List.countP_cons_of_neg (by simp [Tree.isFunction])]
  rfl

@[simp] theorem Tree.functions_node (tag : Tag) (fields : List Tree) :
    (Tree.node tag fields).functions =
      Tree.functionsAll fields + if tag = .function then 1 else 0 := by
  have htag : (Tree.node tag fields).isFunction = decide (tag = .function) := by
    cases tag <;> rfl
  rw [Tree.functions, Tree.nodes, List.countP_cons, htag, Tree.functionsAll]
  simp only [decide_eq_true_eq]

theorem Parameter.functions_toTree (p : Parameter) : p.toTree.functions = 0 := by
  obtain ⟨name, declaredType⟩ := p
  cases declaredType <;> simp [Parameter.toTree, Tree.ofText?]

theorem Parameter.functions_toTrees (ps : List Parameter) :
    Tree.functionsAll (ps.map Parameter.toTree) = 0 := by
  induction ps with
  | nil => rfl
  | cons p rest ih => simp [p.functions_toTree, ih]

mutual

/-- In an expression no function is declared. -/
theorem Expr.functions_toTree : ∀ e : Expr, e.toTree.functions = 0
  | .literal payload kind => by simp [Expr.toTree]
  | .identifier name => by simp [Expr.toTree]
  | .binary op left right => by simp [Expr.toTree, left.functions_toTree, right.functions_toTree]
  | .unary op operand => by simp [Expr.toTree, operand.functions_toTree]
  | .call name arguments => by simp [Expr.toTree, Expr.functions_toTrees arguments]
  | .index base position => by simp [Expr.toTree, base.functions_toTree, position.functions_toTree]
  | .sequence elements => by simp [Expr.toTree, Expr.functions_toTrees elements]
  | .mapping entries => by simp [Expr.toTree, Expr.functions_entryTrees entries]

theorem Expr.functions_toTrees : ∀ es : List Expr, Tree.functionsAll (Expr.toTrees es) = 0
  | [] => by simp [Expr.toTrees]
  | e :: rest => by simp [Expr.toTrees, e.functions_toTree, Expr.functions_toTrees rest]

theorem Expr.functions_entryTrees :
    ∀ entries : List (String × Expr), Tree.functionsAll (Expr.entryTrees entries) = 0
  | [] => by simp [Expr.entryTrees]
  | (key, value) :: rest => by
    simp [Expr.entryTrees, value.functions_toTree, Expr.functions_entryTrees rest]

end

theorem Expr.functions_toTree? (e? : Option Expr) : (Expr.toTree? e?).functions = 0 := by
  cases e? with
  | none => rfl
  | some e => exact e.functions_toTree

mutual

/-- **As many functions are declared in a statement as are counted.** -/
theorem Stmt.functions_toTree : ∀ s : Stmt, s.toTree.functions = s.functionCount
  | .assign name value => by simp [Stmt.toTree, Stmt.functionCount, value.functions_toTree]
  | .branch condition thenBlock elseBlock => by
    simp [Stmt.toTree, Stmt.functionCount, condition.functions_toTree, thenBlock.functions_toTree,
      Stmt.functions_toTree? elseBlock]
  | .loop condition body => by
    simp [Stmt.toTree, Stmt.functionCount, condition.functions_toTree, body.functions_toTree]
  | .loopFor init condition increment body => by
    simp [Stmt.toTree, Stmt.functionCount, init.functions_toTree, condition.functions_toTree,
      increment.functions_toTree, body.functions_toTree, Nat.add_assoc]
  | .loopEach item collection body => by
    simp [Stmt.toTree, Stmt.functionCount, collection.functions_toTree, body.functions_toTree]
  | .declare name parameters body => by
    simp [Stmt.toTree, Stmt.functionCount, Parameter.functions_toTrees, body.functions_toTree,
      Nat.add_comm]
  | .giveBack value => by simp [Stmt.toTree, Stmt.functionCount, Expr.functions_toTree?]
  | .evaluate expr => by simp [Stmt.toTree, Stmt.functionCount, expr.functions_toTree]
  | .block statements => by
    simp [Stmt.toTree, Stmt.functionCount, Stmt.functions_toTrees statements]

theorem Stmt.functions_toTree? (s? : Option Stmt) :
    (Stmt.toTree? s?).functions = Stmt.functionCountElse s? := by
  cases s? with
  | none => simp [Stmt.toTree?, Stmt.functionCountElse]
  | some s => simp [Stmt.toTree?, Stmt.functionCountElse, s.functions_toTree]

theorem Stmt.functions_toTrees :
    ∀ ss : List Stmt, Tree.functionsAll (Stmt.toTrees ss) = Stmt.functionCountAll ss
  | [] => by simp [Stmt.toTrees, Stmt.functionCountAll]
  | s :: rest => by
    simp [Stmt.toTrees, Stmt.functionCountAll, s.functions_toTree, Stmt.functions_toTrees rest]

end

/-- **The count of functions is the number of declarations anywhere in the program.** -/
theorem Program.length_functionNodes (p : Program) : p.functionNodes.length = p.functionCount := by
  have hcount : p.toTree.functions = p.functionCount := by
    simp [Program.toTree, Program.functionCount, Stmt.functions_toTrees]
  rw [Program.functionNodes, ← List.countP_eq_length_filter]
  exact hcount

end TreeScript
