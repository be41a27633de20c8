import TreeScript.Json.Basic

/-!
# Programs

A program is a list of statements.  Statements hold statements and expressions; expressions hold
expressions.  A literal keeps the JSON value that it was given together with the kind it should
have, and only becomes a value, or an error, when it is evaluated.

`Program.functionCount` is the number of function declarations anywhere in a program.
-/

namespace TreeScript

/-! ## 1. Words of the language -/

/-- Operators between two expressions. -/
inductive BinaryOp where
  | add | sub | mul | div | mod
  | eq | ne | lt | gt | le | ge
  | and | or
  deriving DecidableEq, Repr, Inhabited

/-- Operators before an expression. -/
inductive UnaryOp where
  | neg | not
  deriving DecidableEq, Repr, Inhabited

/-- The kinds of literals. -/
inductive LiteralKind where
  | number | text | boolean | absence
  deriving DecidableEq, Repr, Inhabited

/-- How an operator is written. -/
def BinaryOp.symbol : BinaryOp → String
  | .add => "+" | .sub => "-" | .mul => "*" | .div => "/" | .mod => "%"
  | .eq => "==" | .ne => "!=" | .lt => "<" | .gt => ">" | .le => "<=" | .ge => ">="
  | .and => "&&" | .or => "||"

/-- The operators between two expressions, in the order of the language. -/
def BinaryOp.all : List BinaryOp :=
  [.add, .sub, .mul, .div, .mod, .eq, .ne, .lt, .gt, .le, .ge, .and, .or]

/-- How an operator is written. -/
def UnaryOp.symbol : UnaryOp → String
  | .neg => "-" | .not => "!"

/-- The operators before an expression. -/
def UnaryOp.all : List UnaryOp := [.neg, .not]

/-- How a kind is written. -/
def LiteralKind.word : LiteralKind → String
  | .number => "number" | .text => "text" | .boolean => "boolean" | .absence => "absence"

/-- The kinds of literals. -/
def LiteralKind.all : List LiteralKind := [.number, .text, .boolean, .absence]

/-- A kind at the start of an error message. -/
def LiteralKind.title : LiteralKind → String
  | .number => "Number" | .text => "Text" | .boolean => "Boolean" | .absence => "Absence"

/-! ## 2. Trees -/

/-- Expressions. -/
inductive Expr where
  | literal (payload : Json) (kind : LiteralKind)
  | identifier (name : String)
  | binary (op : BinaryOp) (left right : Expr)
  | unary (op : UnaryOp) (operand : Expr)
  | call (name : String) (arguments : List Expr)
  | index (base position : Expr)
  | sequence (elements : List Expr)
  | mapping (entries : List (String × Expr))
  deriving BEq, Inhabited

/-- A parameter.  Its declared type is carried along and never checked. -/
structure Parameter where
  name : String
  declaredType : Option String := none
  deriving DecidableEq, Inhabited

/-- Statements. -/
inductive Stmt where
  | assign (name : String) (value : Expr)
  | branch (condition : Expr) (thenBlock : Stmt) (elseBlock : Option Stmt)
  | loop (condition : Expr) (body : Stmt)
  | loopFor (init : Stmt) (condition : Expr) (increment body : Stmt)
  | loopEach (item : String) (collection : Expr) (body : Stmt)
  | declare (name : String) (parameters : List Parameter) (body : Stmt)
  | giveBack (value : Option Expr)
  | evaluate (expr : Expr)
  | block (statements : List Stmt)
  deriving BEq, Inhabited

/-- A function as it is kept in the function table. -/
structure FunctionDef where
  name : String
  parameters : List Parameter
  body : Stmt
  deriving BEq, Inhabited

/-- The statement that declares a function. -/
def FunctionDef.toStmt (f : FunctionDef) : Stmt := .declare f.name f.parameters f.body

/-- A program. -/
structure Program where
  statements : List Stmt := []
  deriving BEq, Inhabited

/-! ## 3. Building programs -/

namespace Expr

/-- A literal of a double; one that is not finite has no JSON form and becomes null. -/
def number (x : Float) : Expr :=
  match Binary64.ofFloat x with
  | .finite _ _ _ => .literal (.double x) .number
  | _ => .literal .null .number

/-- A literal of a text. -/
def text (s : String) : Expr := .literal (.text s) .text

/-- A literal of a truth value. -/
def boolean (b : Bool) : Expr := .literal (.boolean b) .boolean

/-- The literal of absence. -/
def absence : Expr := .literal .null .absence

end Expr

/-- A function whose parameters have no declared types. -/
def FunctionDef.ofNames (name : String) (parameters : List String) (body : Stmt) : FunctionDef :=
  ⟨name, parameters.map fun p => ⟨p, none⟩, body⟩

/-! ## 4. Counting functions -/

mutual

/-- The number of function declarations in a statement. -/
def Stmt.functionCount : Stmt → Nat
  | .declare _ _ body => 1 + body.functionCount
  | .branch _ thenBlock elseBlock => thenBlock.functionCount + Stmt.functionCountElse elseBlock
  | .loop _ body => body.functionCount
  | .loopEach _ _ body => body.functionCount
  | .loopFor init _ increment body =>
    init.functionCount + increment.functionCount + body.functionCount
  | .block statements => Stmt.functionCountAll statements
  | .assign _ _ => 0
  | .giveBack _ => 0
  | .evaluate _ => 0

/-- The number of function declarations in the else part of a branch. -/
def Stmt.functionCountElse : Option Stmt → Nat
  | none => 0
  | some s => s.functionCount

/-- The number of function declarations in a list of statements. -/
def Stmt.functionCountAll : List Stmt → Nat
  | [] => 0
  | s :: rest => s.functionCount + Stmt.functionCountAll rest

end

/-- **The number of function declarations anywhere in a program.** -/
def Program.functionCount (p : Program) : Nat := Stmt.functionCountAll p.statements

end TreeScript
