import TreeScript.Program.Basic

/-!
# The shape of a program in JSON

Every node of a program is an object whose members are laid down here: for each kind of node the
fields in their order, what may stand at a field, and whether it may be left out.  Reading and
writing are both driven by these tables.

Statements and expressions are **tagged**: a member `type` names the kind of node.  A field that
holds a list is empty when it is left out, one that is optional is absent; every other field has to
be there.
-/

namespace TreeScript

/-! ## 1. Kinds of nodes -/

/-- The kinds of nodes. -/
inductive Tag where
  | assignment | branch | whileLoop | forLoop | forEach | function | giveBack | expression | block
  | literal | identifier | binaryOp | unaryOp | functionCall | index | sequence | mapping
  | program | parameter | entry
  deriving DecidableEq, Repr

/-- What a node is expected to be at its place. -/
inductive NodeClass where
  | statement | expression | program | parameter | entry
  deriving DecidableEq, Repr

/-- The word of a kind of node in the member `type`. -/
def Tag.word : Tag → String
  | .assignment => "assignment" | .branch => "if" | .whileLoop => "while"
  | .forLoop => "for_c_style" | .forEach => "for_in" | .function => "function"
  | .giveBack => "return" | .expression => "expression" | .block => "block"
  | .literal => "literal" | .identifier => "identifier" | .binaryOp => "binary_op"
  | .unaryOp => "unary_op" | .functionCall => "function_call" | .index => "index"
  | .sequence => "sequence" | .mapping => "mapping"
  | .program => "program" | .parameter => "parameter" | .entry => "entry"

/-- What an array that stands for a node is called when its length is wrong. -/
def Tag.title : Tag → String
  | .assignment => "struct variant Stmt::Assignment" | .branch => "struct variant Stmt::If"
  | .whileLoop => "struct variant Stmt::While" | .forLoop => "struct variant Stmt::ForCStyle"
  | .forEach => "struct variant Stmt::ForIn" | .function => "struct FnDef"
  | .giveBack => "struct variant Stmt::Return"
  | .expression => "struct variant Stmt::Expression" | .block => "struct variant Stmt::Block"
  | .literal => "struct variant Expr::Literal" | .identifier => "struct variant Expr::Identifier"
  | .binaryOp => "struct variant Expr::BinaryOp" | .unaryOp => "struct variant Expr::UnaryOp"
  | .functionCall => "struct variant Expr::FunctionCall" | .index => "struct variant Expr::Index"
  | .sequence => "struct variant Expr::Sequence" | .mapping => "struct variant Expr::Mapping"
  | .program => "struct Program" | .parameter => "struct Param" | .entry => "struct MapEntry"

/-- The kinds of nodes of a class, in their order. -/
def NodeClass.tags : NodeClass → List Tag
  | .statement =>
    [.assignment, .branch, .whileLoop, .forLoop, .forEach, .function, .giveBack, .expression,
     .block]
  | .expression =>
    [.literal, .identifier, .binaryOp, .unaryOp, .functionCall, .index, .sequence, .mapping]
  | .program => [.program]
  | .parameter => [.parameter]
  | .entry => [.entry]

/-- The one kind of node of a class that has no `type`. -/
def NodeClass.record? : NodeClass → Option Tag
  | .statement => none
  | .expression => none
  | .program => some .program
  | .parameter => some .parameter
  | .entry => some .entry

/-- Whether a kind of node is named by a member `type`. -/
def Tag.isNamed : Tag → Bool
  | .program => false
  | .parameter => false
  | .entry => false
  | _ => true

/-- What is expected where a node of a class should stand. -/
def NodeClass.expectation : NodeClass → String
  | .statement => "internally tagged enum Stmt"
  | .expression => "internally tagged enum Expr"
  | .program => "struct Program"
  | .parameter => "struct Param"
  | .entry => "struct MapEntry"

/-! ## 2. Words -/

/-- A field that holds one word of a fixed list. -/
inductive Vocabulary where
  | binary | unary | kind
  deriving DecidableEq, Repr

/-- A word of the language. -/
inductive Word where
  | binary (op : BinaryOp)
  | unary (op : UnaryOp)
  | kind (k : LiteralKind)
  deriving DecidableEq, Repr

/-- How a word is written. -/
def Word.text : Word → String
  | .binary op => op.symbol
  | .unary op => op.symbol
  | .kind k => k.word

/-- The spellings of a vocabulary.  Kinds have other spellings beside their own. -/
def Vocabulary.spellings : Vocabulary → List (String × Word)
  | .binary => BinaryOp.all.map fun op => (op.symbol, .binary op)
  | .unary => UnaryOp.all.map fun op => (op.symbol, .unary op)
  | .kind =>
    [("number", .kind .number), ("string", .kind .text), ("text", .kind .text),
     ("bool", .kind .boolean), ("boolean", .kind .boolean), ("absence", .kind .absence),
     ("none", .kind .absence), ("null", .kind .absence)]

/-! ## 3. Fields -/

/-- What may stand at a field. -/
inductive Atom where
  | text
  | payload
  | word (vocabulary : Vocabulary)
  | node (cls : NodeClass)
  deriving DecidableEq, Repr

/-- How often it may stand there. -/
inductive Count where
  | one | optional | many
  deriving DecidableEq, Repr

/-- A field of a node. -/
structure Field where
  name : String
  atom : Atom
  count : Count := .one
  otherName : Option String := none
  deriving DecidableEq, Repr

/-- Whether a member of this name is the field. -/
def Field.isCalled (f : Field) (name : String) : Bool := f.name = name || f.otherName = some name

/-- The fields of a node in their order. -/
def Tag.fields : Tag → List Field
  | .assignment =>
    [⟨"identifier", .text, .one, none⟩, ⟨"expression", .node .expression, .one, none⟩]
  | .branch =>
    [⟨"condition", .node .expression, .one, none⟩, ⟨"then_block", .node .statement, .one, none⟩,
     ⟨"else_block", .node .statement, .optional, none⟩]
  | .whileLoop =>
    [⟨"condition", .node .expression, .one, none⟩, ⟨"block", .node .statement, .one, none⟩]
  | .forLoop =>
    [⟨"init", .node .statement, .one, none⟩, ⟨"condition", .node .expression, .one, none⟩,
     ⟨"increment", .node .statement, .one, none⟩, ⟨"block", .node .statement, .one, none⟩]
  | .forEach =>
    [⟨"variable", .text, .one, none⟩, ⟨"collection", .node .expression, .one, none⟩,
     ⟨"block", .node .statement, .one, none⟩]
  | .function =>
    [⟨"name", .text, .one, none⟩, ⟨"parameters", .node .parameter, .many, none⟩,
     ⟨"body", .node .statement, .one, none⟩]
  | .giveBack => [⟨"value", .node .expression, .optional, none⟩]
  | .expression => [⟨"expr", .node .expression, .one, none⟩]
  | .block => [⟨"statements", .node .statement, .many, none⟩]
  | .literal => [⟨"value", .payload, .one, none⟩, ⟨"kind", .word .kind, .one, none⟩]
  | .identifier => [⟨"name", .text, .one, none⟩]
  | .binaryOp =>
    [⟨"operator", .word .binary, .one, none⟩, ⟨"left", .node .expression, .one, none⟩,
     ⟨"right", .node .expression, .one, none⟩]
  | .unaryOp =>
    [⟨"operator", .word .unary, .one, none⟩, ⟨"operand", .node .expression, .one, none⟩]
  | .functionCall =>
    [⟨"name", .text, .one, none⟩, ⟨"arguments", .node .expression, .many, none⟩]
  | .index =>
    [⟨"base", .node .expression, .one, none⟩, ⟨"index", .node .expression, .one, none⟩]
  | .sequence => [⟨"elements", .node .expression, .many, none⟩]
  | .mapping => [⟨"entries", .node .entry, .many, none⟩]
  | .program => [⟨"statements", .node .statement, .many, none⟩]
  | .parameter =>
    [⟨"name", .text, .one, none⟩, ⟨"type_annotation", .text, .optional, some "type"⟩]
  | .entry => [⟨"key", .text, .one, none⟩, ⟨"value", .node .expression, .one, none⟩]

/-! ## 4. Violations -/

/-- Why a JSON value is not a program. -/
inductive SchemaError where
  | missing (field : String)
  | duplicate (field : String)
  | unknownWord (given : String) (known : List String)
  | wrongKind (found : String) (expected : String)
  | wrongIndex (given : Int) (count : Nat)
  | wrongLength (found : Nat) (expected : String)
  | notSingle
  deriving DecidableEq, Repr

/-- A list of alternatives in a message. -/
def listAlternatives : List String → String
  | [] => "there are no variants"
  | [a] => "expected `" ++ a ++ "`"
  | [a, b] => "expected `" ++ a ++ "` or `" ++ b ++ "`"
  | many => "expected one of " ++ ", ".intercalate (many.map fun a => "`" ++ a ++ "`")

/-- A number of elements in a message. -/
def countElements (n : Nat) : String :=
  if n = 1 then "1 element" else toString n ++ " elements"

/-- The wording of a violation. -/
def SchemaError.message : SchemaError → String
  | .missing field => "missing field `" ++ field ++ "`"
  | .duplicate field => "duplicate field `" ++ field ++ "`"
  | .unknownWord given known => "unknown variant `" ++ given ++ "`, " ++ listAlternatives known
  | .wrongKind found expected => "invalid type: " ++ found ++ ", expected " ++ expected
  | .wrongIndex given count =>
    s!"invalid value: integer `{given}`, expected variant index 0 <= i < {count}"
  | .wrongLength found expected => s!"invalid length {found}, expected " ++ expected
  | .notSingle => "invalid value: map, expected map with a single key"

end TreeScript
