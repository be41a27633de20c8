import TreeScript.Program.Decoder
import TreeScript.Json.Skip

/-!
# Reading a program from its text

The root of a program and its top-level statements are checked **while** the text is read, so that
the first thing wrong with a text is reported, whether it is the text or the program that is wrong.
A top-level statement is read to its end before its fields are checked; only its tag is checked as
soon as it is met.  Below that, values are read whole and then decoded.

Members that the root does not know are skipped, and members that a statement does not know are
read like the others.

The wording of an error says what is wrong and not where: the ` at line L column C` that a user is
shown after it is left out here, for the errors of the text and for those of the program.
-/

namespace TreeScript

/-- Why a text is not a program. -/
inductive LoadError where
  | json (e : JsonError)
  | schema (e : SchemaError)
  /-- A tree that fits the shapes and is no program; there is none. -/
  | unshaped
  deriving DecidableEq, Repr

/-- The wording of a load error, without the place where loading stopped. -/
def LoadError.message : LoadError → String
  | .json e => e.message
  | .schema e => e.message
  | .unshaped => "unshaped tree"

namespace Program

/-! ## 1. Lifting -/

/-- A step of reading JSON, among the steps of loading. -/
def liftJson {α : Type} (r : Except JsonError α) : Except LoadError α := r.mapError .json

/-- A step of decoding, among the steps of loading. -/
def liftSchema {α : Type} (r : Except SchemaError α) : Except LoadError α := r.mapError .schema

/-- Refuses the value at the front of a text: of an array or object only its kind is looked at,
everything else is read first. -/
def refuseValue {α : Type} (expected : String) : Reader LoadError α := fun cs =>
  match Json.dropSpace cs with
  | '[' :: _ => .error (.schema (.wrongKind "sequence" expected))
  | '\x7b' :: _ => .error (.schema (.wrongKind "map" expected))
  | leaf =>
    match Json.readLeaf leaf with
    | .error e => .error (.json e)
    | .ok (value, _) => .error (.schema (.wrongKind value.describe expected))

/-! ## 2. Statements -/

/-- Reads the tag of a top-level statement, which has to be a word. -/
def readTag : Reader LoadError Tag := fun cs =>
  match Json.dropSpace cs with
  | '"' :: rest => do
    let (word, rest) ← liftJson (Json.readString rest)
    let tag ← liftSchema (Tree.tagOfWord .statement word)
    return (tag, rest)
  | other => refuseValue "variant identifier" other

/-- What is known of a top-level statement while its members are read: its tag and the other
members, the last one first. -/
abbrev Opened := Option Tag × List (String × Json)

/-- Reads one member of a top-level statement after its name. -/
def readStatementMember (depth : Nat) (opened : Opened) (name : String) :
    Reader LoadError Opened := fun cs =>
  if name = "type" then
    if opened.1.isSome then .error (.schema (.duplicate "type"))
    else do
      let rest ← Json.readColon .json cs
      let (tag, rest) ← readTag rest
      return ((some tag, opened.2), rest)
  else do
    let rest ← Json.readColon .json cs
    let (value, rest) ← liftJson (Json.readValue depth rest)
    return ((opened.1, (name, value) :: opened.2), rest)

/-- Reads a top-level statement that is an array, after its bracket: the tag and the fields. -/
def readStatementArray (depth : Nat) : Reader LoadError Tree := fun cs =>
  match Json.dropSpace cs with
  | [] => .error (.json .endInArray)
  | ']' :: _ => .error (.schema (.missing "type"))
  | other => do
    let (tag, rest) ← readTag other
    let (items, rest) ←
      liftJson (Json.readMoreItems id (Json.readValue depth) rest rest)
    let tree ← liftSchema (Tree.ofPositions tag items)
    return (tree, rest)

/-- Reads a top-level statement that is an object, after its brace. -/
def readStatementObject (depth : Nat) : Reader LoadError Tree := fun cs => do
  let ((tag, members), rest) ←
    Json.readMembers .json (readStatementMember depth) (none, []) cs
  match tag with
  | none => throw (.schema (.missing "type"))
  | some tag =>
    let tree ← liftSchema (Tree.ofMembers tag members.reverse)
    return (tree, rest)

/-- Reads a top-level statement; `depth` arrays and objects may be open inside it. -/
def readStatement (depth : Nat) : Reader LoadError Tree := fun cs =>
  match Json.dropSpace cs with
  | '[' :: rest => readStatementArray depth rest
  | '\x7b' :: rest => readStatementObject depth rest
  | other => refuseValue NodeClass.statement.expectation other

/-- Reads the list of top-level statements; `depth` arrays and objects may be open inside one. -/
def readStatements (depth : Nat) : Reader LoadError (List Tree) := fun cs =>
  match Json.dropSpace cs with
  | '[' :: rest => Json.readItems .json (readStatement depth) rest
  | other => refuseValue "a sequence" other

/-! ## 3. The root -/

/-- How many arrays and objects may be open inside a top-level statement. -/
def statementDepth : Nat := Json.depthLimit - 3

/-- Reads one member of the root after its name. -/
def readRootMember (found : Option (List Tree)) (name : String) :
    Reader LoadError (Option (List Tree)) := fun cs =>
  if name = "statements" then
    if found.isSome then .error (.schema (.duplicate "statements"))
    else do
      let rest ← Json.readColon .json cs
      let (statements, rest) ← readStatements statementDepth rest
      return (some statements, rest)
  else do
    let rest ← Json.readColon .json cs
    let rest ← liftJson (Json.skipValue rest)
    return (found, rest)

/-- Reads the root where it is an array, after its bracket: at most the list of statements. -/
def readRootArray : Reader LoadError (List Tree) := fun cs =>
  match Json.dropSpace cs with
  | [] => .error (.json .endInArray)
  | ']' :: rest => .ok ([], rest)
  | other => do
    let (statements, rest) ← readStatements statementDepth other
    match Json.dropSpace rest with
    | [] => .error (.json .endInArray)
    | ']' :: rest => return (statements, rest)
    | ',' :: rest =>
      match Json.dropSpace rest with
      | ']' :: _ => .error (.json .trailingComma)
      | _ => .error (.json .trailingCharacters)
    | _ => .error (.json .trailingCharacters)

/-- Reads the root of a program. -/
def readRoot : Reader LoadError (List Tree) := fun cs =>
  match Json.dropSpace cs with
  | '[' :: rest => readRootArray rest
  | '\x7b' :: rest => do
    let (found, rest) ← Json.readMembers .json readRootMember none rest
    return (found.getD [], rest)
  | other => refuseValue NodeClass.program.expectation other

/-- The trees of the top-level statements of a text. -/
def readTrees (s : String) : Except LoadError (List Tree) := do
  let (trees, rest) ← readRoot s.toList
  match Json.dropSpace rest with
  | [] => return trees
  | _ => throw (.json .trailingCharacters)

/-- **The program that a text holds**, or the first thing that is wrong with it. -/
def ofText (s : String) : Except LoadError Program := do
  let trees ← readTrees s
  match Stmt.ofTrees? trees with
  | some statements => return ⟨statements⟩
  | none => throw .unshaped

end Program

end TreeScript
