import TreeScript.Program.Tree

/-!
# From a JSON value to the tree of a node

`decode` checks a JSON value against the tables of the schema.  A node may be an object with its
members in any order, or an array with its fields in their order and, if it is a named node, its
tag in front.  Members that the node does not know are passed over.

**Which violation is reported.**  The tag of a node is found first.  Then the fields are decoded in
the order of the text, and the first violation among them is the one reported; last come the
missing fields, in the order of the schema.
-/

namespace TreeScript

namespace Tree

/-! ## 1. Words and tags -/

/-- The word of a vocabulary with this spelling. -/
def decodeWord (v : Vocabulary) (s : String) : Except SchemaError Tree :=
  match v.spellings.lookup s with
  | some w => .ok (.word w)
  | none => .error (.unknownWord s (v.spellings.map Prod.fst))

/-- What stands beside a word that is written as the only member of an object: nothing. -/
def decodeNothing : Json → Except SchemaError Unit
  | .null => .ok ()
  | .object [] => .ok ()
  | other => .error (.wrongKind other.describe "unit")

/-- A word that is written as the only member of an object. -/
def decodeWordObject (v : Vocabulary) : List (String × Json) → Except SchemaError Tree
  | [(s, beside)] => do
    let w ← decodeWord v s
    decodeNothing beside
    return w
  | _ => .error .notSingle

/-- The kind of node that a word names. -/
def tagOfWord (cls : NodeClass) (s : String) : Except SchemaError Tag :=
  match cls.tags.find? fun tag => tag.word = s with
  | some tag => .ok tag
  | none => .error (.unknownWord s (cls.tags.map Tag.word))

/-- The kind of node that a value names: a word, or its place among the kinds. -/
def decodeTag (cls : NodeClass) : Json → Except SchemaError Tag
  | .text s => tagOfWord cls s
  | .integer i =>
    if 0 ≤ i then
      match cls.tags[i.toNat]? with
      | some tag => .ok tag
      | none => .error (.wrongIndex i cls.tags.length)
    else .error (.wrongKind (Json.integer i).describe "variant identifier")
  | other => .error (.wrongKind other.describe "variant identifier")

/-- The kind of node that the members `type` of an object name, if there is one. -/
def findTag (cls : NodeClass) (tag : Option Tag) : List (String × Json) →
    Except SchemaError (Option Tag)
  | [] => .ok tag
  | (name, value) :: rest =>
    if name = "type" then
      if tag.isSome then .error (.duplicate "type")
      else do
        let tag ← decodeTag cls value
        findTag cls (some tag) rest
    else findTag cls tag rest

/-- The kind of node of an object. -/
def objectTag (cls : NodeClass) (members : List (String × Json)) : Except SchemaError Tag :=
  match cls.record? with
  | some tag => .ok tag
  | none => do
    match ← findTag cls none members with
    | some tag => return tag
    | none => throw (.missing "type")

/-! ## 2. Fields -/

/-- What a field holds that is left out, if it may be. -/
def default? : Count → Option Tree
  | .one => none
  | .optional => some .absent
  | .many => some (.list [])

/-- The fields of an object in their order, from those that were found in it. -/
def assemble (found : List (String × Tree)) : List Field → Except SchemaError (List Tree)
  | [] => .ok []
  | f :: fields =>
    match found.lookup f.name with
    | some t => (assemble found fields).map (t :: ·)
    | none =>
      match default? f.count with
      | some t => (assemble found fields).map (t :: ·)
      | none => .error (.missing f.name)

/-- The fields that an array leaves out at its end, the first of them at this place. -/
def assembleRest (tag : Tag) (place : Nat) : List Field → Except SchemaError (List Tree)
  | [] => .ok []
  | f :: fields =>
    match default? f.count with
    | some t => (assembleRest tag (place + 1) fields).map (t :: ·)
    | none =>
      .error (.wrongLength place (tag.title ++ " with " ++ countElements tag.fields.length))

/-- A value that is neither an array nor an object, at a field. -/
def decodeLeaf (count : Count) (atom : Atom) (leaf : Json) : Except SchemaError Tree :=
  match count, atom, leaf with
  | .optional, _, .null => .ok .absent
  | .many, _, _ => .error (.wrongKind leaf.describe "a sequence")
  | _, .text, .text s => .ok (.text s)
  | _, .text, _ => .error (.wrongKind leaf.describe "a string")
  | _, .payload, _ => .ok (.payload leaf)
  | _, .word v, .text s => decodeWord v s
  | _, .word _, _ => .error (.wrongKind leaf.describe "string or map")
  | _, .node cls, _ => .error (.wrongKind leaf.describe cls.expectation)

/-! ## 3. Nodes -/

mutual

/-- **Checks a value against what may stand at a field.** -/
def decode (count : Count) (atom : Atom) : Json → Except SchemaError Tree
  | .array items =>
    match count, atom with
    | .many, _ => (decodeItems atom items).map .list
    | _, .text => .error (.wrongKind "sequence" "a string")
    | _, .payload => .ok (.payload (Json.array items).canonical)
    | _, .word _ => .error (.wrongKind "sequence" "string or map")
    | _, .node cls =>
      match cls.record?, items with
      | some tag, items => (decodePositions tag tag.fields 0 items).map (.node tag)
      | none, [] => .error (.missing "type")
      | none, first :: rest => do
        let tag ← decodeTag cls first
        (decodePositions tag tag.fields 0 rest).map (.node tag)
  | .object members =>
    match count, atom with
    | .many, _ => .error (.wrongKind "map" "a sequence")
    | _, .text => .error (.wrongKind "map" "a string")
    | _, .payload => .ok (.payload (Json.object members).canonical)
    | _, .word v => decodeWordObject v members
    | _, .node cls => do
      let tag ← objectTag cls members
      let found ← decodeMembers tag.fields [] members
      (assemble found tag.fields).map (.node tag)
  | leaf => decodeLeaf count atom leaf

/-- The items of a list. -/
def decodeItems (atom : Atom) : List Json → Except SchemaError (List Tree)
  | [] => .ok []
  | item :: rest => do
    let t ← decode .one atom item
    let ts ← decodeItems atom rest
    return t :: ts

/-- The fields of a node that is written as an array, after the first `given` of them. -/
def decodePositions (tag : Tag) (fields : List Field) (given : Nat) :
    List Json → Except SchemaError (List Tree)
  | [] => assembleRest tag given fields
  | item :: rest =>
    match fields with
    | [] => .error (.wrongLength (given + 1 + rest.length) (countElements given ++ " in sequence"))
    | f :: fields => do
      let t ← decode f.count f.atom item
      let ts ← decodePositions tag fields (given + 1) rest
      return t :: ts

/-- The members of an object that are fields of its node, the last one first. -/
def decodeMembers (fields : List Field) (found : List (String × Tree)) :
    List (String × Json) → Except SchemaError (List (String × Tree))
  | [] => .ok found
  | (name, value) :: rest =>
    match fields.find? fun f => f.isCalled name with
    | none => decodeMembers fields found rest
    | some f =>
      if (found.lookup f.name).isSome then .error (.duplicate f.name)
      else do
        let t ← decode f.count f.atom value
        decodeMembers fields ((f.name, t) :: found) rest

end

/-- The node of a kind from the members of an object. -/
def ofMembers (tag : Tag) (members : List (String × Json)) : Except SchemaError Tree := do
  let found ← decodeMembers tag.fields [] members
  (assemble found tag.fields).map (.node tag)

/-- The node of a kind from the items of an array. -/
def ofPositions (tag : Tag) (items : List Json) : Except SchemaError Tree :=
  (decodePositions tag tag.fields 0 items).map (.node tag)

end Tree

end TreeScript
