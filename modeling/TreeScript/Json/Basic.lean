import TreeScript.Decimal.Notation
import TreeScript.Text.Quoted

/-!
# JSON values

A JSON value as it was read: an object keeps its members in the order of the text, repeated names
included.  Integers that fit 64 bits are apart from doubles, because they are written back as
integers.

`Json.canonical` is the value with the members of every object sorted by name, the last of
repeated members kept.  `Json.describe` names a value's kind in an error message.
-/

namespace TreeScript

/-- A JSON value. -/
inductive Json where
  | null
  | boolean (value : Bool)
  | integer (value : Int)
  | double (value : Float)
  | text (value : String)
  | array (items : List Json)
  | object (members : List (String × Json))
  deriving BEq, Inhabited

namespace Json

/-! ## 1. Canonical objects -/

/-- Puts a member into its place by name; a member of that name is replaced. -/
def place (members : List (String × Json)) (name : String) (value : Json) :
    List (String × Json) :=
  match members with
  | [] => [(name, value)]
  | (n, v) :: rest =>
    if n = name then (name, value) :: rest
    else if name < n then (name, value) :: (n, v) :: rest
    else (n, v) :: place rest name value

/-- The members sorted by name, the last of repeated ones kept. -/
def sortMembers (members : List (String × Json)) : List (String × Json) :=
  members.foldl (fun sorted member => place sorted member.1 member.2) []

mutual

/-- The value with the members of all its objects sorted. -/
def canonical : Json → Json
  | .array items => .array (canonicalItems items)
  | .object members => .object (sortMembers (canonicalMembers members))
  | leaf => leaf

/-- The items of an array, each in canonical form. -/
def canonicalItems : List Json → List Json
  | [] => []
  | item :: rest => canonical item :: canonicalItems rest

/-- The members of an object with their values in canonical form, not yet sorted. -/
def canonicalMembers : List (String × Json) → List (String × Json)
  | [] => []
  | (name, value) :: rest => (name, canonical value) :: canonicalMembers rest

end

/-! ## 2. Kinds -/

/-- The kind of a value, with the value itself where it is short. -/
def describe : Json → String
  | .null => "null"
  | .boolean true => "boolean `true`"
  | .boolean false => "boolean `false`"
  | .integer value => s!"integer `{value}`"
  | .double value => "floating point `" ++ String.ofList (Notation.json.write value) ++ "`"
  | .text value => "string " ++ Text.quoted value
  | .array _ => "sequence"
  | .object _ => "map"

end Json

end TreeScript
