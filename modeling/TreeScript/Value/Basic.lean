import TreeScript.Entries

/-!
# Values

The values of a run: doubles, texts, truth values, sequences, mappings with text keys in insertion
order, and absence.

`Value.same` is the language's equality.  Numbers are compared as numbers, so that the two zeros
are the same and NaN is the same as nothing; mappings are the same when they bind the same keys to
the same values, in whatever order.
-/

namespace TreeScript

/-- A value of a run. -/
inductive Value where
  | number (x : Float)
  | text (s : String)
  | boolean (b : Bool)
  | sequence (items : List Value)
  | mapping (entries : List (String × Value))
  | absence
  deriving Inhabited

namespace Value

/-- The name of a value's kind in error messages. -/
def typeName : Value → String
  | .number _ => "number"
  | .text _ => "text"
  | .boolean _ => "boolean"
  | .sequence _ => "sequence"
  | .mapping _ => "mapping"
  | .absence => "absence"

/-- Whether a value counts as true: the truth value itself, a number other than zero, a text that
is not empty. -/
def isTruthy : Value → Bool
  | .boolean b => b
  | .number x => !(x == 0)
  | .text s => !s.isEmpty
  | _ => false

/-- The number, if the value is one. -/
def number? : Value → Option Float
  | .number x => some x
  | _ => none

/-- The text, if the value is one. -/
def text? : Value → Option String
  | .text s => some s
  | _ => none

/-- Whether the value is absence. -/
def isAbsent : Value → Bool
  | .absence => true
  | _ => false

mutual

/-- **The equality of the language.** -/
def same : Value → Value → Bool
  | .number x, .number y => x == y
  | .text s, .text t => s == t
  | .boolean a, .boolean b => a == b
  | .sequence as, .sequence bs => sameItems as bs
  | .mapping es, .mapping fs => es.length == fs.length && sameEntries es fs
  | .absence, .absence => true
  | _, _ => false
termination_by a b => sizeOf a + sizeOf b

/-- Whether two lists hold the same values position by position. -/
def sameItems : List Value → List Value → Bool
  | [], [] => true
  | a :: as, b :: bs => same a b && sameItems as bs
  | _, _ => false
termination_by as bs => sizeOf as + sizeOf bs

/-- Whether for every entry the others bind its key to a value that is the same as its own. -/
def sameEntries : List (String × Value) → List (String × Value) → Bool
  | [], _ => true
  | (key, value) :: rest, others =>
    (match h : Entries.get? others key with
      | some other =>
        have := Entries.sizeOf_lt_of_get? h
        same other value
      | none => false) && sameEntries rest others
termination_by es fs => sizeOf es + sizeOf fs

end

end Value

end TreeScript
