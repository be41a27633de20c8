import TreeScript.Json.Reader

/-!
# Skipping JSON text

A member that a program does not know at its root is skipped: its value has to be well formed, but
nothing is built from it.  So numbers may be of any size, an escaped character may be half of a
pair, and there is no limit on nesting.  The messages for what is not well formed differ from the
reader's in a few places, because a comma is not looked beyond.

**Termination.**  Every array or object that is opened costs a character, so a text cannot nest
deeper than it is long, and `skipNested` recurses on that depth; when the depth is used up there is
no text left.  The loops recurse on the text that is left after the first item, of which every turn
consumes at least a comma.
-/

namespace TreeScript.Json

/-! ## 1. Texts, numerals and words -/

/-- Skips a text after its opening quote. -/
def skipText : List Char → Except JsonError (List Char)
  | [] => .error .endInText
  | c :: rest =>
    if c = '"' then .ok rest
    else if c = '\\' then
      match rest with
      | [] => .error .endInText
      | 'u' :: d₁ :: d₂ :: d₃ :: d₄ :: after =>
        if (hexFour? d₁ d₂ d₃ d₄).isSome then skipText after else .error .invalidEscape
      | 'u' :: short => .error (shortEscape short)
      | letter :: after =>
        if (unescapeLetter? letter).isSome then skipText after else .error .invalidEscape
    else if c.toNat < 0x20 then .error .controlCharacter
    else skipText rest

/-- Skips the power of ten of a numeral, if it has one. -/
def skipExponent : List Char → Except JsonError (List Char)
  | [] => .ok []
  | c :: rest =>
    if c = 'e' ∨ c = 'E' then
      let power := Numeral.spanDigits (Numeral.splitSign rest).2
      if power.1.isEmpty then .error .invalidNumber else .ok power.2
    else .ok (c :: rest)

/-- Skips a numeral after its sign. -/
def skipUnsigned (cs : List Char) : Except JsonError (List Char) :=
  let whole := Numeral.spanDigits cs
  match whole.1 with
  | [] => .error .invalidNumber
  | '0' :: _ :: _ => .error .invalidNumber
  | _ =>
    match whole.2 with
    | '.' :: rest =>
      let fraction := Numeral.spanDigits rest
      if fraction.1.isEmpty then .error .invalidNumber else skipExponent fraction.2
    | rest => skipExponent rest

/-- Skips a value that is neither an array nor an object, at its first character. -/
def skipLeaf : List Char → Except JsonError (List Char)
  | [] => .error .endInValue
  | c :: rest =>
    if c = '"' then skipText rest
    else if c = '-' then skipUnsigned rest
    else if c.isDigit then skipUnsigned (c :: rest)
    else if c = 'n' then readWord ['u', 'l', 'l'] rest
    else if c = 't' then readWord ['r', 'u', 'e'] rest
    else if c = 'f' then readWord ['a', 'l', 's', 'e'] rest
    else .error .expectedValue

/-! ## 2. Arrays and objects -/

/-- What takes something off the front of a text and keeps nothing of it. -/
abbrev Skipper := List Char → Except JsonError (List Char)

/-- Skips what follows an item: the end of the array, or a comma and the other items. -/
def skipMoreItems (item : Skipper) : (turns : List Char) → Skipper
  | [], _ => .error .endInArray
  | _ :: turns, cs =>
    match dropSpace cs with
    | [] => .error .endInArray
    | ']' :: rest => .ok rest
    | ',' :: rest => do
      let rest ← item rest
      skipMoreItems item turns rest
    | _ => .error .expectedArrayEnd

/-- Skips the items of an array after its opening bracket. -/
def skipItems (item : Skipper) : Skipper := fun cs =>
  match dropSpace cs with
  | [] => .error .endInArray
  | ']' :: rest => .ok rest
  | rest => do
    let rest ← item rest
    skipMoreItems item rest rest

/-- Skips a name, a colon and a value. -/
def skipMember (value : Skipper) : Skipper := fun cs =>
  match dropSpace cs with
  | [] => .error .endInObject
  | '"' :: rest => do
    let rest ← skipText rest
    let rest ← readColon id rest
    value rest
  | _ => .error .nameNotText

/-- Skips what follows a member: the end of the object, or a comma and the other members. -/
def skipMoreMembers (value : Skipper) : (turns : List Char) → Skipper
  | [], _ => .error .endInObject
  | _ :: turns, cs =>
    match dropSpace cs with
    | [] => .error .endInObject
    | '\x7d' :: rest => .ok rest
    | ',' :: rest => do
      let rest ← skipMember value rest
      skipMoreMembers value turns rest
    | _ => .error .expectedObjectEnd

/-- Skips the members of an object after its opening brace. -/
def skipMembers (value : Skipper) : Skipper := fun cs =>
  match dropSpace cs with
  | [] => .error .endInObject
  | '\x7d' :: rest => .ok rest
  | rest => do
    let rest ← skipMember value rest
    skipMoreMembers value rest rest

/-- Skips a value that nests no deeper than `depth`. -/
def skipNested : (depth : Nat) → Skipper
  | 0, _ => .error .endInValue
  | depth + 1, cs =>
    match dropSpace cs with
    | '[' :: rest => skipItems (skipNested depth) rest
    | '\x7b' :: rest => skipMembers (skipNested depth) rest
    | leaf => skipLeaf leaf

/-- **Skips a value.** -/
def skipValue : Skipper := fun cs => skipNested cs.length cs

end TreeScript.Json
