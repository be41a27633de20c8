import TreeScript.Json.Basic
import TreeScript.Json.Error
import TreeScript.Decimal.Numeral

/-!
# Reading JSON text

A reader takes the characters that are left and returns what it read with the characters after
it.  Arrays and objects are read by two loops, `readItems` and `readMembers`, that are told how to
read one item and what to do with one member; they serve both the values of this module and the
nodes of a program, which are checked while they are read.

**Termination.**  `readValue` recurses on the number of arrays and objects that may still be
opened inside one another, which the format bounds; the loops recurse on the text that is left when
they start, of which every turn consumes at least one character.
-/

namespace TreeScript

/-- What reads something off the front of a text. -/
abbrev Reader (ε α : Type) := List Char → Except ε (α × List Char)

namespace Json

/-! ## 1. Characters -/

/-- The four characters that may stand between any two tokens. -/
def isSpace (c : Char) : Bool := c = ' ' || c = '\t' || c = '\n' || c = '\r'

/-- The text without the space at its front. -/
def dropSpace (cs : List Char) : List Char := cs.dropWhile isSpace

/-- The value of a hexadecimal digit. -/
def hexDigit? (c : Char) : Option Nat :=
  if '0' ≤ c ∧ c ≤ '9' then some (c.toNat - 48)
  else if 'a' ≤ c ∧ c ≤ 'f' then some (c.toNat - 87)
  else if 'A' ≤ c ∧ c ≤ 'F' then some (c.toNat - 55)
  else none

/-- The value of four hexadecimal digits. -/
def hexFour? (a b c d : Char) : Option Nat := do
  let a ← hexDigit? a
  let b ← hexDigit? b
  let c ← hexDigit? c
  let d ← hexDigit? d
  return ((a * 16 + b) * 16 + c) * 16 + d

/-- What is wrong when fewer than four characters follow `\u`: they are no digits if they fill
four bytes, and the text ends too early if not. -/
def shortEscape (cs : List Char) : JsonError :=
  if 4 ≤ (String.ofList cs).utf8ByteSize then .invalidEscape else .endInText

/-- The character that a letter after a backslash stands for. -/
def unescapeLetter? (c : Char) : Option Char :=
  if c = '"' then some '"'
  else if c = '\\' then some '\\'
  else if c = '/' then some '/'
  else if c = 'b' then some '\x08'
  else if c = 'f' then some '\x0c'
  else if c = 'n' then some '\n'
  else if c = 'r' then some '\r'
  else if c = 't' then some '\t'
  else none

/-- Whether a code is the first half of a pair that stands for one character. -/
def isHighHalf (code : Nat) : Bool := 0xd800 ≤ code && code ≤ 0xdbff

/-- Whether a code is the second half of such a pair. -/
def isLowHalf (code : Nat) : Bool := 0xdc00 ≤ code && code ≤ 0xdfff

/-- The character that a pair of halves stands for. -/
def pairChar (high low : Nat) : Char :=
  Char.ofNat ((high - 0xd800) * 0x400 + (low - 0xdc00) + 0x10000)

/-! ## 2. Texts -/

/-- Puts a character before the text that was read. -/
def consRead {ε : Type} (c : Char) (read : Except ε (List Char × List Char)) :
    Except ε (List Char × List Char) :=
  read.map fun r => (c :: r.1, r.2)

/-- Reads a text after its opening quote. -/
def readText : Reader JsonError (List Char)
  | [] => .error .endInText
  | c :: rest =>
    if c = '"' then .ok ([], rest)
    else if c = '\\' then
      match rest with
      | [] => .error .endInText
      | 'u' :: d₁ :: d₂ :: d₃ :: d₄ :: after =>
        match hexFour? d₁ d₂ d₃ d₄ with
        | none => .error .invalidEscape
        | some code =>
          if isLowHalf code then .error .loneSurrogate
          else if isHighHalf code then
            match after with
            | [] => .error .endInText
            | ['\\'] => .error .endInText
            | '\\' :: 'u' :: e₁ :: e₂ :: e₃ :: e₄ :: after =>
              match hexFour? e₁ e₂ e₃ e₄ with
              | none => .error .invalidEscape
              | some low =>
                if isLowHalf low then consRead (pairChar code low) (readText after)
                else .error .loneSurrogate
            | '\\' :: 'u' :: short => .error (shortEscape short)
            | _ => .error .unfinishedPair
          else consRead (Char.ofNat code) (readText after)
      | 'u' :: short => .error (shortEscape short)
      | letter :: after =>
        match unescapeLetter? letter with
        | some plain => consRead plain (readText after)
        | none => .error .invalidEscape
    else if c.toNat < 0x20 then .error .controlCharacter
    else consRead c (readText rest)

/-- Reads a text after its opening quote. -/
def readString : Reader JsonError String := fun cs =>
  (readText cs).map fun r => (String.ofList r.1, r.2)

/-! ## 3. Numbers and words -/

/-- The double of a numeral with a point or a power of ten, or of a long integer. -/
def readDouble (d : Decimal) (rest : List Char) : Except JsonError (Json × List Char) :=
  match d.toBinary64 with
  | .finite negative significand scale =>
    .ok (.double (Binary64.finite negative significand scale).toFloat, rest)
  | _ => .error .numberOutOfRange

/-- The value of a numeral without point and power of ten: an integer if it fits 64 bits, and
`-0` is a double. -/
def readInteger (negative : Bool) (n : Nat) (rest : List Char) :
    Except JsonError (Json × List Char) :=
  if !negative && n < UInt64.size then .ok (.integer n, rest)
  else if negative && 0 < n && n ≤ Nat.pow 2 63 then .ok (.integer (-n), rest)
  else readDouble ⟨negative, n, 0⟩ rest

/-- Reads a numeral after its digits before the point. -/
def readFraction (negative : Bool) (whole : List Char) (cs : List Char) :
    Except JsonError (Json × List Char) :=
  let finish (fraction : List Char) (isWhole : Bool) (cs : List Char) :=
    let coefficient := Decimal.natOfDigits (whole ++ fraction)
    match cs with
    | [] =>
      if isWhole then readInteger negative coefficient []
      else readDouble ⟨negative, coefficient, -fraction.length⟩ []
    | c :: rest =>
      if c = 'e' ∨ c = 'E' then
        let signed := Numeral.splitSign rest
        let power := Numeral.spanDigits signed.2
        if power.1.isEmpty then
          .error (if signed.2.isEmpty then .endInValue else .invalidNumber)
        else
          let exponent : Int := Decimal.natOfDigits power.1
          readDouble ⟨negative, coefficient,
            (if signed.1 then -exponent else exponent) - fraction.length⟩ power.2
      else if isWhole then readInteger negative coefficient (c :: rest)
      else readDouble ⟨negative, coefficient, -fraction.length⟩ (c :: rest)
  match cs with
  | '.' :: rest =>
    let fraction := Numeral.spanDigits rest
    if fraction.1.isEmpty then
      .error (if fraction.2.isEmpty then .endInValue else .invalidNumber)
    else finish fraction.1 false fraction.2
  | _ => finish [] true cs

/-- Reads a numeral after its sign. -/
def readUnsigned (negative : Bool) (cs : List Char) : Except JsonError (Json × List Char) :=
  let whole := Numeral.spanDigits cs
  match whole.1 with
  | [] => .error (if whole.2.isEmpty then .endInValue else .invalidNumber)
  | '0' :: _ :: _ => .error .invalidNumber
  | digits => readFraction negative digits whole.2

/-- Reads the rest of a word. -/
def readWord : List Char → List Char → Except JsonError (List Char)
  | [], cs => .ok cs
  | _ :: _, [] => .error .endInValue
  | w :: word, c :: cs => if c = w then readWord word cs else .error .expectedWord

/-- Reads a value that is neither an array nor an object, at its first character. -/
def readLeaf : Reader JsonError Json
  | [] => .error .endInValue
  | c :: rest =>
    if c = '"' then (readString rest).map fun r => (.text r.1, r.2)
    else if c = '-' then readUnsigned true rest
    else if c.isDigit then readUnsigned false (c :: rest)
    else if c = 'n' then (readWord ['u', 'l', 'l'] rest).map fun r => (.null, r)
    else if c = 't' then (readWord ['r', 'u', 'e'] rest).map fun r => (.boolean true, r)
    else if c = 'f' then (readWord ['a', 'l', 's', 'e'] rest).map fun r => (.boolean false, r)
    else .error .expectedValue

/-! ## 4. Arrays and objects -/

section Loops

variable {ε α σ : Type} (refuse : JsonError → ε)

/-- Reads what follows an item: the end of the array, or a comma and the other items. -/
def readMoreItems (item : Reader ε α) : (turns : List Char) → Reader ε (List α)
  | [], _ => .error (refuse .endInArray)
  | _ :: turns, cs =>
    match dropSpace cs with
    | [] => .error (refuse .endInArray)
    | ']' :: rest => .ok ([], rest)
    | ',' :: rest =>
      match dropSpace rest with
      | [] => .error (refuse .endInValue)
      | ']' :: _ => .error (refuse .trailingComma)
      | rest => do
        let (first, rest) ← item rest
        let (others, rest) ← readMoreItems item turns rest
        return (first :: others, rest)
    | _ => .error (refuse .expectedArrayEnd)

/-- Reads the items of an array after its opening bracket. -/
def readItems (item : Reader ε α) : Reader ε (List α) := fun cs =>
  match dropSpace cs with
  | [] => .error (refuse .endInArray)
  | ']' :: rest => .ok ([], rest)
  | rest => do
    let (first, rest) ← item rest
    let (others, rest) ← readMoreItems refuse item rest rest
    return (first :: others, rest)

/-- Reads the colon between a member's name and its value. -/
def readColon (cs : List Char) : Except ε (List Char) :=
  match dropSpace cs with
  | [] => .error (refuse .endInObject)
  | ':' :: rest => .ok rest
  | _ => .error (refuse .expectedColon)

/-- Reads one member after the opening quote of its name.  The step gets the name and the text
after it, colon included. -/
def readMember (step : σ → String → Reader ε σ) (state : σ) : Reader ε σ := fun cs =>
  match readString cs with
  | .error e => .error (refuse e)
  | .ok (name, rest) => step state name rest

/-- Reads what follows a member: the end of the object, or a comma and the other members. -/
def readMoreMembers (step : σ → String → Reader ε σ) : (turns : List Char) → σ → Reader ε σ
  | [], _, _ => .error (refuse .endInObject)
  | _ :: turns, state, cs =>
    match dropSpace cs with
    | [] => .error (refuse .endInObject)
    | '\x7d' :: rest => .ok (state, rest)
    | ',' :: rest =>
      match dropSpace rest with
      | [] => .error (refuse .endInValue)
      | '\x7d' :: _ => .error (refuse .trailingComma)
      | '"' :: rest => do
        let (state, rest) ← readMember refuse step state rest
        readMoreMembers step turns state rest
      | _ => .error (refuse .nameNotText)
    | _ => .error (refuse .expectedObjectEnd)

/-- Reads the members of an object after its opening brace. -/
def readMembers (step : σ → String → Reader ε σ) (state : σ) : Reader ε σ := fun cs =>
  match dropSpace cs with
  | [] => .error (refuse .endInObject)
  | '\x7d' :: rest => .ok (state, rest)
  | '"' :: rest => do
    let (state, rest) ← readMember refuse step state rest
    readMoreMembers refuse step rest state rest
  | _ => .error (refuse .nameNotText)

end Loops

/-- How many arrays and objects may be open inside one another. -/
def depthLimit : Nat := 127

/-- Reads a value; `depth` arrays and objects may still be opened. -/
def readValue : Nat → Reader JsonError Json
  | 0 => fun cs =>
    match dropSpace cs with
    | '[' :: _ => .error .tooDeep
    | '\x7b' :: _ => .error .tooDeep
    | leaf => readLeaf leaf
  | depth + 1 => fun cs =>
    match dropSpace cs with
    | '[' :: rest => do
      let (items, rest) ← readItems id (readValue depth) rest
      return (.array items, rest)
    | '\x7b' :: rest => do
      let (members, rest) ← readMembers id
        (fun members name rest => do
          let rest ← readColon id rest
          let (value, rest) ← readValue depth rest
          return ((name, value) :: members, rest)) [] rest
      return (.object members.reverse, rest)
    | leaf => readLeaf leaf

end Json

end TreeScript
