import TreeScript.Json.Reader
import TreeScript.Text.Pieces

/-!
# Settings of a run

Settings are written one to a line, as a key, an equals sign and a value.  There are two keys, one
for a number and one for a truth value; a key may be quoted, lines may be blank, and a comment goes
from a number sign to the end of its line.  Every other text is refused: a key that is not known or
is given twice, a value of another type, a table, or what is not well formed.

Integers are decimal with an optional sign, or hexadecimal, octal or binary; an underscore may
stand between two digits.
-/

namespace TreeScript

/-- The settings of a run. -/
structure Settings where
  /-- How many calls may be active at the same time. -/
  callLimit : Nat := 10000
  /-- Whether the value of a program is printed at its end. -/
  showsResult : Bool := false
  deriving DecidableEq, Repr

namespace Settings

/-! ## 1. Characters -/

/-- The blanks inside a line. -/
def isBlank (c : Char) : Bool := c = ' ' || c = '\t'

/-- The text without the blanks at its front. -/
def dropBlanks (cs : List Char) : List Char := cs.dropWhile isBlank

/-- Control characters, which stand nowhere but at the end of a line; a tab is none. -/
def isControl (c : Char) : Bool := c ≠ '\t' && (c.toNat < 0x20 || c.toNat = 0x7f)

/-- Characters of a key that is not quoted. -/
def isBareKeyChar (c : Char) : Bool :=
  c.isAlphanum || c = '_' || c = '-'

/-- Whether nothing but blanks and a comment is left of a line. -/
def isRest (cs : List Char) : Bool :=
  match dropBlanks cs with
  | [] => true
  | '#' :: comment => comment.all fun c => !isControl c
  | _ => false

/-! ## 2. Keys -/

/-- The character with this code, unless the code is half of a pair or too large. -/
def scalar? (code : Nat) : Option Char :=
  if h : code.isValidChar then some (Char.ofNatAux code h) else none

/-- The number that hexadecimal digits spell. -/
def hexNumber? (digits : List Char) : Option Nat :=
  digits.foldl (fun n c => do return (← n) * 16 + (← Json.hexDigit? c)) (some 0)

/-- Reads a key between double quotes, after the first of them. -/
def readQuotedKey : List Char → Option (List Char × List Char)
  | [] => none
  | '"' :: rest => some ([], rest)
  | '\\' :: 'u' :: a :: b :: c :: d :: rest => do
    let ch ← scalar? (← hexNumber? [a, b, c, d])
    let (key, rest) ← readQuotedKey rest
    return (ch :: key, rest)
  | '\\' :: 'U' :: a :: b :: c :: d :: e :: f :: g :: h :: rest => do
    let ch ← scalar? (← hexNumber? [a, b, c, d, e, f, g, h])
    let (key, rest) ← readQuotedKey rest
    return (ch :: key, rest)
  | '\\' :: letter :: rest => do
    let ch ← if letter = '/' then none else Json.unescapeLetter? letter
    let (key, rest) ← readQuotedKey rest
    return (ch :: key, rest)
  | c :: rest => do
    if isControl c || c = '\\' then none
    else
      let (key, rest) ← readQuotedKey rest
      return (c :: key, rest)

/-- The apostrophe. -/
def apostrophe : Char := '\x27'

/-- Reads the key at the front of a line. -/
def readKey (cs : List Char) : Option (List Char × List Char) :=
  match cs with
  | [] => none
  | c :: rest =>
    if c = '"' then readQuotedKey rest
    else if c = apostrophe then
      let key := rest.takeWhile fun c => c ≠ apostrophe && !isControl c
      match rest.drop key.length with
      | [] => none
      | closing :: after => if closing = apostrophe then some (key, after) else none
    else
      let key := cs.takeWhile isBareKeyChar
      if key.isEmpty then none else some (key, cs.drop key.length)

/-! ## 3. Values -/

/-- The value of a digit in a base. -/
def digit? (base : Nat) (c : Char) : Option Nat := do
  let d ← Json.hexDigit? c
  if d < base then some d else none

/-- Reads digits of which two may have an underscore between them; `n` is the number so far and
`wasDigit` whether the last character was a digit. -/
def readDigits (base : Nat) (n : Nat) (wasDigit : Bool) : List Char → Option Nat
  | [] => if wasDigit then some n else none
  | c :: rest =>
    if c = '_' then if wasDigit then readDigits base n false rest else none
    else do readDigits base (n * base + (← digit? base c)) true rest

/-- Reads a decimal integer after its sign; it has no zeros in front. -/
def readDecimal (cs : List Char) : Option Nat :=
  match cs with
  | ['0'] => some 0
  | '0' :: _ => none
  | _ => readDigits 10 0 false cs

/-- Reads an integer. -/
def readInteger (cs : List Char) : Option Int :=
  match cs with
  | '0' :: 'x' :: digits => (readDigits 16 0 false digits).map fun n => (n : Int)
  | '0' :: 'o' :: digits => (readDigits 8 0 false digits).map fun n => (n : Int)
  | '0' :: 'b' :: digits => (readDigits 2 0 false digits).map fun n => (n : Int)
  | '+' :: digits => (readDecimal digits).map fun n => (n : Int)
  | '-' :: digits => (readDecimal digits).map fun n => -(n : Int)
  | digits => (readDecimal digits).map fun n => (n : Int)

/-- Reads a number of calls: not negative, and below `2^63`. -/
def readLimit (cs : List Char) : Option Nat := do
  let i ← readInteger cs
  if 0 ≤ i ∧ i < (Nat.pow 2 63 : Nat) then some i.toNat else none

/-- Reads a truth value. -/
def readTruth (cs : List Char) : Option Bool :=
  if cs = ['t', 'r', 'u', 'e'] then some true
  else if cs = ['f', 'a', 'l', 's', 'e'] then some false
  else none

/-! ## 4. Lines -/

/-- What the lines so far have set. -/
structure Given where
  callLimit : Option Nat := none
  showsResult : Option Bool := none

/-- Sets a key that was not set before. -/
def Given.set (given : Given) (key value : List Char) : Option Given :=
  let key := String.ofList key
  if key = "max_call_depth" then
    if given.callLimit.isSome then none
    else (readLimit value).map fun n => { given with callLimit := some n }
  else if key = "show_result" then
    if given.showsResult.isSome then none
    else (readTruth value).map fun b => { given with showsResult := some b }
  else none

/-- The characters of a value: up to a blank or a comment. -/
def isValueChar (c : Char) : Bool := !isBlank c && c ≠ '#'

/-- Reads one line. -/
def readLine (given : Given) (line : List Char) : Option Given :=
  if isRest line then some given
  else do
    let (key, rest) ← readKey (dropBlanks line)
    match dropBlanks rest with
    | '=' :: rest =>
      let rest := dropBlanks rest
      let value := rest.takeWhile isValueChar
      if isRest (rest.drop value.length) then given.set key value else none
    | _ => none

/-- Changes settings by what was given. -/
def Given.over (given : Given) (settings : Settings) : Settings where
  callLimit := given.callLimit.getD settings.callLimit
  showsResult := given.showsResult.getD settings.showsResult

/-- **The settings that a text holds**, with defaults for what it does not set. -/
def ofText? (s : String) : Option Settings :=
  ((Text.lines (Text.dropMark s.toList)).foldlM readLine {}).map fun given => given.over {}

end Settings

end TreeScript
