import TreeScript.Run.Action
import TreeScript.Table

/-!
# Built-in functions

Seven functions come with the language: output, tables in files, and sums and extrema.  Too few
arguments are an error, too many are noted in the log and ignored.

A table that cannot be read or written is reported in the log and does not stop the run: reading
gives the empty sequence, writing gives absence.  `write_csv` checks all of its arguments before it
touches the file.
-/

namespace TreeScript

/-- The built-in functions. -/
inductive Builtin where
  | len | max | min | print | readTable | sum | writeTable
  deriving DecidableEq, Repr

namespace Builtin

/-! ## 1. Names -/

/-- The name of a built-in function. -/
def name : Builtin → String
  | .len => "len"
  | .max => "max"
  | .min => "min"
  | .print => "print"
  | .readTable => "read_csv"
  | .sum => "sum"
  | .writeTable => "write_csv"

/-- The built-in functions by name. -/
def all : List Builtin := [.len, .max, .min, .print, .readTable, .sum, .writeTable]

/-- The built-in function with this name. -/
def ofName? (name : String) : Option Builtin := all.find? fun b => b.name = name

/-- How many arguments a function needs and how many it takes; `print` takes any number. -/
def arity : Builtin → Nat × Option Nat
  | .print => (0, none)
  | .writeTable => (2, some 3)
  | _ => (1, some 1)

/-- Refuses too few arguments and notes too many. -/
def checkArity (b : Builtin) (found : Nat) : Action Unit := do
  if found < b.arity.1 then Action.fail (.arityMismatch b.name b.arity.1 found)
  else
    match b.arity.2 with
    | none => return
    | some most =>
      if most < found then Action.note (.extraArguments b.name most found) else return

/-! ## 2. Numbers -/

/-- The number of elements of a sequence or mapping, and zero for everything else. -/
def count : Value → Nat
  | .sequence items => items.length
  | .mapping entries => entries.length
  | _ => 0

/-- The numbers of a list of values. -/
def numbersOf : List Value → Except RunError (List Float)
  | [] => .ok []
  | .number x :: rest => (numbersOf rest).map (x :: ·)
  | other :: _ => .error (.typeError "number" other.typeName)

/-- The numbers of a sequence. -/
def numbers : Value → Except RunError (List Float)
  | .sequence items => numbersOf items
  | other => .error (.typeError "sequence of numbers" other.typeName)

/-- The greater of two numbers; NaN counts as none, and of equal ones the first is taken. -/
def greater (x y : Float) : Float :=
  if !(x == x) then y else if !(y == y) then x else if x < y then y else x

/-- The smaller of two numbers; NaN counts as none, and of equal ones the first is taken. -/
def smaller (x y : Float) : Float :=
  if !(x == x) then y else if !(y == y) then x else if y < x then y else x

/-- The extremum of a list of numbers, or absence for none. -/
def extremum (pick : Float → Float → Float) : List Float → Value
  | [] => .absence
  | x :: rest => .number (rest.foldl pick x)

/-! ## 3. Output and tables -/

/-- Prints a line. -/
def printLine (line : String) : Action Value := fun st =>
  match st.console.print line with
  | (none, console) => .done .absence { st with console := console }
  | (some reason, console) => .failed (.inputOutput reason) { st with console := console }

/-- The text of the arguments of `print`. -/
def line (arguments : List Value) : String := " ".intercalate (arguments.map Value.toText)

/-- The path of a table. -/
def pathOf : Value → Except RunError String
  | .text path => .ok path
  | other => .error (.typeError "text path" other.typeName)

/-- The mappings of a list of values. -/
def mappingsOf : List Value → Except RunError (List (List (String × Value)))
  | [] => .ok []
  | .mapping entries :: rest => (mappingsOf rest).map (entries :: ·)
  | other :: _ => .error (.typeError "mapping row" other.typeName)

/-- The rows of a table that is to be written. -/
def rowsOf : Value → Except RunError (List (List (String × Value)))
  | .sequence items => mappingsOf items
  | other => .error (.typeError "sequence of mappings" other.typeName)

/-- The texts of a list of values. -/
def namesOf : List Value → Except RunError (List String)
  | [] => .ok []
  | .text s :: rest => (namesOf rest).map (s :: ·)
  | other :: _ => .error (.typeError "text field name" other.typeName)

/-- The header of a table: the names that are given, or the keys of the first row. -/
def headerOf (given : Option Value) (rows : List (List (String × Value))) :
    Except RunError (List String) :=
  match given with
  | some (.sequence items) => namesOf items
  | none => .ok (Entries.keys (rows.headD []))
  | some .absence => .ok (Entries.keys (rows.headD []))
  | some other => .error (.typeError "sequence of field names" other.typeName)

/-- The record of a file that was not read or written. -/
def failureRecord (b : Builtin) (path : String) (failure : FileFailure) : Record :=
  .fileFailure (.inputOutput (b.name ++ " '" ++ path ++ "': " ++ failure.message))

/-- Reads a table. -/
def readRows (path : String) : Action Value := fun st =>
  match st.files.read path with
  | .ok text => .done (.sequence ((Table.parse text).map .mapping)) st
  | .error failure => .done (.sequence []) (st.note (failureRecord .readTable path failure))

/-- Writes a table, and notes beforehand if it will not read back. -/
def writeRows (path : String) (fields : List String) (rows : List (List (String × Value))) :
    Action Value := fun st =>
  let cells := Table.countUnfaithful rows
  let st := if 0 < cells then st.note (.unfaithfulCells path cells) else st
  match st.files.write path (Table.render fields rows) with
  | .ok files => .done .absence { st with files := files }
  | .error failure => .done .absence (st.note (failureRecord .writeTable path failure))

/-! ## 4. Calls -/

/-- An argument that the arity guarantees. -/
def argument (arguments : List Value) (n : Nat) : Except RunError Value :=
  match arguments[n]? with
  | some v => .ok v
  | none => .error (.internal .argumentMissing)

/-- **A call of a built-in function.** -/
def call (b : Builtin) (arguments : List Value) : Action Value := do
  b.checkArity arguments.length
  match b with
  | .print => printLine (line arguments)
  | .len => do
    let collection ← Action.ofResult (argument arguments 0)
    return .number (Decimal.ofNat (count collection)).toFloat
  | .sum => do
    let sequence ← Action.ofResult (argument arguments 0)
    let xs ← Action.ofResult (numbers sequence)
    return .number (xs.foldl (fun total x => total + x) 0)
  | .max => do
    let sequence ← Action.ofResult (argument arguments 0)
    let xs ← Action.ofResult (numbers sequence)
    return extremum greater xs
  | .min => do
    let sequence ← Action.ofResult (argument arguments 0)
    let xs ← Action.ofResult (numbers sequence)
    return extremum smaller xs
  | .readTable => do
    let first ← Action.ofResult (argument arguments 0)
    let path ← Action.ofResult (pathOf first)
    readRows path
  | .writeTable => do
    let first ← Action.ofResult (argument arguments 0)
    let path ← Action.ofResult (pathOf first)
    let second ← Action.ofResult (argument arguments 1)
    let rows ← Action.ofResult (rowsOf second)
    let fields ← Action.ofResult (headerOf arguments[2]? rows)
    writeRows path fields rows

end Builtin

end TreeScript
