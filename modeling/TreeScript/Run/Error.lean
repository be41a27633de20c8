import TreeScript.Decimal.Notation
import TreeScript.Text.Quoted

/-!
# Errors of a run

A run stops at the first error.  Each constructor is one cause with what its message needs;
`kind` groups the causes, `message` words them and `display` is the line that a user sees.

`internal` is a step outside its domain: popping the frame of the program itself, applying a
logical operator to two finished values, and the like.  A run never meets one.
-/

namespace TreeScript

/-- Steps outside their domain. -/
inductive Fault where
  | topFramePopped
  | logicalOperator
  | positionOutside
  | argumentMissing
  deriving DecidableEq, Repr

/-- What a fault says. -/
def Fault.message : Fault → String
  | .topFramePopped => "Cannot pop the top-level frame"
  | .logicalOperator => "logical operators are short-circuited"
  | .positionOutside => "position outside the sequence"
  | .argumentMissing => "argument missing"

/-- The kinds of errors. -/
inductive ErrorKind where
  | unboundName | unknownFunction | typeError | divisionByZero | arityMismatch | malformedTree
  | inputOutput | indexOutOfBounds | keyNotFound | stackOverflow | internal
  deriving DecidableEq, Repr

/-- The name of a kind of errors. -/
def ErrorKind.name : ErrorKind → String
  | .unboundName => "UnboundName"
  | .unknownFunction => "UnknownFunction"
  | .typeError => "TypeError"
  | .divisionByZero => "DivisionByZero"
  | .arityMismatch => "ArityMismatch"
  | .malformedTree => "MalformedAst"
  | .inputOutput => "IoError"
  | .indexOutOfBounds => "IndexOutOfBounds"
  | .keyNotFound => "KeyNotFound"
  | .stackOverflow => "StackOverflow"
  | .internal => "panic"

/-- Why a run stopped. -/
inductive RunError where
  | unboundName (name : String)
  | unknownFunction (name : String)
  | typeError (expected found : String)
  | divisionByZero
  | arityMismatch (function : String) (expected found : Nat)
  | malformedTree (detail : String)
  | inputOutput (detail : String)
  | indexOutOfBounds (index : Float) (length : Nat)
  | keyNotFound (key : String)
  | stackOverflow (limit : Nat)
  | internal (fault : Fault)
  deriving DecidableEq

namespace RunError

/-- The kind of an error. -/
def kind : RunError → ErrorKind
  | .unboundName _ => .unboundName
  | .unknownFunction _ => .unknownFunction
  | .typeError _ _ => .typeError
  | .divisionByZero => .divisionByZero
  | .arityMismatch _ _ _ => .arityMismatch
  | .malformedTree _ => .malformedTree
  | .inputOutput _ => .inputOutput
  | .indexOutOfBounds _ _ => .indexOutOfBounds
  | .keyNotFound _ => .keyNotFound
  | .stackOverflow _ => .stackOverflow
  | .internal _ => .internal

/-- The wording of an error. -/
def message : RunError → String
  | .unboundName name => "unbound name: " ++ name
  | .unknownFunction name => "unknown function: " ++ name
  | .typeError expected found => "type error: expected " ++ expected ++ ", got " ++ found
  | .divisionByZero => "division by zero"
  | .arityMismatch function expected found =>
    "function " ++ function ++ s!" expects {expected} argument(s), got {found}"
  | .malformedTree detail => "malformed AST: " ++ detail
  | .inputOutput detail => "IO error: " ++ detail
  | .indexOutOfBounds index length =>
    "index " ++ String.ofList (Notation.plain.write index) ++
      s!" out of bounds for length {length}"
  | .keyNotFound key => "key not found: " ++ Text.quoted key
  | .stackOverflow limit => s!"stack overflow: call depth exceeded {limit}"
  | .internal fault => fault.message

/-- The line that a user sees. -/
def display (e : RunError) : String := "Runtime error: " ++ e.message

end RunError

end TreeScript
