import TreeScript.Run.Error

/-!
# Log records

What a run reports beside its output.  Every record is kept; a reader of the log picks the levels
it wants.
-/

namespace TreeScript

/-- Levels, the most urgent first. -/
inductive Level where
  | error | warn | info | debug | trace
  deriving DecidableEq, Repr

/-- The name of a level in a record. -/
def Level.name : Level → String
  | .error => "ERROR" | .warn => "WARN" | .info => "INFO" | .debug => "DEBUG" | .trace => "TRACE"

/-- How urgent a level is: the smaller, the more urgent. -/
def Level.rank : Level → Nat
  | .error => 0 | .warn => 1 | .info => 2 | .debug => 3 | .trace => 4

/-- The level that so many requests for more detail ask for. -/
def Level.ofVerbosity : Nat → Level
  | 0 => .warn
  | 1 => .info
  | 2 => .debug
  | _ => .trace

/-- The name of a level in a filter. -/
def Level.filterName : Level → String
  | .error => "error" | .warn => "warn" | .info => "info" | .debug => "debug" | .trace => "trace"

/-- Records. -/
inductive Record where
  /-- A program of so many statements was started from a file. -/
  | started (file : String) (statements : Nat)
  /-- A call had more arguments than the function takes. -/
  | extraArguments (function : String) (expected found : Nat)
  /-- A table was written that will not read back as it was. -/
  | unfaithfulCells (path : String) (cells : Nat)
  /-- A file was not read or written. -/
  | fileFailure (error : RunError)
  /-- A function was registered, in place of another one or not. -/
  | registered (function : String) (isReplaced : Bool)
  /-- A function was called, at this depth. -/
  | called (function : String) (depth : Nat)
  deriving DecidableEq

namespace Record

/-- The level of a record. -/
def level : Record → Level
  | .started _ _ => .info
  | .extraArguments _ _ _ => .warn
  | .unfaithfulCells _ _ => .warn
  | .fileFailure _ => .error
  | .registered _ _ => .debug
  | .called _ _ => .trace

/-- What a record reports. -/
def message : Record → String
  | .started _ _ => "running program"
  | .extraArguments _ _ _ => "extra arguments ignored"
  | .unfaithfulCells _ _ => "cells containing ',' or line breaks will not read back as written"
  | .fileFailure error => error.message
  | .registered _ _ => "function registered"
  | .called _ _ => "call"

/-- The named details of a record. -/
def details : Record → List (String × String)
  | .started file statements => [("file", file), ("statements", toString statements)]
  | .extraArguments function expected found =>
    [("function", function), ("expected", toString expected), ("got", toString found)]
  | .unfaithfulCells path cells => [("path", path), ("cells", toString cells)]
  | .fileFailure error => [("kind", error.kind.name)]
  | .registered function isReplaced =>
    [("function", function), ("replaced", if isReplaced then "true" else "false")]
  | .called function depth => [("function", function), ("depth", toString depth)]

/-- Whether a reader who asked for records down to a level gets this one. -/
def isWithin (record : Record) (most : Level) : Bool := record.level.rank ≤ most.rank

/-- A record as a line: its level, what it reports, and its details. -/
def line (record : Record) : String :=
  " ".intercalate (record.level.name :: record.message ::
    record.details.map fun detail => detail.1 ++ "=" ++ detail.2)

end Record

end TreeScript
