import TreeScript.Program.Reader
import TreeScript.Run.Interpreter
import TreeScript.Settings

/-!
# Launching a program

From a text, or a file, to the end of a run.  What can stop a launch is a file that cannot be
read, settings that are not well formed, or an error of the program itself; a text that is no
program is an error of the last sort, met before anything runs.
-/

namespace TreeScript

/-- What stopped a launch. -/
inductive LaunchError where
  | inputOutput (detail : String)
  | settings (detail : String)
  | program (error : RunError)
  deriving DecidableEq

namespace LaunchError

/-- The line that a user sees. -/
def display : LaunchError → String
  | .inputOutput detail => "IO error: " ++ detail
  | .settings detail => "Config error: " ++ detail
  | .program error => error.display

/-- The kind of the program's error, if it was one. -/
def kind? : LaunchError → Option ErrorKind
  | .program error => some error.kind
  | _ => none

end LaunchError

/-- A load error as an error of the program. -/
def LoadError.toRunError (e : LoadError) : RunError := .malformedTree e.message

namespace Launch

/-- The program in a text. -/
def programOfText (text : String) : Except RunError Program :=
  (Program.ofText text).mapError LoadError.toRunError

/-- The text of a file. -/
def readFile (files : Files) (path : String) : Except LaunchError String :=
  (files.read path).mapError fun failure => .inputOutput (path ++ ": " ++ failure.message)

/-- The program in a file. -/
def programOfFile (files : Files) (path : String) : Except LaunchError Program := do
  let text ← readFile files path
  (programOfText text).mapError .program

/-- The settings in a file. -/
def settingsOfFile (files : Files) (path : String) : Except LaunchError Settings := do
  let text ← readFile files path
  match Settings.ofText? text with
  | some settings => return settings
  | none => throw (.settings "not valid settings")

/-- Runs the program in a text from the beginning, with the settings that no text changes. -/
def runText (fuel : Nat) (text : String) : Outcome Value :=
  match programOfText text with
  | .error e => .failed e {}
  | .ok p => Interpreter.execute ({} : Settings).callLimit fuel p {}

end Launch

end TreeScript
