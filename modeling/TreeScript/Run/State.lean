import TreeScript.Entries
import TreeScript.Value.Basic
import TreeScript.Program.Basic
import TreeScript.Files
import TreeScript.Run.Log

/-!
# The state of a run

A run has a stack of call frames, a table of functions, a console that is printed to, files, and a
log.  The stack always has a current frame: the frame of the program itself is never popped.

A name is looked up in the current frame only, so that a function sees its parameters and what it
assigns itself, and nothing of its callers.
-/

namespace TreeScript

/-- The variables of one call. -/
abbrev Frame := List (String × Value)

/-! ## 1. The stack of frames -/

/-- The frames of the calls that are active; the last caller is the program itself.  The number of
frames is kept, so that asking for it does not walk over them. -/
structure CallStack where
  current : Frame
  callers : List Frame
  /-- The number of frames, that of the program included. -/
  depth : Nat
  depth_eq : depth = callers.length + 1

namespace CallStack

/-- The frame of the program alone, with these variables. -/
def ofFrame (frame : Frame) : CallStack := ⟨frame, [], 1, rfl⟩

instance : Inhabited CallStack := ⟨ofFrame []⟩

/-- Enters a call with this frame. -/
def push (stack : CallStack) (frame : Frame) : CallStack where
  current := frame
  callers := stack.current :: stack.callers
  depth := stack.depth + 1
  depth_eq := by simp [stack.depth_eq]

/-- Leaves a call: its frame, and the stack of its caller.  The program is not left. -/
def pop? (stack : CallStack) : Option (Frame × CallStack) :=
  match h : stack.callers with
  | [] => none
  | frame :: rest =>
    some (stack.current,
      { current := frame, callers := rest, depth := stack.depth - 1
        depth_eq := by simp [stack.depth_eq, h] })

/-- Binds a name in the current frame. -/
def define (stack : CallStack) (name : String) (value : Value) : CallStack :=
  { stack with current := Entries.insert stack.current name value }

/-- The value of a name in the current frame. -/
def get? (stack : CallStack) (name : String) : Option Value := Entries.get? stack.current name

@[simp] theorem pop?_push (stack : CallStack) (frame : Frame) :
    (stack.push frame).pop? = some (frame, stack) := rfl

@[simp] theorem depth_push (stack : CallStack) (frame : Frame) :
    (stack.push frame).depth = stack.depth + 1 := rfl

@[simp] theorem depth_define (stack : CallStack) (name : String) (value : Value) :
    (stack.define name value).depth = stack.depth := rfl

end CallStack

/-! ## 2. The console -/

/-- How a device fails: with which reason, and after how many characters of a text. -/
structure DeviceFailure where
  reason : String
  taken : Nat := 0
  deriving DecidableEq, Repr

/-- A console: what it shows, how often its device was asked to show a text or to pass on what it
has, and at which of these attempts the device fails. -/
structure Console where
  text : String := ""
  attempts : Nat := 0
  failure : Nat → Option DeviceFailure := fun _ => none

namespace Console

/-- A console whose device never works. -/
def broken (reason : String) : Console := { failure := fun _ => some { reason := reason } }

/-- The console after one attempt more. -/
def next (console : Console) : Console := { console with attempts := console.attempts + 1 }

/-- Shows a text: the reason if the device fails, and the console afterwards.  What the device took
of the text before it failed is shown. -/
def write (console : Console) (text : String) : Option String × Console :=
  match console.failure console.attempts with
  | none => (none, { console.next with text := console.text ++ text })
  | some failure =>
    let shown := String.ofList (text.toList.take failure.taken)
    (some failure.reason, { console.next with text := console.text ++ shown })

/-- Has the device pass on what it has: the reason if it fails, and the console afterwards.  What is
shown stays. -/
def flush (console : Console) : Option String × Console :=
  ((console.failure console.attempts).map DeviceFailure.reason, console.next)

/-- **Prints a line**: shows it, and has it passed on if that went well. -/
def print (console : Console) (line : String) : Option String × Console :=
  match console.write (line ++ "\n") with
  | (none, console) => console.flush
  | (some reason, console) => (some reason, console)

/-- Printing shows something more, whether it fails or not. -/
theorem text_print (console : Console) (line : String) :
    ∃ shown, (console.print line).2.text = console.text ++ shown := by
  unfold print write flush
  cases console.failure console.attempts with
  | none => exact ⟨line ++ "\n", rfl⟩
  | some failure => exact ⟨_, rfl⟩

/-- A line stays shown if it is only passing it on that fails. -/
example : (print { failure := fun n => if n = 1 then some { reason := "full" } else none } "a").2.text
    = "a\n" := by decide

/-- A device keeps failing where it did. -/
theorem failure_print (console : Console) (line : String) :
    (console.print line).2.failure = console.failure := by
  unfold print write flush
  cases console.failure console.attempts with
  | none => rfl
  | some failure => rfl

/-- Printing fails only as the device does. -/
theorem exists_failure_of_print {console : Console} {line reason : String}
    (h : (console.print line).1 = some reason) :
    ∃ n failure, console.failure n = some failure ∧ failure.reason = reason := by
  unfold print write flush at h
  cases hfirst : console.failure console.attempts with
  | none =>
    rw [hfirst] at h
    obtain ⟨failure, hsecond, hreason⟩ := Option.map_eq_some_iff.mp h
    exact ⟨_, failure, hsecond, hreason⟩
  | some failure =>
    rw [hfirst] at h
    exact ⟨_, failure, hfirst, Option.some.inj h⟩

end Console

/-! ## 3. The state -/

/-- The state of a run. -/
structure State where
  stack : CallStack := .ofFrame []
  functions : List (String × FunctionDef) := []
  console : Console := {}
  files : Files := {}
  /-- The records so far, the last one first. -/
  log : List Record := []

namespace State

/-- The records so far in their order. -/
def records (st : State) : List Record := st.log.reverse

/-- Adds a record to the log. -/
def note (st : State) (record : Record) : State := { st with log := record :: st.log }

/-- Registers a function, in place of one of the same name. -/
def register (st : State) (f : FunctionDef) : State :=
  let isReplaced := Entries.contains st.functions f.name
  { st with functions := Entries.insert st.functions f.name f }.note (.registered f.name isReplaced)

end State

end TreeScript
