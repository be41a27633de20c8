import TreeScript.Proofs.Run.Change
import TreeScript.Run.Interpreter

/-!
# One call of a function

A call is refused for too few arguments, or because too many calls are active already; otherwise
the body runs in a frame of its own.  The three lemmas `callFunction_few`, `callFunction_deep` and
`callFunction_eq_restore` say what a call does in each case, for whatever runs the body.

The frame is taken off again by a pop, which has something to take off only if the body left the
callers alone.  `inFrame_eq_restore` turns the pop into putting back the stack of the caller.
-/

namespace TreeScript

/-! ## 1. Stacks -/

/-- The frames determine the stack: its depth is their number. -/
theorem CallStack.ext_frames {s t : CallStack} (hcurrent : s.current = t.current)
    (hcallers : s.callers = t.callers) : s = t := by
  obtain ⟨current, callers, depth, hdepth⟩ := s
  obtain ⟨current', callers', depth', hdepth'⟩ := t
  dsimp only at hcurrent hcallers
  subst hcurrent hcallers hdepth hdepth'
  rfl

theorem CallStack.depth_eq_of_callers {s t : CallStack} (h : s.callers = t.callers) :
    s.depth = t.depth := by rw [s.depth_eq, t.depth_eq, h]

theorem CallStack.depth_pos (s : CallStack) : 0 < s.depth := by
  rw [s.depth_eq]
  omega

/-- A stack whose callers are those of `s` with the current frame of `s` in front pops to `s`. -/
theorem CallStack.pop?_of_callers {s t : CallStack} (h : t.callers = s.current :: s.callers) :
    t.pop? = some (t.current, s) := by
  have hpop : ∀ (frame : Frame) (rest : List Frame), t.callers = frame :: rest →
      ∃ stack : CallStack, t.pop? = some (t.current, stack) ∧
        stack.current = frame ∧ stack.callers = rest := by
    intro frame rest hcallers
    unfold CallStack.pop?
    split
    · rename_i hnil
      rw [hcallers] at hnil
      cases hnil
    · rename_i frame' rest' hcons
      rw [hcallers] at hcons
      cases hcons
      exact ⟨_, rfl, rfl, rfl⟩
  obtain ⟨stack, heq, hcurrent, hcallers⟩ := hpop s.current s.callers h
  rw [heq, CallStack.ext_frames hcurrent hcallers]

/-! ## 2. Entering and leaving -/

/-- The state in which a function's body starts. -/
def State.enter (st : State) (function : String) (frame : Frame) : State :=
  ({ st with stack := st.stack.push frame }).note (.called function (st.stack.depth + 1))

/-- The state after a call has noted that arguments were dropped, if any were. -/
def State.noteExtra (st : State) (f : FunctionDef) (arguments : List Value) : State :=
  if f.parameters.length < arguments.length then
    st.note (.extraArguments f.name f.parameters.length arguments.length)
  else st

@[simp] theorem State.stack_note (st : State) (record : Record) :
    (st.note record).stack = st.stack := rfl

@[simp] theorem State.log_note (st : State) (record : Record) :
    (st.note record).log = record :: st.log := rfl

@[simp] theorem State.stack_enter (st : State) (function : String) (frame : Frame) :
    (st.enter function frame).stack = st.stack.push frame := rfl

@[simp] theorem State.log_enter (st : State) (function : String) (frame : Frame) :
    (st.enter function frame).log = .called function (st.stack.depth + 1) :: st.log := rfl

@[simp] theorem State.stack_noteExtra (st : State) (f : FunctionDef) (arguments : List Value) :
    (st.noteExtra f arguments).stack = st.stack := by
  unfold State.noteExtra
  split <;> rfl

/-- Every function in the table has a property. -/
def State.EachFunction (P : FunctionDef → Prop) (st : State) : Prop :=
  ∀ name f, Entries.get? st.functions name = some f → P f

/-- A function with the property may be registered. -/
theorem State.EachFunction.register {P : FunctionDef → Prop} {st : State} (h : st.EachFunction P)
    {f : FunctionDef} (hf : P f) : (st.register f).EachFunction P := by
  intro name g hg
  have hget : Entries.get? (Entries.insert st.functions f.name f) name = some g := hg
  rw [Entries.get?_insert] at hget
  split at hget
  · obtain rfl := Option.some.inj hget
    exact hf
  · exact h name g hget

/-- An outcome with its value changed and the stack put back to what it was. -/
def Outcome.restore {α β : Type} (value : α → β) (stack : CallStack) : Outcome α → Outcome β
  | .done a st => .done (value a) { st with stack := stack }
  | .failed error st => .failed error { st with stack := stack }
  | .exhausted => .exhausted

theorem Outcome.Leaves.restore {α β : Type} {outcome : Outcome α} {value : α → β}
    {stack : CallStack} {P Q : Option RunError → State → Prop} (h : outcome.Leaves P)
    (hPQ : ∀ how st, P how st → Q how { st with stack := stack }) :
    (outcome.restore value stack).Leaves Q := by
  cases outcome with
  | done a st => exact hPQ none st h
  | failed error st => exact hPQ (some error) st h
  | exhausted => trivial

namespace Interpreter

/-- The outcome of a body that kept its callers, with the call's frame taken off. -/
theorem leave_eq_restore {α : Type} {outcome : Outcome α} {stack : CallStack}
    (h : outcome.Leaves fun _ st => st.stack.callers = stack.current :: stack.callers) :
    leave outcome = outcome.restore id stack := by
  cases outcome with
  | done value st =>
    have hpop : st.stack.pop? = some (st.stack.current, stack) := CallStack.pop?_of_callers h
    simp only [leave, hpop, Outcome.restore, id]
  | failed error st =>
    have hpop : st.stack.pop? = some (st.stack.current, stack) := CallStack.pop?_of_callers h
    simp only [leave, hpop, Outcome.restore]
  | exhausted => rfl

/-- **A body that keeps its callers gives them back**: running it in a frame of its own is running
it on top of the stack and putting the stack back. -/
theorem inFrame_eq_restore {α : Type} {function : String} {frame : Frame} {body : Action α}
    {st : State}
    (h : (body (st.enter function frame)).Leaves fun _ st' =>
      st'.stack.callers = st.stack.current :: st.stack.callers) :
    inFrame function frame body st = (body (st.enter function frame)).restore id st.stack :=
  leave_eq_restore h

/-! ## 3. The three ends of a call -/

section Call

variable {limit : Nat} {run : Stmt → Action Signal} {f : FunctionDef} {arguments : List Value}
  {st : State}

theorem callFunction_few (h : arguments.length < f.parameters.length) :
    callFunction limit run f arguments st =
      .failed (.arityMismatch f.name f.parameters.length arguments.length) st := by
  unfold callFunction
  simp only [h, if_true]
  rfl

/-- With enough arguments only the number of active calls decides. -/
theorem callFunction_enough (h : f.parameters.length ≤ arguments.length) :
    callFunction limit run f arguments st =
      if limit < st.stack.depth then
        .failed (.stackOverflow limit) (st.noteExtra f arguments)
      else
        (inFrame f.name (parameterFrame f.parameters arguments) (run f.body) >>= fun signal =>
          pure signal.value) (st.noteExtra f arguments) := by
  have hfew : ¬ arguments.length < f.parameters.length := Nat.not_lt.mpr h
  -- the depth is read after the note, which leaves the stack alone
  have hread : ∀ st' : State, st'.stack = st.stack →
      (Action.state >>= fun now =>
        if limit < now.stack.depth then
          (Action.fail (.stackOverflow limit) : Action Unit) >>= fun _ =>
            inFrame f.name (parameterFrame f.parameters arguments) (run f.body) >>= fun signal =>
              pure signal.value
        else inFrame f.name (parameterFrame f.parameters arguments) (run f.body) >>= fun signal =>
          pure signal.value) st' =
      if limit < st.stack.depth then .failed (.stackOverflow limit) st'
      else
        (inFrame f.name (parameterFrame f.parameters arguments) (run f.body) >>= fun signal =>
          pure signal.value) st' := by
    intro st' hst
    rw [Action.bind_apply]
    simp only [Action.state, hst]
    by_cases hdeep : limit < st.stack.depth
    · rw [if_pos hdeep, if_pos hdeep]
      rfl
    · rw [if_neg hdeep, if_neg hdeep]
  unfold callFunction State.noteExtra
  by_cases hmore : f.parameters.length < arguments.length
  · simp only [hfew, hmore, if_true, if_false]
    exact hread _ rfl
  · simp only [hfew, hmore, if_false]
    exact hread _ rfl

theorem callFunction_deep (h : f.parameters.length ≤ arguments.length)
    (hdeep : limit < st.stack.depth) :
    callFunction limit run f arguments st =
      .failed (.stackOverflow limit) (st.noteExtra f arguments) := by
  rw [callFunction_enough h, if_pos hdeep]

/-- **A call that is let in** runs the body on a frame of the parameters and puts the stack back,
if the body keeps its callers. -/
theorem callFunction_eq_restore (h : f.parameters.length ≤ arguments.length)
    (hroom : st.stack.depth ≤ limit)
    (hbody : (run f.body ((st.noteExtra f arguments).enter f.name
        (parameterFrame f.parameters arguments))).Leaves fun _ st' =>
      st'.stack.callers = ((st.noteExtra f arguments).enter f.name
        (parameterFrame f.parameters arguments)).stack.callers) :
    callFunction limit run f arguments st =
      (run f.body ((st.noteExtra f arguments).enter f.name
        (parameterFrame f.parameters arguments))).restore Signal.value st.stack := by
  have hin := inFrame_eq_restore hbody
  rw [callFunction_enough h, if_neg (Nat.not_lt.mpr hroom), Action.bind_apply, hin,
    State.stack_noteExtra]
  cases run f.body ((st.noteExtra f arguments).enter f.name
    (parameterFrame f.parameters arguments)) <;> rfl

/-- A name that is not built in stands for the function in the table. -/
theorem callWith_user {name : String} (huser : Builtin.ofName? name = none)
    (hf : Entries.get? st.functions name = some f) :
    callWith limit run name arguments st = callFunction limit run f arguments st := by
  unfold callWith
  simp only [huser, Action.bind_apply, Action.state, hf]

end Call

end Interpreter

end TreeScript
