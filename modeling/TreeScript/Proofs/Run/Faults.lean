import TreeScript.Proofs.Run.Regime
import TreeScript.Proofs.Position

/-!
# No step outside its domain

Four steps of the interpreter are not defined everywhere: taking a frame off the stack, which the
frame of the program itself must not be; applying an operator to two values, which a logical one
never is; taking an item of a sequence by its position; and taking an argument of a built-in
function.  Each is guarded somewhere else: by the body of a call, which keeps its callers; by the
way logical operators are evaluated; by the check of the index, which is made in doubles; and by the
check of the arity.

A step outside its domain would end the run in a fault.  `no_fault` says that nothing that an
interpreter can be asked for, in any state, ends in one.
-/

namespace TreeScript

/-- No fault is met. -/
def Change.faultless : Change where
  holds _ how _ := ∀ fault, how ≠ some (.internal fault)
  refl _ := nofun
  trans _ h := h

/-- An error of another kind is no fault. -/
theorem Change.faultless_of_kind {error : RunError} (h : error.kind ≠ .internal) (st st' : State) :
    Change.faultless.holds st (some error) st' := by
  rintro fault heq
  obtain rfl := Option.some.inj heq
  exact h rfl

/-- **Every step of a run is inside its domain**, whatever is run. -/
def Regime.faultless (limit : Nat) : Regime limit where
  expr _ := True
  stmt _ := True
  change := .faultless
  expr_part _ _ := trivial
  stmt_expr _ _ := trivial
  stmt_part _ _ := trivial
  stack _ h := h
  fail _ h st := Change.faultless_of_kind h.2.1 st st
  overflow st := Change.faultless_of_kind (by nofun) st st
  literal _ := Action.within_ofResult fun error h st =>
    Change.faultless_of_kind (by rw [Value.kind_of_ofLiteral h]; nofun) st st
  note _ _ st := Change.faultless.refl st
  print _ := Builtin.printLine_within (fun st _ => Change.faultless.refl st)
    fun _ st => Change.faultless_of_kind (by nofun) st st
  read _ := Builtin.readRows_within fun _ _ st => Change.faultless.refl st
  write _ := Builtin.writeRows_within (fun _ _ st => Change.faultless.refl st)
    fun st _ => Change.faultless.refl st
  register _ _ st := Change.faultless.refl st
  table _ _ _ h := h trivial

namespace Interpreter

/-- **No request ends in a fault**, from whatever state. -/
theorem request_faultless (limit fuel : Nat) (request : Request) :
    (request.run limit fuel).Within .faultless := by
  refine (Regime.faultless limit).request_within fuel ?_
  cases request with
  | execute p => exact fun _ _ => trivial
  | exec s => trivial
  | evaluate e => trivial
  | call name values => trivial
  | define f => trivial

/-- The body of a function leaves at least the two frames that it was entered with. -/
theorem two_le_depth_of_body (limit fuel : Nat) (f : FunctionDef) (frame : Frame) (st : State) :
    (exec limit fuel f.body (st.enter f.name frame)).Leaves fun _ st' => 2 ≤ st'.stack.depth := by
  refine (exec_callers limit fuel f.body (st.enter f.name frame)).mono fun _ st' h => ?_
  have hdepth : st'.stack.depth = st.stack.depth + 1 := CallStack.depth_eq_of_callers h
  have hpos := st.stack.depth_pos
  omega

/-- **No step outside its domain.**  Whatever an interpreter is asked for and whatever state it is
in, it does not end in a fault: no frame is missing, no operator and no built-in function gets
operands or arguments that it is not defined for.  There are as many frames after a request as
before, and at least two when the frame of a call is taken off, however its body ended.  The
position that the doubles select in a sequence below `2^53` is one of the sequence. -/
theorem no_fault (limit fuel : Nat) :
    (∀ (request : Request) (st st' : State) (fault : Fault),
      request.run limit fuel st ≠ .failed (.internal fault) st') ∧
    (∀ (request : Request) (st : State), 1 ≤ st.stack.depth ∧
      (request.run limit fuel st).Leaves fun _ st' => st'.stack.depth = st.stack.depth) ∧
    (∀ (f : FunctionDef) (frame : Frame) (st : State),
      (exec limit fuel f.body (st.enter f.name frame)).Leaves fun _ st' => 2 ≤ st'.stack.depth) ∧
    ∀ (length : Nat) (index : Float), length < 2 ^ 53 →
      Value.position? length index = Value.doublePosition? length index ∧
        ∀ place, Value.doublePosition? length index = some place → place < length := by
  refine ⟨?_, ?_, two_le_depth_of_body limit fuel, ?_⟩
  · intro request st st' fault hrun
    have hleaves := request_faultless limit fuel request st
    rw [hrun] at hleaves
    exact hleaves fault rfl
  · exact fun request st => ⟨st.stack.depth_pos, request_depth limit fuel request st⟩
  · intro length index hlength
    have hsame := Value.position?_eq_doublePosition? length hlength index
    exact ⟨hsame, fun place hplace => Value.lt_of_position? (hsame.trans hplace)⟩

/-- The place before the last one of three, counted from the end with a fraction. -/
theorem no_fault_counting_back :
    3 < 2 ^ 53 ∧ Value.doublePosition? 3 (-2.5) = some 1 ∧ 1 < 3 := by
  obtain ⟨-, -, -, hindex⟩ := no_fault 5 9
  obtain ⟨hsame, hlt⟩ := hindex 3 (-2.5) (by decide)
  have hplace : Value.position? 3 (-2.5) = some 1 := by decide +kernel
  exact ⟨by decide, hsame ▸ hplace, hlt 1 (hsame ▸ hplace)⟩

end Interpreter

end TreeScript
