import TreeScript.Proofs.Run.Discipline
import TreeScript.Proofs.Run.Session

/-!
# Frames are kept

An expression leaves the whole stack as it was: the frame of every call that it makes is taken off
again, also when the call fails.  A statement binds names in the current frame and nothing else,
and only names that stand in it as the target of an assignment or as the variable of a loop.  The
bodies of the functions that it declares do not count, because they run in frames of their own.

Both are one `Discipline`, `frames`.  Its step for calls is where the pop is seen to find what the
push had put there: the body, being a statement, has kept its callers.
-/

namespace TreeScript

/-! ## 1. The names that a statement binds -/

mutual

/-- The targets of assignments and the variables of loops in a statement, those in the bodies of
declared functions excepted. -/
def Stmt.assigned : Stmt → List String
  | .assign name _ => [name]
  | .branch _ thenBlock elseBlock => thenBlock.assigned ++ Stmt.assignedElse elseBlock
  | .loop _ body => body.assigned
  | .loopFor init _ increment body => init.assigned ++ increment.assigned ++ body.assigned
  | .loopEach item _ body => item :: body.assigned
  | .declare _ _ _ => []
  | .giveBack _ => []
  | .evaluate _ => []
  | .block statements => Stmt.assignedAll statements

/-- The names that an else part binds. -/
def Stmt.assignedElse : Option Stmt → List String
  | none => []
  | some s => s.assigned

/-- The names that a list of statements binds. -/
def Stmt.assignedAll : List Stmt → List String
  | [] => []
  | s :: rest => s.assigned ++ Stmt.assignedAll rest

end

theorem Stmt.mem_assignedAll {name : String} {t : Stmt} (hname : name ∈ t.assigned) :
    ∀ {statements : List Stmt}, t ∈ statements → name ∈ Stmt.assignedAll statements
  | s :: rest, h => by
    rw [Stmt.assignedAll, List.mem_append]
    rcases List.mem_cons.mp h with rfl | h
    · exact Or.inl hname
    · exact Or.inr (Stmt.mem_assignedAll hname h)

/-- What a part of a statement binds, the statement binds. -/
theorem Stmt.assigned_of_mem_parts {s t : Stmt} {name : String} (h : t ∈ s.parts)
    (hname : name ∈ t.assigned) : name ∈ s.assigned := by
  cases Stmt.isPart_of_mem_parts h with
  | inBlock h => exact Stmt.mem_assignedAll hname h
  | elseBlock => exact List.mem_append_right _ hname
  | _ => simp [Stmt.assigned, hname]

theorem Stmt.assigned_of_mem_binds {s : Stmt} {name : String} (h : name ∈ s.binds) :
    name ∈ s.assigned := by
  cases s with
  | assign name' value => exact h
  | loopEach item collection body =>
    rcases List.mem_singleton.mp h with rfl
    exact List.mem_cons_self
  | _ => cases h

/-! ## 2. Two changes -/

/-- The stack stays as it is. -/
def Change.sameStack : Change where
  holds st _ st' := st'.stack = st.stack
  refl _ := rfl
  trans h h₁ := h₁.trans h

/-- The callers stay as they are. -/
def Change.sameCallers : Change where
  holds st _ st' := st'.stack.callers = st.stack.callers
  refl _ := rfl
  trans h h₁ := h₁.trans h

/-- The callers stay as they are, and the current frame changes at some names at most. -/
def Change.bindsOnly (names : List String) : Change where
  holds st _ st' :=
    st'.stack.callers = st.stack.callers ∧
      ∀ name, name ∉ names → st'.stack.get? name = st.stack.get? name
  refl _ := ⟨rfl, fun _ _ => rfl⟩
  trans h h₁ := ⟨h₁.1.trans h.1, fun name hname => (h₁.2 name hname).trans (h.2 name hname)⟩

theorem Change.sameStack_le_bindsOnly (names : List String) :
    Change.sameStack ≤ Change.bindsOnly names := by
  intro st _ st' h
  have hstack : st'.stack = st.stack := h
  exact ⟨by rw [hstack], fun _ _ => by rw [hstack]⟩

theorem Change.bindsOnly_le_sameCallers (names : List String) :
    Change.bindsOnly names ≤ Change.sameCallers := fun h => h.1

theorem Change.bindsOnly_mono {names names' : List String} (h : ∀ name ∈ names, name ∈ names') :
    Change.bindsOnly names ≤ Change.bindsOnly names' :=
  fun hb => ⟨hb.1, fun name hname => hb.2 name fun hmem => hname (h name hmem)⟩

/-- Binding a name touches the current frame at that name. -/
theorem CallStack.get?_define_ne (stack : CallStack) {name other : String} (value : Value)
    (h : other ≠ name) : (stack.define name value).get? other = stack.get? other := by
  unfold CallStack.define CallStack.get?
  rw [Entries.get?_insert, if_neg fun heq => h heq.symm]

/-! ## 3. The discipline of frames -/

/-- A call gives the stack back, if its body leaves the callers alone. -/
theorem Interpreter.callFunction_sameStack {limit : Nat} {run : Stmt → Action Signal}
    {f : FunctionDef} (arguments : List Value) (hbody : (run f.body).Within Change.sameCallers) :
    (Interpreter.callFunction limit run f arguments).Within Change.sameStack := by
  intro st
  rcases Nat.lt_or_ge arguments.length f.parameters.length with hfew | henough
  · rw [callFunction_few hfew]
    rfl
  rcases Nat.lt_or_ge limit st.stack.depth with hdeep | hroom
  · rw [callFunction_deep henough hdeep]
    exact State.stack_noteExtra st f arguments
  have hentered := hbody ((st.noteExtra f arguments).enter f.name
    (parameterFrame f.parameters arguments))
  rw [callFunction_eq_restore henough hroom hentered]
  exact hentered.restore fun _ _ _ => rfl

/-- **Frames are kept** by every step of a run. -/
def Discipline.frames (limit : Nat) : Discipline limit where
  ofExpr := Change.sameStack
  ofStmt s := Change.bindsOnly s.assigned
  expr_le s := Change.sameStack_le_bindsOnly s.assigned
  part_le s t ht := Change.bindsOnly_mono fun _ hname => Stmt.assigned_of_mem_parts ht hname
  fail _ _ _ := rfl
  note _ _ _ := rfl
  console _ _ := rfl
  files _ _ := rfl
  bind s name hname st value := by
    refine ⟨rfl, fun other hother => st.stack.get?_define_ne value ?_⟩
    rintro rfl
    exact hother (Stmt.assigned_of_mem_binds hname)
  register _ _ := ⟨rfl, fun _ _ => rfl⟩
  call _ f arguments hbody := Interpreter.callFunction_sameStack arguments
    (hbody.mono (Change.bindsOnly_le_sameCallers f.body.assigned))

namespace Interpreter

theorem eval_stack (limit fuel : Nat) (e : Expr) :
    (eval limit fuel e).Within Change.sameStack := (Discipline.frames limit).eval_within fuel e

theorem call_stack (limit fuel : Nat) (name : String) (arguments : List Value) :
    (call limit fuel name arguments).Within Change.sameStack :=
  (Discipline.frames limit).call_within fuel name arguments

theorem exec_frames (limit fuel : Nat) (s : Stmt) :
    (exec limit fuel s).Within (Change.bindsOnly s.assigned) :=
  (Discipline.frames limit).exec_within fuel s

theorem exec_callers (limit fuel : Nat) (s : Stmt) (st : State) :
    (exec limit fuel s st).Leaves fun _ st' => st'.stack.callers = st.stack.callers :=
  (exec_frames limit fuel s st).mono fun _ _ h => h.1

/-! ## 4. Sessions -/

/-- A request leaves as many frames as it found. -/
theorem request_depth (limit fuel : Nat) (request : Request) (st : State) :
    (request.run limit fuel st).Leaves fun _ st' => st'.stack.depth = st.stack.depth := by
  have hframes : ∀ {α : Type} {x : Action α} {names : List String},
      x.Within (Change.bindsOnly names) →
      ((x >>= fun _ => pure ()) st).Leaves fun _ st' => st'.stack.depth = st.stack.depth := by
    intro α x names hx
    have hunit : (x >>= fun _ => (pure () : Action Unit)).Within (Change.bindsOnly names) :=
      hx.bind fun _ => Action.within_pure ()
    exact (hunit st).mono fun _ _ h => CallStack.depth_eq_of_callers h.1
  cases request with
  | execute p =>
    have hexec : (execute limit fuel p).Within
        (Change.bindsOnly (Stmt.assignedAll p.statements)) := by
      refine (Discipline.frames limit).execute_within fuel p fun s hs => ?_
      exact Change.bindsOnly_mono fun _ hname => Stmt.mem_assignedAll hname hs
    exact hframes hexec
  | exec s => exact hframes (exec_frames limit fuel s)
  | evaluate e =>
    exact hframes ((eval_stack limit fuel e).mono (Change.sameStack_le_bindsOnly []))
  | call name arguments =>
    exact hframes ((call_stack limit fuel name arguments).mono (Change.sameStack_le_bindsOnly []))
  | define f => rfl

/-- **The frame discipline of the interpreter.**  However it ends, evaluating an expression or
calling a function leaves the stack as it was; executing a statement leaves the depth and the
frames of all callers as they were, and the current frame outside the names that the statement
binds; and after any session on an interpreter that no call is active in, none is. -/
theorem frame_discipline (limit fuel : Nat) :
    (∀ (e : Expr) (st : State),
      (eval limit fuel e st).Leaves fun _ st' => st'.stack = st.stack) ∧
    (∀ (name : String) (arguments : List Value) (st : State),
      (call limit fuel name arguments st).Leaves fun _ st' => st'.stack = st.stack) ∧
    (∀ (s : Stmt) (st : State), (exec limit fuel s st).Leaves fun _ st' =>
      st'.stack.depth = st.stack.depth ∧ st'.stack.callers = st.stack.callers ∧
        ∀ name, name ∉ s.assigned → st'.stack.get? name = st.stack.get? name) ∧
    (∀ (requests : List Request) (st st' : State), st.stack.depth = 1 →
      Session limit st requests st' → st'.stack.depth = 1) := by
  refine ⟨fun e st => eval_stack limit fuel e st,
    fun name arguments st => call_stack limit fuel name arguments st, fun s st => ?_, ?_⟩
  · exact (exec_frames limit fuel s st).mono fun _ _ h =>
      ⟨CallStack.depth_eq_of_callers h.1, h.1, h.2⟩
  · intro requests st st' hst hsession
    refine hsession.keeps (P := fun st => st.stack.depth = 1) (fun request fuel st hst => ?_) hst
    exact (request_depth limit fuel request st).mono fun _ _ h => h.trans hst

/-- A program whose function reads a variable of its caller, and so fails inside a call. -/
def peeking : Program :=
  ⟨[.assign "secret" (.text "a"),
    .declare "peek" [⟨"p", none⟩]
      (.block [.assign "q" (.identifier "p"), .giveBack (some (.identifier "secret"))]),
    .evaluate (.call "peek" [.text "b"])]⟩

/-- The failed call leaves the one frame, with the program's own variable and nothing else. -/
theorem frame_discipline_peeking :
    ∃ st', Session 5 {} [.execute peeking, .evaluate (.identifier "secret")] st' ∧
      st'.stack.depth = 1 ∧ st'.stack.get? "q" = none ∧
      st'.stack.get? "secret" = some (.text "a") := by
  have hsession : Session 5 {} [.execute peeking, .evaluate (.identifier "secret")] _ :=
    .cons 9 rfl (.cons 9 rfl (.nil _))
  exact ⟨_, hsession, (frame_discipline 5 9).2.2.2 _ _ _ rfl hsession, rfl, rfl⟩

end Interpreter

end TreeScript
