import Mathlib.Data.List.Chain
import TreeScript.Proofs.Run.Frames
import TreeScript.Proofs.Run.Reach

/-!
# The depth of calls

At most `limit` calls are active at the same time, so that at most `limit + 1` frames are live, and
the log tells how deep the calls went: each call writes its depth, one more than that of its
caller.

The invariant is on the depths alone.  `CallDepths limit start ds` says what the calls made from
`start` live frames write: the first of them is at `start + 1`, none is shallower, none is deeper
than the limit allows, and from one to the next the depth rises by one at most.  Such lists can be
put one after the other (`CallDepths.append`), because each of them starts as low as it gets; and a
call puts its own depth before those of its body (`CallDepths.call`).
-/

namespace TreeScript

/-! ## 1. Depths in the log -/

/-- The depth that a record of a call tells. -/
def Record.callDepth? : Record → Option Nat
  | .called _ depth => some depth
  | _ => none

/-- The depths of the calls so far, in their order. -/
def State.callDepths (st : State) : List Nat := st.records.filterMap Record.callDepth?

/-- What calls that are made from `start` live frames write, one after the other. -/
structure CallDepths (limit start : Nat) (depths : List Nat) : Prop where
  first : ∀ d ∈ depths.head?, d = start + 1
  above : ∀ d ∈ depths, start + 1 ≤ d
  below : ∀ d ∈ depths, d ≤ limit + 1
  step : depths.IsChain fun d d' => d' ≤ d + 1

theorem State.callDepths_note (st : State) (record : Record) :
    (st.note record).callDepths = st.callDepths ++ record.callDepth?.toList := by
  unfold State.callDepths State.records
  rw [State.log_note, List.reverse_cons, List.filterMap_append]
  cases record <;> rfl

theorem State.callDepths_congr {st st' : State} (h : st'.log = st.log) :
    st'.callDepths = st.callDepths := by
  unfold State.callDepths State.records
  rw [h]

/-- A mishap is no call. -/
theorem State.callDepths_mishap (st : State) {record : Record} (h : record.IsMishap) :
    (st.note record).callDepths = st.callDepths := by
  rw [State.callDepths_note]
  cases record with
  | called function depth =>
    rcases h with h | h
    · cases h
    · cases h
  | _ => exact List.append_nil _

theorem State.callDepths_enter (st : State) (function : String) (frame : Frame) :
    (st.enter function frame).callDepths = st.callDepths ++ [st.stack.depth + 1] := by
  have h := State.callDepths_note { st with stack := st.stack.push frame }
    (.called function (st.stack.depth + 1))
  exact h

theorem State.callDepths_noteExtra (st : State) (f : FunctionDef) (arguments : List Value) :
    (st.noteExtra f arguments).callDepths = st.callDepths := by
  unfold State.noteExtra
  split
  · exact State.callDepths_mishap st (Or.inl rfl)
  · rfl

/-! ## 2. Lists of depths -/

namespace CallDepths

variable {limit start : Nat} {ds ds' : List Nat}

theorem nil (limit start : Nat) : CallDepths limit start [] where
  first := by simp
  above := by simp
  below := by simp
  step := .nil

/-- Calls from the same frames, one run after the other. -/
theorem append (h : CallDepths limit start ds) (h' : CallDepths limit start ds') :
    CallDepths limit start (ds ++ ds') where
  first := by
    intro d hd
    cases ds with
    | nil => exact h'.first d hd
    | cons a rest => exact h.first d hd
  above := by
    intro d hd
    rcases List.mem_append.mp hd with hd | hd
    · exact h.above d hd
    · exact h'.above d hd
  below := by
    intro d hd
    rcases List.mem_append.mp hd with hd | hd
    · exact h.below d hd
    · exact h'.below d hd
  step := by
    refine List.isChain_append.mpr ⟨h.step, h'.step, fun d hd d' hd' => ?_⟩
    have hlast : start + 1 ≤ d := h.above d (List.mem_of_getLast? hd)
    have hfirst : d' = start + 1 := h'.first d' hd'
    omega

/-- A call, and the calls of its body. -/
theorem call (hroom : start ≤ limit) (h : CallDepths limit (start + 1) ds) :
    CallDepths limit start ((start + 1) :: ds) where
  first := by simp
  above := by
    intro d hd
    rcases List.mem_cons.mp hd with rfl | hd
    · exact Nat.le_refl _
    · exact Nat.le_of_succ_le (h.above d hd)
  below := by
    intro d hd
    rcases List.mem_cons.mp hd with rfl | hd
    · exact Nat.succ_le_succ hroom
    · exact h.below d hd
  step := by
    refine List.isChain_cons.mpr ⟨fun d hd => ?_, h.step⟩
    rw [h.first d hd]

/-- Calls made from deeper frames, after calls that went as deep as these frames. -/
theorem append_deeper {depth : Nat} (h : CallDepths limit start ds) (hstart : start ≤ depth)
    (hlast : depth ≤ ds.getLastD start) (h' : CallDepths limit depth ds') :
    CallDepths limit start (ds ++ ds') ∧ depth ≤ (ds ++ ds').getLastD start := by
  -- with no calls before, the depth is that of the start
  rcases List.eq_nil_or_concat ds with rfl | ⟨front, last, rfl⟩
  · obtain rfl : depth = start := Nat.le_antisymm hlast hstart
    refine ⟨h', ?_⟩
    rcases List.eq_nil_or_concat ds' with rfl | ⟨front', last', rfl⟩
    · exact Nat.le_refl _
    · have hmem := h'.above last' (by simp)
      simp only [List.nil_append, List.concat_eq_append, List.getLastD_concat]
      omega
  rw [List.concat_eq_append, List.getLastD_concat] at hlast
  refine ⟨⟨?_, ?_, ?_, ?_⟩, ?_⟩
  · intro d hd
    refine h.first d ?_
    cases front with
    | nil => exact hd
    | cons a rest => exact hd
  · intro d hd
    rcases List.mem_append.mp hd with hd | hd
    · exact h.above d hd
    · have := h'.above d hd
      omega
  · intro d hd
    rcases List.mem_append.mp hd with hd | hd
    · exact h.below d hd
    · exact h'.below d hd
  · refine List.isChain_append.mpr ⟨h.step, h'.step, fun d hd d' hd' => ?_⟩
    have hd : d = last := by simpa using hd.symm
    have hfirst : d' = depth + 1 := h'.first d' hd'
    omega
  · rcases List.eq_nil_or_concat ds' with rfl | ⟨front', last', rfl⟩
    · rw [List.append_nil, List.concat_eq_append, List.getLastD_concat]
      exact hlast
    · have hmem := h'.above last' (by simp)
      rw [List.concat_eq_append, List.concat_eq_append, ← List.append_assoc, List.getLastD_concat]
      omega

/-- No call is let in where none may be active. -/
theorem eq_nil_of_limit (h : CallDepths 0 1 ds) : ds = [] := by
  cases ds with
  | nil => rfl
  | cons d rest =>
    have habove := h.above d (by simp)
    have hbelow := h.below d (by simp)
    omega

end CallDepths

/-! ## 3. The discipline of depths -/

/-- The callers stay, what is written in between are the depths of calls, and an overflow comes from
frames that are already too many, or from a call at the limit. -/
def Change.calling (limit : Nat) : Change where
  holds st how st' :=
    st'.stack.callers = st.stack.callers ∧
      ∃ ds, st'.callDepths = st.callDepths ++ ds ∧ CallDepths limit st.stack.depth ds ∧
        ∀ l, how = some (.stackOverflow l) → limit < st.stack.depth ∨ limit + 1 ∈ ds
  refl st := ⟨rfl, [], (List.append_nil _).symm, .nil _ _, fun _ h => by cases h⟩
  trans := by
    rintro st st₁ st₂ how ⟨hc, ds, hds, hcalls, -⟩ ⟨hc₁, ds₁, hds₁, hcalls₁, hover₁⟩
    have hdepth : st₁.stack.depth = st.stack.depth := CallStack.depth_eq_of_callers hc
    rw [hdepth] at hcalls₁ hover₁
    refine ⟨hc₁.trans hc, ds ++ ds₁, ?_, hcalls.append hcalls₁, fun l hl => ?_⟩
    · rw [hds₁, hds, List.append_assoc]
    · rcases hover₁ l hl with h | h
      · exact Or.inl h
      · exact Or.inr (List.mem_append_right ds h)

/-- A step that writes no depth and raises no overflow. -/
theorem Change.calling_of_quiet {limit : Nat} {st st' : State} {how : Option RunError}
    (hcallers : st'.stack.callers = st.stack.callers) (hdepths : st'.callDepths = st.callDepths)
    (hhow : ∀ l, how ≠ some (.stackOverflow l)) : (Change.calling limit).holds st how st' :=
  ⟨hcallers, [], by rw [hdepths, List.append_nil], .nil _ _, fun l h => absurd h (hhow l)⟩

/-- What a body does on a frame of its own, a call that is let in does on the frames before it: it
writes its own depth first, and an overflow is at the limit then. -/
theorem Change.calling_of_entered {limit : Nat} {st st' : State} {f : FunctionDef}
    {arguments : List Value} {frame : Frame} {how : Option RunError}
    (hroom : st.stack.depth ≤ limit)
    (h : (Change.calling limit).holds ((st.noteExtra f arguments).enter f.name frame) how st') :
    (Change.calling limit).holds st how { st' with stack := st.stack } := by
  obtain ⟨-, ds, hds, hcalls, hover⟩ := h
  rw [State.callDepths_enter, st.callDepths_noteExtra, st.stack_noteExtra] at hds
  rw [State.stack_enter, st.stack_noteExtra, CallStack.depth_push] at hcalls hover
  refine ⟨rfl, (st.stack.depth + 1) :: ds, ?_, hcalls.call hroom, fun l hl => Or.inr ?_⟩
  · have heq : ({ st' with stack := st.stack } : State).callDepths = st'.callDepths :=
      State.callDepths_congr rfl
    rw [heq, hds, List.append_assoc, List.singleton_append]
  · rcases hover l hl with h | h
    · -- no frame beyond the new one fits, so the new one is the last
      have hlast : limit + 1 = st.stack.depth + 1 := by omega
      rw [hlast]
      exact List.mem_cons_self
    · exact List.mem_cons_of_mem _ h

theorem Interpreter.callFunction_calling {limit : Nat} {run : Stmt → Action Signal}
    {f : FunctionDef} (arguments : List Value)
    (hbody : (run f.body).Within (Change.calling limit)) :
    (Interpreter.callFunction limit run f arguments).Within (Change.calling limit) := by
  intro st
  rcases Nat.lt_or_ge arguments.length f.parameters.length with hfew | henough
  · rw [callFunction_few hfew]
    exact Change.calling_of_quiet rfl rfl fun _ h => by cases h
  rcases Nat.lt_or_ge limit st.stack.depth with hdeep | hroom
  · rw [callFunction_deep henough hdeep]
    exact ⟨by rw [st.stack_noteExtra], [], by rw [st.callDepths_noteExtra, List.append_nil], .nil _ _,
      fun _ _ => Or.inl hdeep⟩
  have hentered := hbody ((st.noteExtra f arguments).enter f.name
    (parameterFrame f.parameters arguments))
  rw [callFunction_eq_restore henough hroom (hentered.mono fun _ _ h => h.1)]
  exact hentered.restore fun _ _ h => Change.calling_of_entered hroom h

/-- **Calls go no deeper than the limit**, at every step of a run. -/
def Discipline.calling (limit : Nat) : Discipline limit where
  ofExpr := Change.calling limit
  ofStmt _ := Change.calling limit
  expr_le _ := Change.le_refl _
  part_le _ _ _ := Change.le_refl _
  fail error h _ := Change.calling_of_quiet rfl rfl fun l he => by
    cases he
    exact h.1 rfl
  note record h st :=
    Change.calling_of_quiet rfl (st.callDepths_mishap h) fun _ he => by cases he
  console _ _ := Change.calling_of_quiet rfl rfl fun _ he => by cases he
  files _ _ := Change.calling_of_quiet rfl rfl fun _ he => by cases he
  bind _ _ _ _ _ := Change.calling_of_quiet rfl rfl fun _ he => by cases he
  register f st := by
    have hdepths : (st.register f).callDepths = st.callDepths := by
      unfold State.register
      rw [State.callDepths_note]
      exact List.append_nil _
    exact Change.calling_of_quiet rfl hdepths fun _ he => by cases he
  call _ _ arguments hbody := Interpreter.callFunction_calling arguments hbody

namespace Interpreter

variable {limit fuel : Nat}

theorem eval_calling (e : Expr) : (eval limit fuel e).Within (Change.calling limit) :=
  (Discipline.calling limit).eval_within fuel e

theorem exec_calling (s : Stmt) : (exec limit fuel s).Within (Change.calling limit) :=
  (Discipline.calling limit).exec_within fuel s

theorem execute_calling (p : Program) : (execute limit fuel p).Within (Change.calling limit) :=
  (Discipline.calling limit).execute_within fuel p fun _ _ => Change.le_refl _

/-! ## 4. Every state that is reached -/

/-- What holds of every state that is reached from one with these depths in its log: the frames are
no more than the limit allows, and the last call went at least as deep as the current frame. -/
def DeepEnough (limit : Nat) (before : List Nat) (st : State) : Prop :=
  st.stack.depth ≤ limit + 1 ∧
    ∃ ds, st.callDepths = before ++ ds ∧ CallDepths limit 1 ds ∧ st.stack.depth ≤ ds.getLastD 1

theorem DeepEnough.of_change {before : List Nat} {st st' : State} {how : Option RunError}
    (h : DeepEnough limit before st) (hchange : (Change.calling limit).holds st how st') :
    DeepEnough limit before st' := by
  obtain ⟨hle, ds, hds, hcalls, hlast⟩ := h
  obtain ⟨hcallers, ds', hds', hcalls', -⟩ := hchange
  have hdepth : st'.stack.depth = st.stack.depth := CallStack.depth_eq_of_callers hcallers
  obtain ⟨hall, hlast'⟩ := hcalls.append_deeper st.stack.depth_pos hlast hcalls'
  refine ⟨hdepth ▸ hle, ds ++ ds', ?_, hall, hdepth ▸ hlast'⟩
  rw [hds', hds, List.append_assoc]

/-- A call that is let in keeps it. -/
theorem DeepEnough.enter {before : List Nat} {st : State} (h : DeepEnough limit before st)
    (hroom : st.stack.depth ≤ limit) (f : FunctionDef) (arguments : List Value) (frame : Frame) :
    DeepEnough limit before ((st.noteExtra f arguments).enter f.name frame) := by
  obtain ⟨-, ds, hds, hcalls, hlast⟩ := h
  have hstack : (st.noteExtra f arguments).stack = st.stack := st.stack_noteExtra f arguments
  obtain ⟨hall, -⟩ :=
    hcalls.append_deeper st.stack.depth_pos hlast (CallDepths.call hroom (.nil _ _))
  refine ⟨?_, ds ++ [st.stack.depth + 1], ?_, hall, ?_⟩
  · rw [State.stack_enter, hstack, CallStack.depth_push]
    omega
  · rw [State.callDepths_enter, State.callDepths_noteExtra, hstack, hds, List.append_assoc]
  · rw [State.stack_enter, hstack, CallStack.depth_push, List.getLastD_concat]

/-- Every state that a program reaches is no deeper than the limit allows. -/
theorem Reached.deepEnough {p : Program} {st st' : State} (hdepth : st.stack.depth = 1)
    (h : Reached limit fuel p st st') : DeepEnough limit st.callDepths st' := by
  have hassign : ∀ item v, (assign item v).Within (Change.calling limit) := fun item v =>
    Action.within_update fun _ => Change.calling_of_quiet rfl rfl fun _ he => by cases he
  have hstart : DeepEnough limit st.callDepths st :=
    ⟨by omega, [], (List.append_nil _).symm, .nil _ _, by simp [hdepth]⟩
  exact h.keeps (fun _ e => eval_calling e) (fun _ s => exec_calling s) hassign
    (fun hchange hst => hst.of_change hchange)
    (fun _ f arguments frame hroom hst => hst.enter hroom f arguments frame) hstart

/-- **The bound on the depth of calls.**  In every state that a run from the program's own frame
reaches there are at most `limit + 1` frames, and the depths of the calls made until then begin at
two, stay between two and `limit + 1`, and rise by one at most from call to call.  A run that
overflows has made a call at the depth `limit + 1`, unless no call is allowed at all.  A call of a
function of the program with enough arguments is let in exactly when at most `limit` frames are
live: so with the limit zero it always overflows, and no call is written down. -/
theorem call_depth_bound (limit fuel : Nat) (p : Program) (st : State)
    (hdepth : st.stack.depth = 1) :
    (∀ st', Reached limit fuel p st st' →
      st'.stack.depth ≤ limit + 1 ∧
        ∃ ds, st'.callDepths = st.callDepths ++ ds ∧ CallDepths limit 1 ds) ∧
    (∀ l st', execute limit fuel p st = .failed (.stackOverflow l) st' → 1 ≤ limit →
      ∃ ds, st'.callDepths = st.callDepths ++ ds ∧ limit + 1 ∈ ds) ∧
    (∀ name f arguments st₁, Builtin.ofName? name = none →
      Entries.get? st₁.functions name = some f → f.parameters.length ≤ arguments.length →
      (limit < st₁.stack.depth → call limit fuel name arguments st₁ =
        .failed (.stackOverflow limit) (st₁.noteExtra f arguments)) ∧
      (st₁.stack.depth ≤ limit → call limit fuel name arguments st₁ =
        (exec limit fuel f.body ((st₁.noteExtra f arguments).enter f.name
          (parameterFrame f.parameters arguments))).restore Signal.value st₁.stack)) ∧
    (limit = 0 →
      (∀ name f arguments st₁, Builtin.ofName? name = none →
        Entries.get? st₁.functions name = some f → f.parameters.length ≤ arguments.length →
        call limit fuel name arguments st₁ =
          .failed (.stackOverflow 0) (st₁.noteExtra f arguments)) ∧
      ∀ st', Reached limit fuel p st st' → st'.callDepths = st.callDepths) := by
  have hreached : ∀ st', Reached limit fuel p st st' → st'.stack.depth ≤ limit + 1 ∧
      ∃ ds, st'.callDepths = st.callDepths ++ ds ∧ CallDepths limit 1 ds := by
    intro st' h
    obtain ⟨hle, ds, hds, hcalls, -⟩ := Reached.deepEnough hdepth h
    exact ⟨hle, ds, hds, hcalls⟩
  have hcall : ∀ name f arguments st₁, Builtin.ofName? name = none →
      Entries.get? st₁.functions name = some f →
      call limit fuel name arguments st₁ =
        callFunction limit (exec limit fuel) f arguments st₁ :=
    fun _ _ _ _ huser hf => callWith_user huser hf
  refine ⟨hreached, ?_, ?_, ?_⟩
  · intro l st' hrun hlimit
    have hchange := (execute_calling p : (execute limit fuel p).Within _) st
    rw [hrun] at hchange
    obtain ⟨-, ds, hds, -, hover⟩ := hchange
    rcases hover l rfl with h | h
    · omega
    · exact ⟨ds, hds, h⟩
  · intro name f arguments st₁ huser hf henough
    rw [hcall name f arguments st₁ huser hf]
    exact ⟨callFunction_deep henough, fun hroom =>
      callFunction_eq_restore henough hroom (exec_callers limit fuel f.body _)⟩
  · rintro rfl
    refine ⟨?_, ?_⟩
    · intro name f arguments st₁ huser hf henough
      rw [hcall name f arguments st₁ huser hf]
      exact callFunction_deep henough st₁.stack.depth_pos
    · intro st' h
      obtain ⟨-, ds, hds, hcalls⟩ := hreached st' h
      rw [hds, hcalls.eq_nil_of_limit, List.append_nil]

/-- A program whose function calls itself for ever. -/
def descending : Program :=
  ⟨[.declare "f" [] (.evaluate (.call "f" [])), .evaluate (.call "f" [])]⟩

/-- With one call allowed the program reaches a state of two frames and overflows there; with none
it overflows at once. -/
theorem call_depth_bound_descending :
    (∃ st', Reached 1 9 descending {} st' ∧ st'.stack.depth = 2 ∧
      ∃ ds, st'.callDepths = State.callDepths {} ++ ds ∧ CallDepths 1 1 ds) ∧
    (∃ st' ds, execute 1 9 descending {} = .failed (.stackOverflow 1) st' ∧
      st'.callDepths = State.callDepths {} ++ ds ∧ 2 ∈ ds) ∧
    (∃ st₁ : State, call 0 9 "f" [.absence] st₁ =
      .failed (.stackOverflow 0) (st₁.note (.extraArguments "f" 0 1))) := by
  have hone := call_depth_bound 1 9 descending {} rfl
  have hnone := call_depth_bound 0 9 descending {} rfl
  refine ⟨?_, ?_, ?_⟩
  · have hdeclared : executeAll 1 9 .absence [.declare "f" [] (.evaluate (.call "f" []))] {} =
        .done .absence _ := rfl
    have hreached : Reached 1 9 descending {} _ :=
      .inside hdeclared
        (.inside .evaluated (.inside (.callee rfl rfl rfl (by decide) (by decide)) .begins))
    exact ⟨_, hreached, rfl, (hone.1 _ hreached).2⟩
  · obtain ⟨ds, hds, hmem⟩ := hone.2.1 1 _ rfl (by decide)
    exact ⟨_, ds, rfl, hds, hmem⟩
  · refine ⟨State.register {} ⟨"f", [], .evaluate (.call "f" [])⟩, ?_⟩
    exact (hnone.2.2.2 rfl).1 "f" ⟨"f", [], .evaluate (.call "f" [])⟩ [.absence] _ rfl rfl
      (by decide)

end Interpreter

end TreeScript
