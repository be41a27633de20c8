import TreeScript.Proofs.Run.Limits

/-!
# Programs without conditional loops end

Without loops on a condition a run can go on only by calling functions, and the limit bounds how
many calls are active.  Fuel is spent on nesting and not on length, so a whole call nests no deeper
than the body of its function, and the run no deeper than `limit + 1` such bodies:
`(limit + 1) * p.height` is enough for every initial state (`execute_terminates`).

The bodies come from a table that the program changes as it runs.  What is carried along is that
every body in the table has no conditional loop and is no higher than the program (`Ready`).
`x.Halts P` says that `x` ends, and keeps `P`.
-/

namespace TreeScript

/-! ## 1. Conditional loops and height -/

mutual

/-- Whether a loop on a condition occurs in a statement, in the body of a declared function or
elsewhere. -/
def Stmt.hasConditionalLoop : Stmt → Bool
  | .loop _ _ => true
  | .loopFor _ _ _ _ => true
  | .branch _ thenBlock elseBlock =>
    thenBlock.hasConditionalLoop || Stmt.hasConditionalLoopElse elseBlock
  | .loopEach _ _ body => body.hasConditionalLoop
  | .declare _ _ body => body.hasConditionalLoop
  | .block statements => Stmt.hasConditionalLoopAny statements
  | .assign _ _ => false
  | .giveBack _ => false
  | .evaluate _ => false

/-- Whether a loop on a condition occurs in the else part of a branch. -/
def Stmt.hasConditionalLoopElse : Option Stmt → Bool
  | none => false
  | some s => s.hasConditionalLoop

/-- Whether a loop on a condition occurs in one of these statements. -/
def Stmt.hasConditionalLoopAny : List Stmt → Bool
  | [] => false
  | s :: rest => s.hasConditionalLoop || Stmt.hasConditionalLoopAny rest

end

/-- Whether a loop on a condition occurs anywhere in a program. -/
def Program.hasConditionalLoop (p : Program) : Bool := Stmt.hasConditionalLoopAny p.statements

mutual

/-- How deep an expression nests. -/
def Expr.height : Expr → Nat
  | .literal _ _ => 1
  | .identifier _ => 1
  | .binary _ left right => max left.height right.height + 1
  | .unary _ operand => operand.height + 1
  | .call _ arguments => Expr.heightAll arguments + 1
  | .index base position => max base.height position.height + 1
  | .sequence elements => Expr.heightAll elements + 1
  | .mapping entries => Expr.heightEntries entries + 1

/-- The height of the highest of these expressions. -/
def Expr.heightAll : List Expr → Nat
  | [] => 0
  | e :: rest => max e.height (Expr.heightAll rest)

/-- The height of the highest expression in the entries of a mapping. -/
def Expr.heightEntries : List (String × Expr) → Nat
  | [] => 0
  | (_, e) :: rest => max e.height (Expr.heightEntries rest)

end

mutual

/-- How deep a statement nests, the bodies of the functions that it declares included. -/
def Stmt.height : Stmt → Nat
  | .assign _ value => value.height + 1
  | .branch condition thenBlock elseBlock =>
    max condition.height (max thenBlock.height (Stmt.heightElse elseBlock)) + 1
  | .loop condition body => max condition.height body.height + 1
  | .loopFor init condition increment body =>
    max (max init.height condition.height) (max increment.height body.height) + 1
  | .loopEach _ collection body => max collection.height body.height + 1
  | .declare _ _ body => body.height + 1
  | .giveBack none => 1
  | .giveBack (some e) => e.height + 1
  | .evaluate e => e.height + 1
  | .block statements => Stmt.heightAll statements + 1

/-- The height of the else part of a branch. -/
def Stmt.heightElse : Option Stmt → Nat
  | none => 0
  | some s => s.height

/-- The height of the highest of these statements. -/
def Stmt.heightAll : List Stmt → Nat
  | [] => 0
  | s :: rest => max s.height (Stmt.heightAll rest)

end

/-- How deep a program nests. -/
def Program.height (p : Program) : Nat := Stmt.heightAll p.statements

theorem Expr.height_pos (e : Expr) : 1 ≤ e.height := by
  cases e <;> simp only [Expr.height] <;> omega

theorem Expr.height_le_all {e : Expr} : ∀ {es : List Expr}, e ∈ es → e.height ≤ Expr.heightAll es
  | first :: rest, h => by
    rw [Expr.heightAll]
    rcases List.mem_cons.mp h with rfl | h
    · exact Nat.le_max_left _ _
    · exact Nat.le_trans (Expr.height_le_all h) (Nat.le_max_right _ _)

theorem Expr.height_le_entries {entry : String × Expr} :
    ∀ {entries : List (String × Expr)}, entry ∈ entries →
      entry.2.height ≤ Expr.heightEntries entries
  | (key, e) :: rest, h => by
    rw [Expr.heightEntries]
    rcases List.mem_cons.mp h with rfl | h
    · exact Nat.le_max_left _ _
    · exact Nat.le_trans (Expr.height_le_entries h) (Nat.le_max_right _ _)

theorem Stmt.height_pos (s : Stmt) : 1 ≤ s.height := by
  cases s with
  | giveBack value => cases value <;> simp only [Stmt.height] <;> omega
  | _ => simp only [Stmt.height]; omega

theorem Stmt.height_le_all {s : Stmt} : ∀ {ss : List Stmt}, s ∈ ss → s.height ≤ Stmt.heightAll ss
  | first :: rest, h => by
    rw [Stmt.heightAll]
    rcases List.mem_cons.mp h with rfl | h
    · exact Nat.le_max_left _ _
    · exact Nat.le_trans (Stmt.height_le_all h) (Nat.le_max_right _ _)

theorem Stmt.hasConditionalLoop_of_mem {s : Stmt} :
    ∀ {ss : List Stmt}, s ∈ ss → Stmt.hasConditionalLoopAny ss = false →
      s.hasConditionalLoop = false
  | first :: rest, h, hss => by
    rw [Stmt.hasConditionalLoopAny, Bool.or_eq_false_iff] at hss
    rcases List.mem_cons.mp h with rfl | h
    · exact hss.1
    · exact Stmt.hasConditionalLoop_of_mem h hss.2

/-- A part of a statement is lower. -/
theorem Stmt.height_lt_of_mem_parts {s t : Stmt} (h : t ∈ s.parts) : t.height < s.height := by
  cases Stmt.isPart_of_mem_parts h with
  | inBlock h =>
    rw [Stmt.height]
    exact Nat.lt_succ_of_le (Stmt.height_le_all h)
  | _ =>
    simp only [Stmt.height, Stmt.heightElse]
    omega

/-- A part of a statement without conditional loops has none. -/
theorem Stmt.hasConditionalLoop_of_mem_parts {s t : Stmt} (h : t ∈ s.parts)
    (hs : s.hasConditionalLoop = false) : t.hasConditionalLoop = false := by
  cases Stmt.isPart_of_mem_parts h with
  | thenBlock => exact (Bool.or_eq_false_iff.mp hs).1
  | elseBlock => exact (Bool.or_eq_false_iff.mp hs).2
  | eachBody => exact hs
  | inBlock h => exact Stmt.hasConditionalLoop_of_mem h hs
  | _ => cases hs

/-- What may be run: a statement without conditional loops and of bounded height. -/
structure Stmt.Fits (bound : Nat) (s : Stmt) : Prop where
  unconditional : s.hasConditionalLoop = false
  height_le : s.height ≤ bound

theorem Stmt.Fits.part {bound : Nat} {s t : Stmt} (hs : s.Fits bound) (h : t ∈ s.parts) :
    t.Fits bound where
  unconditional := Stmt.hasConditionalLoop_of_mem_parts h hs.unconditional
  height_le := Nat.le_trans (Nat.le_of_lt (Stmt.height_lt_of_mem_parts h)) hs.height_le

theorem Stmt.Fits.body {bound : Nat} {name : String} {parameters : List Parameter} {body : Stmt}
    (h : (Stmt.declare name parameters body).Fits bound) : body.Fits bound where
  unconditional := h.unconditional
  height_le := Nat.le_trans (Nat.le_succ _) h.height_le

/-! ## 2. Actions that end -/

/-- An outcome is an end, in success or in failure, and its state has a property. -/
def Outcome.Ends {α : Type} (outcome : Outcome α) (P : State → Prop) : Prop :=
  match outcome with
  | .done _ st => P st
  | .failed _ st => P st
  | .exhausted => False

theorem Outcome.Ends.restore {α β : Type} {outcome : Outcome α} {value : α → β}
    {stack : CallStack} {P Q : State → Prop} (h : outcome.Ends P)
    (hPQ : ∀ st, P st → Q { st with stack := stack }) : (outcome.restore value stack).Ends Q := by
  cases outcome with
  | done a st => exact hPQ st h
  | failed error st => exact hPQ st h
  | exhausted => exact h

theorem Outcome.Ends.ne_exhausted {α : Type} {outcome : Outcome α} {P : State → Prop}
    (h : outcome.Ends P) : outcome ≠ .exhausted := by
  rintro rfl
  exact h

namespace Action

variable {α β : Type} {P : State → Prop}

/-- **An action ends and keeps a property**, from every state that has it. -/
def Halts (x : Action α) (P : State → Prop) : Prop := ∀ st, P st → (x st).Ends P

theorem halts_pure (value : α) : (pure value : Action α).Halts P := fun _ hst => hst

theorem Halts.bind {x : Action α} {f : α → Action β} (hx : x.Halts P)
    (hf : ∀ value, (f value).Halts P) : (x >>= f).Halts P := by
  intro st hst
  have h := hx st hst
  rw [bind_apply]
  cases hr : x st with
  | done value st₁ =>
    rw [hr] at h
    exact hf value st₁ h
  | failed error st₁ =>
    rw [hr] at h
    exact h
  | exhausted =>
    rw [hr] at h
    exact h

theorem halts_fail (error : RunError) : (fail error : Action α).Halts P := fun _ hst => hst

theorem halts_state : state.Halts P := fun _ hst => hst

theorem halts_update {f : State → State} (h : ∀ st, P st → P (f st)) : (update f).Halts P := h

theorem halts_ofResult (result : Except RunError α) : (ofResult result).Halts P := by
  intro st hst
  cases result with
  | ok value => exact hst
  | error error => exact hst

theorem halts_collect {f : α → Action β} :
    ∀ (items : List α), (∀ a ∈ items, (f a).Halts P) → (collect f items).Halts P
  | [], _ => halts_pure _
  | a :: rest, h => by
    have hrest : (collect f rest).Halts P := halts_collect rest fun b hb => h b (by simp [hb])
    exact (h a (by simp)).bind fun _ => hrest.bind fun _ => halts_pure _

theorem halts_runAll {run : α → Action Signal} :
    ∀ (items : List α) (last : Value), (∀ a ∈ items, (run a).Halts P) →
      (runAll run last items).Halts P
  | [], _, _ => halts_pure _
  | a :: rest, _, h => by
    refine (h a (by simp)).bind fun signal => ?_
    cases signal with
    | normal value => exact halts_runAll rest value fun b hb => h b (by simp [hb])
    | returned value => exact halts_pure _

/-- However long the list is, and whatever the body does to the variable that the list came
from. -/
theorem halts_runEach {body : α → Action Signal} (h : ∀ a, (body a).Halts P) :
    ∀ items : List α, (runEach body items).Halts P
  | [] => halts_pure _
  | a :: rest => by
    refine (h a).bind fun signal => ?_
    cases signal with
    | normal value => exact halts_runEach h rest
    | returned value => exact halts_pure _

end Action

/-! ## 3. Built-in functions -/

namespace Builtin

section Halts

variable {P : State → Prop}
  (hP : ∀ st st' : State, st'.stack = st.stack → st'.functions = st.functions → P st → P st')

include hP

theorem checkArity_halts (b : Builtin) (found : Nat) : (b.checkArity found).Halts P := by
  unfold Builtin.checkArity
  split
  · exact Action.halts_fail _
  · split
    · exact Action.halts_pure ()
    · split
      · exact Action.halts_update fun st hst => hP st _ rfl rfl hst
      · exact Action.halts_pure ()

theorem printLine_halts (line : String) : (printLine line).Halts P := by
  intro st hst
  unfold printLine
  rcases st.console.print line with ⟨_ | reason, console⟩
  · exact hP st _ rfl rfl hst
  · exact hP st _ rfl rfl hst

theorem readRows_halts (path : String) : (readRows path).Halts P := by
  intro st hst
  unfold readRows
  cases st.files.read path with
  | ok text => exact hst
  | error failure => exact hP st _ rfl rfl hst

theorem writeRows_halts (path : String) (fields : List String)
    (rows : List (List (String × Value))) : (writeRows path fields rows).Halts P := by
  intro st hst
  unfold writeRows
  -- what is noted beforehand, and then the write from that state
  have hwarn : P (if 0 < Table.countUnfaithful rows then
      st.note (.unfaithfulCells path (Table.countUnfaithful rows)) else st) := by
    split
    · exact hP st _ rfl rfl hst
    · exact hst
  dsimp only
  generalize (if 0 < Table.countUnfaithful rows then
    st.note (.unfaithfulCells path (Table.countUnfaithful rows)) else st) = st₁ at hwarn ⊢
  cases st₁.files.write path (Table.render fields rows) with
  | ok files => exact hP st₁ _ rfl rfl hwarn
  | error failure => exact hP st₁ _ rfl rfl hwarn

/-- **A built-in function ends**, and keeps what depends on the frames and the functions alone. -/
theorem call_halts (b : Builtin) (arguments : List Value) : (b.call arguments).Halts P := by
  refine (checkArity_halts hP b arguments.length).bind fun _ => ?_
  have hargument : ∀ n, (Action.ofResult (argument arguments n)).Halts P := fun _ =>
    Action.halts_ofResult _
  cases b with
  | print => exact printLine_halts hP _
  | len => exact (hargument 0).bind fun _ => Action.halts_pure _
  | sum =>
    exact (hargument 0).bind fun _ => (Action.halts_ofResult _).bind fun _ => Action.halts_pure _
  | max =>
    exact (hargument 0).bind fun _ => (Action.halts_ofResult _).bind fun _ => Action.halts_pure _
  | min =>
    exact (hargument 0).bind fun _ => (Action.halts_ofResult _).bind fun _ => Action.halts_pure _
  | readTable =>
    refine (hargument 0).bind fun _ => (Action.halts_ofResult _).bind fun _ => ?_
    exact readRows_halts hP _
  | writeTable =>
    refine (hargument 0).bind fun _ => (Action.halts_ofResult _).bind fun _ => ?_
    refine (hargument 1).bind fun _ => (Action.halts_ofResult _).bind fun _ => ?_
    exact (Action.halts_ofResult _).bind fun _ => writeRows_halts hP _ _ _

end Halts

end Builtin

/-! ## 4. Calls -/

namespace Interpreter

/-- So many frames are live, and every function in the table may be run. -/
structure Ready (bound depth : Nat) (st : State) : Prop where
  depth_eq : st.stack.depth = depth
  fits : ∀ name f, Entries.get? st.functions name = some f → f.body.Fits bound

variable {limit bound depth fuel : Nat} {st st' : State}

theorem Ready.congr (h : Ready bound depth st) (hdepth : st'.stack.depth = st.stack.depth)
    (hfunctions : st'.functions = st.functions) : Ready bound depth st' :=
  ⟨hdepth.trans h.depth_eq, hfunctions ▸ h.fits⟩

theorem Ready.register (h : Ready bound depth st) {f : FunctionDef} (hf : f.body.Fits bound) :
    Ready bound depth (st.register f) :=
  ⟨h.depth_eq, State.EachFunction.register (P := fun f => f.body.Fits bound) h.fits hf⟩

theorem Ready.noteExtra (h : Ready bound depth st) (f : FunctionDef) (arguments : List Value) :
    Ready bound depth (st.noteExtra f arguments) := by
  unfold State.noteExtra
  split
  · exact h.congr rfl rfl
  · exact h

theorem Ready.enter (h : Ready bound depth st) (function : String) (frame : Frame) :
    Ready bound (depth + 1) (st.enter function frame) :=
  ⟨congrArg (· + 1) h.depth_eq, h.fits⟩

/-- A call ends if the body of the function does, on a frame of its own. -/
theorem callFunction_halts {run : Stmt → Action Signal} {f : FunctionDef} {arguments : List Value}
    (hrun : depth ≤ limit → (run f.body).Halts (Ready bound (depth + 1)))
    (hkeeps : ∀ st, (run f.body st).Leaves fun _ st' => st'.stack.callers = st.stack.callers) :
    (callFunction limit run f arguments).Halts (Ready bound depth) := by
  intro st hst
  rcases Nat.lt_or_ge arguments.length f.parameters.length with hfew | henough
  · rw [callFunction_few hfew]
    exact hst
  rcases Nat.lt_or_ge limit st.stack.depth with hdeep | hroom
  · rw [callFunction_deep henough hdeep]
    exact hst.noteExtra f arguments
  rw [callFunction_eq_restore henough hroom (hkeeps _)]
  have hbody := hrun (hst.depth_eq ▸ hroom) _
    ((hst.noteExtra f arguments).enter f.name (parameterFrame f.parameters arguments))
  exact hbody.restore fun st₁ hst₁ => ⟨hst.depth_eq, hst₁.fits⟩

theorem callWith_halts {run : Stmt → Action Signal}
    (hrun : depth ≤ limit → ∀ s, s.Fits bound → (run s).Halts (Ready bound (depth + 1)))
    (hkeeps : ∀ s st, (run s st).Leaves fun _ st' => st'.stack.callers = st.stack.callers)
    (name : String) (arguments : List Value) :
    (callWith limit run name arguments).Halts (Ready bound depth) := by
  unfold callWith
  cases Builtin.ofName? name with
  | some b =>
    refine b.call_halts (fun st st' hstack hfunctions hst => ?_) arguments
    exact hst.congr (congrArg CallStack.depth hstack) hfunctions
  | none =>
    -- which function it is depends on the table, so the state is taken first
    intro st hst
    simp only [Action.bind_apply, Action.state]
    cases hf : Entries.get? st.functions name with
    | some f =>
      have hfits : f.body.Fits bound := hst.fits name f hf
      exact callFunction_halts (fun hroom => hrun hroom f.body hfits) (hkeeps f.body) st hst
    | none => exact hst

/-! ## 5. Expressions and statements -/

/-- The fuel for the calls that may still be made from so many live frames. -/
def reserve (limit bound depth : Nat) : Nat := (limit + 1 - depth) * bound

theorem reserve_call (bound : Nat) (h : depth ≤ limit) :
    bound + reserve limit bound (depth + 1) = reserve limit bound depth := by
  have hleft : limit + 1 - depth = limit + 1 - (depth + 1) + 1 := by omega
  unfold reserve
  rw [hleft, Nat.succ_mul, Nat.add_comm]

section Step

variable (heval : ∀ e, e.height + reserve limit bound depth ≤ fuel →
    (eval limit fuel e).Halts (Ready bound depth))
  (hexec : ∀ s, s.Fits bound → s.height + reserve limit bound depth ≤ fuel →
    (exec limit fuel s).Halts (Ready bound depth))

include heval in
theorem eval_halts_step
    (hbody : depth ≤ limit → reserve limit bound depth ≤ fuel →
      ∀ s, s.Fits bound → (exec limit fuel s).Halts (Ready bound (depth + 1)))
    (e : Expr) (h : e.height + reserve limit bound depth ≤ fuel + 1) :
    (eval limit (fuel + 1) e).Halts (Ready bound depth) := by
  cases e with
  | literal payload kind =>
    simp only [eval]
    exact Action.halts_ofResult _
  | identifier name =>
    simp only [eval]
    refine Action.halts_state.bind fun st => ?_
    cases st.stack.get? name with
    | some v => exact Action.halts_pure v
    | none => exact Action.halts_fail _
  | binary op left right =>
    rw [Expr.height] at h
    have hleft := heval left (by omega)
    have hright := heval right (by omega)
    by_cases hand : op = .and
    · subst hand
      simp only [eval]
      refine hleft.bind fun v => ?_
      split
      · exact hright.bind fun _ => Action.halts_pure _
      · exact Action.halts_pure _
    by_cases hor : op = .or
    · subst hor
      simp only [eval]
      refine hleft.bind fun v => ?_
      split
      · exact Action.halts_pure _
      · exact hright.bind fun _ => Action.halts_pure _
    rw [eval.eq_6 limit fuel op left right hand hor]
    exact hleft.bind fun _ => hright.bind fun _ => Action.halts_ofResult _
  | unary op operand =>
    rw [Expr.height] at h
    simp only [eval]
    exact (heval operand (by omega)).bind fun _ => Action.halts_ofResult _
  | call name arguments =>
    rw [Expr.height] at h
    simp only [eval]
    refine (Action.halts_collect arguments fun e he => heval e ?_).bind fun values => ?_
    · have := Expr.height_le_all he
      omega
    · exact callWith_halts (fun hroom => hbody hroom (by omega)) (exec_callers limit fuel)
        name values
  | index base position =>
    rw [Expr.height] at h
    simp only [eval]
    exact (heval base (by omega)).bind fun _ => (heval position (by omega)).bind fun _ =>
      Action.halts_ofResult _
  | sequence elements =>
    rw [Expr.height] at h
    simp only [eval]
    refine (Action.halts_collect elements fun e he => heval e ?_).bind fun _ =>
      Action.halts_pure _
    have := Expr.height_le_all he
    omega
  | mapping entries =>
    rw [Expr.height] at h
    simp only [eval]
    refine (Action.halts_collect entries fun entry he => heval entry.2 ?_).bind fun _ =>
      Action.halts_pure _
    have := Expr.height_le_entries he
    omega

include heval hexec in
theorem exec_halts_step (s : Stmt) (hs : s.Fits bound)
    (h : s.height + reserve limit bound depth ≤ fuel + 1) :
    (exec limit (fuel + 1) s).Halts (Ready bound depth) := by
  have hpart : ∀ t ∈ s.parts, (exec limit fuel t).Halts (Ready bound depth) := by
    intro t ht
    have hlt : t.height < s.height := Stmt.height_lt_of_mem_parts ht
    exact hexec t (hs.part ht) (by omega)
  have hassign : ∀ name v, (assign name v).Halts (Ready bound depth) := fun name v =>
    Action.halts_update fun st hst => hst.congr rfl rfl
  cases s with
  | assign name value =>
    rw [Stmt.height] at h
    simp only [exec]
    exact (heval value (by omega)).bind fun v => (hassign name v).bind fun _ =>
      Action.halts_pure _
  | branch condition thenBlock elseBlock =>
    rw [Stmt.height] at h
    simp only [exec]
    refine (heval condition (by omega)).bind fun v => ?_
    split
    · exact hpart thenBlock (by simp [Stmt.parts])
    · cases elseBlock with
      | some block => exact hpart block (by simp [Stmt.parts])
      | none => exact Action.halts_pure _
  | loop condition body => cases hs.unconditional
  | loopFor init condition increment body => cases hs.unconditional
  | loopEach item collection body =>
    rw [Stmt.height] at h
    simp only [exec]
    refine (heval collection (by omega)).bind fun c => ?_
    refine (Action.halts_ofResult _).bind fun items => ?_
    refine Action.halts_runEach (fun v => (hassign item v).bind fun _ => ?_) items
    exact hpart body (by simp [Stmt.parts])
  | declare name parameters body =>
    simp only [exec]
    exact (Action.halts_update fun st hst => hst.register hs.body).bind fun _ =>
      Action.halts_pure _
  | giveBack value =>
    cases value with
    | some e =>
      rw [Stmt.height] at h
      simp only [exec]
      exact (heval e (by omega)).bind fun _ => Action.halts_pure _
    | none =>
      simp only [exec]
      exact Action.halts_pure _
  | evaluate e =>
    rw [Stmt.height] at h
    simp only [exec]
    exact (heval e (by omega)).bind fun _ => Action.halts_pure _
  | block statements =>
    simp only [exec]
    exact Action.halts_runAll statements _ fun t ht => hpart t ht

end Step

/-- **Enough fuel**: its own height and the reserve for the calls, at every depth. -/
theorem run_halts (limit bound fuel : Nat) : ∀ depth,
    (∀ e, e.height + reserve limit bound depth ≤ fuel →
      (eval limit fuel e).Halts (Ready bound depth)) ∧
    ∀ s, s.Fits bound → s.height + reserve limit bound depth ≤ fuel →
      (exec limit fuel s).Halts (Ready bound depth) := by
  induction fuel with
  | zero =>
    refine fun depth => ⟨fun e h => ?_, fun s _ h => ?_⟩
    · have := e.height_pos
      omega
    · have := s.height_pos
      omega
  | succ fuel ih =>
    intro depth
    obtain ⟨heval, hexec⟩ := ih depth
    -- the body of a call is not part of the call: its height is paid from the reserve
    have hbody : depth ≤ limit → reserve limit bound depth ≤ fuel →
        ∀ s, s.Fits bound → (exec limit fuel s).Halts (Ready bound (depth + 1)) := by
      intro hroom hreserve s hs
      have hpaid := reserve_call bound hroom
      have hheight := hs.height_le
      exact (ih (depth + 1)).2 s hs (by omega)
    exact ⟨eval_halts_step heval hbody, exec_halts_step heval hexec⟩

theorem executeAll_halts (hfuel : bound + reserve limit bound depth ≤ fuel) :
    ∀ (statements : List Stmt) (last : Value), (∀ s ∈ statements, s.Fits bound) →
      (executeAll limit fuel last statements).Halts (Ready bound depth)
  | [], _, _ => Action.halts_pure _
  | s :: rest, _, h => by
    have hs : s.Fits bound := h s (by simp)
    have hheight := hs.height_le
    refine ((run_halts limit bound fuel depth).2 s hs (by omega)).bind fun signal => ?_
    exact executeAll_halts hfuel rest signal.value fun t ht => h t (by simp [ht])

/-- **Programs without conditional loops end**, however their functions call and redefine one
another, on any files and any console.  Fuel for `limit + 1` times the height of the program is
enough, and with all fuel beyond that the end is the same. -/
theorem execute_terminates (limit : Nat) (p : Program) (h : p.hasConditionalLoop = false)
    (console : Console) (files : Files) :
    ∃ outcome, outcome ≠ .exhausted ∧ ∀ fuel, (limit + 1) * p.height ≤ fuel →
      execute limit fuel p { console := console, files := files } = outcome := by
  have hfits : ∀ s ∈ p.statements, s.Fits p.height := fun s hs =>
    ⟨Stmt.hasConditionalLoop_of_mem hs h, Stmt.height_le_all hs⟩
  have hready : Ready p.height 1 { console := console, files := files } :=
    ⟨rfl, fun _ _ hf => by cases hf⟩
  have hfuel : p.height + reserve limit p.height 1 = (limit + 1) * p.height := by
    unfold reserve
    rw [Nat.add_sub_cancel, Nat.succ_mul, Nat.add_comm]
  have hhalts := executeAll_halts (Nat.le_of_eq hfuel) p.statements .absence hfits
  have hends : execute limit ((limit + 1) * p.height) p { console := console, files := files } ≠
      .exhausted := (hhalts _ hready).ne_exhausted
  exact ⟨_, hends, fun fuel hle => execute_fuel_le hle hends⟩

/-- A program whose function redefines itself, goes through a list that it assigns to while doing
so, and calls itself for every item of it. -/
def branching : Program :=
  ⟨[.declare "f" [⟨"xs", none⟩]
      (.block [
        .declare "f" [⟨"xs", none⟩] (.loopEach "x" (.identifier "xs")
          (.block [.assign "xs" (.literal .null .absence),
            .evaluate (.call "f" [.sequence [.identifier "x", .identifier "x"]])])),
        .evaluate (.call "f" [.identifier "xs"])]),
    .evaluate (.call "f" [.sequence [.literal (.boolean true) .boolean]])]⟩

/-- Where four calls are allowed it ends, within the fuel for five times its height. -/
theorem execute_terminates_branching :
    branching.hasConditionalLoop = false ∧
      ∃ outcome, outcome ≠ .exhausted ∧ ∀ fuel, 5 * branching.height ≤ fuel →
        execute 4 fuel branching { console := .broken "closed", files := {} } = outcome :=
  ⟨rfl, execute_terminates 4 branching rfl (.broken "closed") {}⟩

end Interpreter

end TreeScript
