import TreeScript.Proofs.Run.Report

/-!
# Programs that are told apart by nothing

Two programs may differ in the bodies of their functions and still run in the same way.  Then the
two runs hold different function tables, and what corresponds are bodies: `State.Twin` says that two
states agree in everything but their functions, and that those correspond under every name that can
be called.  Names under which no function is ever called may be `hidden`; their registrations are
not compared.

`run_followedBy` is the induction that all such comparisons share.  It is told which trees
correspond, and that corresponding trees are `Alike`, or else follow each other on account of what
runs with less fuel.  The second run may need more fuel, `grow` times as much.
`Program.endsIn_iff` takes what follows in both directions to the reports.
-/

namespace TreeScript

/-! ## 1. What a simulation has to keep -/

/-- Corresponding states have the same console and files, and stay so when the same is printed,
written and noted in both. -/
structure Simulation.SharesWorld (S : Simulation) : Prop where
  console : ∀ {st st'}, S.states st st' → st'.console = st.console
  files : ∀ {st st'}, S.states st st' → st'.files = st.files
  print : ∀ {st st'} (console : Console), S.states st st' →
    S.states { st with console := console } { st' with console := console }
  write : ∀ {st st'} (files : Files), S.states st st' →
    S.states { st with files := files } { st' with files := files }
  note : ∀ {st st'} {record : Record}, record.IsMishap → S.states st st' →
    S.states (st.note record) (st'.note record)

/-- Variables, registrations and calls follow each other, as far as the bodies that they hold
correspond. -/
structure Simulation.Supports (S : Simulation) (limit : Nat) (Q : Stmt → Stmt → Prop) : Prop where
  read : ∀ name, (Interpreter.readVariable name).FollowedBy S (Interpreter.readVariable name)
  assign : ∀ name value,
    (Interpreter.assign name value).FollowedBy S (Interpreter.assign name value)
  register : ∀ name parameters b b', Q b b' →
    (Action.update (·.register ⟨name, parameters, b⟩)).FollowedBy S
      (Action.update (·.register ⟨name, parameters, b'⟩))
  call : ∀ {run run' : Stmt → Action Signal}, (∀ s s', Q s s' → (run s).FollowedBy S (run' s')) →
    (∀ s st, (run s st).Leaves fun _ st' => st'.stack.callers = st.stack.callers) →
    (∀ s st, (run' s st).Leaves fun _ st' => st'.stack.callers = st.stack.callers) →
    ∀ name arguments, (Interpreter.callWith limit run name arguments).FollowedBy S
      (Interpreter.callWith limit run' name arguments)

/-! ## 2. Built-in functions -/

namespace Builtin

variable {S : Simulation}

theorem checkArity_followedBy (hS : S.SharesWorld) (b : Builtin) (found : Nat) :
    (b.checkArity found).FollowedBy S (b.checkArity found) := by
  unfold Builtin.checkArity
  split
  · exact Action.followedBy_fail _
  · split
    · exact Action.followedBy_pure ()
    · split
      · exact fun st st' hst => ⟨_, rfl, hS.note (Or.inl rfl) hst⟩
      · exact Action.followedBy_pure ()

theorem printLine_followedBy (hS : S.SharesWorld) (line : String) :
    (printLine line).FollowedBy S (printLine line) := by
  intro st st' hst
  unfold printLine
  rw [hS.console hst]
  rcases st.console.print line with ⟨_ | reason, console⟩
  · exact ⟨_, rfl, hS.print console hst⟩
  · exact Or.inr ⟨_, rfl, hS.print console hst⟩

theorem readRows_followedBy (hS : S.SharesWorld) (path : String) :
    (readRows path).FollowedBy S (readRows path) := by
  intro st st' hst
  unfold readRows
  rw [hS.files hst]
  cases st.files.read path with
  | ok text => exact ⟨st', rfl, hst⟩
  | error failure => exact ⟨_, rfl, hS.note (Or.inr rfl) hst⟩

theorem writeRows_followedBy (hS : S.SharesWorld) (path : String) (fields : List String)
    (rows : List (List (String × Value))) :
    (writeRows path fields rows).FollowedBy S (writeRows path fields rows) := by
  intro st st' hst
  -- what is noted beforehand leaves corresponding states, and the write is made from those
  have hnoted : S.states
      (if 0 < Table.countUnfaithful rows then
        st.note (.unfaithfulCells path (Table.countUnfaithful rows)) else st)
      (if 0 < Table.countUnfaithful rows then
        st'.note (.unfaithfulCells path (Table.countUnfaithful rows)) else st') := by
    split
    · exact hS.note (Or.inl rfl) hst
    · exact hst
  unfold writeRows
  dsimp only
  generalize (if 0 < Table.countUnfaithful rows then
    st.note (.unfaithfulCells path (Table.countUnfaithful rows)) else st) = noted at hnoted ⊢
  generalize (if 0 < Table.countUnfaithful rows then
    st'.note (.unfaithfulCells path (Table.countUnfaithful rows)) else st') = noted' at hnoted ⊢
  rw [hS.files hnoted]
  cases noted.files.write path (Table.render fields rows) with
  | ok files => exact ⟨_, rfl, hS.write files hnoted⟩
  | error failure => exact ⟨_, rfl, hS.note (Or.inr rfl) hnoted⟩

/-- **A built-in function follows itself**: it sees the console and the files only. -/
theorem call_followedBy (hS : S.SharesWorld) (b : Builtin) (arguments : List Value) :
    (b.call arguments).FollowedBy S (b.call arguments) := by
  refine (checkArity_followedBy hS b arguments.length).bind fun _ => ?_
  cases b with
  | print => exact printLine_followedBy hS _
  | len => exact (Action.followedBy_ofResult _).bind fun _ => Action.followedBy_pure _
  | sum =>
    exact (Action.followedBy_ofResult _).bind fun _ => (Action.followedBy_ofResult _).bind fun _ =>
      Action.followedBy_pure _
  | max =>
    exact (Action.followedBy_ofResult _).bind fun _ => (Action.followedBy_ofResult _).bind fun _ =>
      Action.followedBy_pure _
  | min =>
    exact (Action.followedBy_ofResult _).bind fun _ => (Action.followedBy_ofResult _).bind fun _ =>
      Action.followedBy_pure _
  | readTable =>
    exact (Action.followedBy_ofResult _).bind fun _ => (Action.followedBy_ofResult _).bind fun _ =>
      readRows_followedBy hS _
  | writeTable =>
    refine (Action.followedBy_ofResult _).bind fun _ => ?_
    refine (Action.followedBy_ofResult _).bind fun _ => ?_
    refine (Action.followedBy_ofResult _).bind fun _ => ?_
    refine (Action.followedBy_ofResult _).bind fun _ => ?_
    refine (Action.followedBy_ofResult _).bind fun _ => ?_
    exact writeRows_followedBy hS _ _ _

end Builtin

/-! ## 3. States that differ in their functions -/

/-- Functions with the same name and the same parameters whose bodies correspond. -/
structure FunctionDef.Twin (Q : Stmt → Stmt → Prop) (f f' : FunctionDef) : Prop where
  name : f'.name = f.name
  parameters : f'.parameters = f.parameters
  body : Q f.body f'.body

/-- **States that agree in all but their functions**, which correspond under every name that is not
hidden. -/
structure State.Twin (Q : Stmt → Stmt → Prop) (hidden : String → Bool) (st st' : State) :
    Prop where
  stack : st'.stack = st.stack
  console : st'.console = st.console
  files : st'.files = st.files
  log : st'.log.filter (Record.isShown hidden) = st.log.filter (Record.isShown hidden)
  functions : ∀ name, hidden name = false →
    Option.Rel (FunctionDef.Twin Q) (Entries.get? st.functions name)
      (Entries.get? st'.functions name)

/-- Two runs whose functions correspond. -/
def Simulation.twin (Q : Stmt → Stmt → Prop) (hidden : String → Bool) : Simulation where
  states := State.Twin Q hidden
  excused _ := False

namespace State.Twin

variable {Q : Stmt → Stmt → Prop} {hidden : String → Bool} {st st' : State}

/-- A fresh state has no functions. -/
theorem fresh (console : Console) (files : Files) :
    State.Twin Q hidden { console := console, files := files }
      { console := console, files := files } :=
  ⟨rfl, rfl, rfl, rfl, fun _ _ => .none⟩

/-- Under a name that is not hidden there is a function on both sides or on neither. -/
theorem lookup (h : State.Twin Q hidden st st') {name : String} (hname : hidden name = false) :
    (Entries.get? st.functions name = none ∧ Entries.get? st'.functions name = none) ∨
      ∃ f f', Entries.get? st.functions name = some f ∧
        Entries.get? st'.functions name = some f' ∧ f.Twin Q f' := by
  have hrel := h.functions name hname
  generalize Entries.get? st.functions name = found at hrel
  generalize Entries.get? st'.functions name = found' at hrel
  cases hrel with
  | some hf => exact Or.inr ⟨_, _, rfl, rfl, hf⟩
  | none => exact Or.inl ⟨rfl, rfl⟩

theorem flip (h : State.Twin Q hidden st st') : State.Twin (flip Q) hidden st' st where
  stack := h.stack.symm
  console := h.console.symm
  files := h.files.symm
  log := h.log.symm
  functions name hname := by
    rcases h.lookup hname with ⟨hf, hf'⟩ | ⟨f, f', hf, hf', htwin⟩
    · rw [hf, hf']
      exact .none
    · rw [hf, hf']
      exact .some ⟨htwin.name.symm, htwin.parameters.symm, htwin.body⟩

theorem restack (h : State.Twin Q hidden st st') (stack : CallStack) :
    State.Twin Q hidden { st with stack := stack } { st' with stack := stack } :=
  { h with stack := rfl }

theorem note (h : State.Twin Q hidden st st') (record : Record) :
    State.Twin Q hidden (st.note record) (st'.note record) where
  stack := h.stack
  console := h.console
  files := h.files
  log := by
    simp only [State.note, List.filter_cons, h.log]
  functions := h.functions

theorem noteExtra (h : State.Twin Q hidden st st') {f f' : FunctionDef} (hf : f.Twin Q f')
    (arguments : List Value) :
    State.Twin Q hidden (st.noteExtra f arguments) (st'.noteExtra f' arguments) := by
  unfold State.noteExtra
  rw [hf.name, hf.parameters]
  split
  · exact h.note _
  · exact h

theorem enter (h : State.Twin Q hidden st st') (function : String) (frame : Frame) :
    State.Twin Q hidden (st.enter function frame) (st'.enter function frame) := by
  unfold State.enter
  rw [h.stack]
  exact (h.restack _).note _

/-- A name is registered on both sides or on neither. -/
theorem contains_eq (h : State.Twin Q hidden st st') {name : String}
    (hname : hidden name = false) :
    Entries.contains st'.functions name = Entries.contains st.functions name := by
  unfold Entries.contains
  rcases h.lookup hname with ⟨hf, hf'⟩ | ⟨f, f', hf, hf', -⟩
  · rw [hf, hf']
  · rw [hf, hf']
    rfl

theorem register (h : State.Twin Q hidden st st') {f f' : FunctionDef} (hf : f.Twin Q f') :
    State.Twin Q hidden (st.register f) (st'.register f') where
  stack := h.stack
  console := h.console
  files := h.files
  log := by
    unfold State.register
    rw [hf.name]
    simp only [State.note, List.filter_cons, Record.isShown, h.log]
    by_cases hname : hidden f.name = true
    · simp only [hname, Bool.not_true, Bool.false_eq_true, if_false]
    · have hname' : hidden f.name = false := Bool.eq_false_iff.mpr hname
      simp only [hname', Bool.not_false, if_true, h.contains_eq hname']
  functions name hname := by
    unfold State.register
    simp only [State.note, Entries.get?_insert, hf.name]
    split
    · exact .some hf
    · exact h.functions name hname

/-- A registration under a hidden name is seen nowhere. -/
theorem register_hidden (h : State.Twin Q hidden st st') {f : FunctionDef}
    (hf : hidden f.name = true) : State.Twin Q hidden (st.register f) st' where
  stack := h.stack
  console := h.console
  files := h.files
  log := by
    unfold State.register
    simp only [State.note, List.filter_cons, Record.isShown, hf, h.log]
    rfl
  functions name hname := by
    have hne : f.name ≠ name := by
      rintro rfl
      rw [hf] at hname
      cases hname
    unfold State.register
    simp only [State.note, Entries.get?_insert, if_neg hne]
    exact h.functions name hname

end State.Twin

/-! ## 4. Calls -/

section Twin

variable {Q : Stmt → Stmt → Prop} {hidden : String → Bool} {limit : Nat}

theorem Simulation.sharesWorld_twin : (Simulation.twin Q hidden).SharesWorld where
  console h := h.console
  files h := h.files
  print _ h := { h with console := rfl }
  write _ h := { h with files := rfl }
  note _ h := State.Twin.note h _

namespace Interpreter

/-- Functions whose bodies follow each other are let in together, and follow each other. -/
theorem callFunction_twin {run run' : Stmt → Action Signal} {f f' : FunctionDef}
    (hf : f.Twin Q f') (arguments : List Value)
    (hrun : (run f.body).FollowedBy (.twin Q hidden) (run' f'.body))
    (hkeeps : ∀ st, (run f.body st).Leaves fun _ st' => st'.stack.callers = st.stack.callers)
    (hkeeps' : ∀ st, (run' f'.body st).Leaves fun _ st' => st'.stack.callers = st.stack.callers) :
    (callFunction limit run f arguments).FollowedBy (.twin Q hidden)
      (callFunction limit run' f' arguments) := by
  intro st st' hst
  have hparameters : f'.parameters.length = f.parameters.length := by rw [hf.parameters]
  have hstack : st'.stack = st.stack := hst.stack
  rcases Nat.lt_or_ge arguments.length f.parameters.length with hfew | henough
  · rw [callFunction_few hfew, callFunction_few (hparameters ▸ hfew), hf.name, hparameters]
    exact Or.inr ⟨st', rfl, hst⟩
  have henough' : f'.parameters.length ≤ arguments.length := hparameters ▸ henough
  have hnoted := hst.noteExtra hf arguments
  rcases Nat.lt_or_ge limit st.stack.depth with hdeep | hroom
  · rw [callFunction_deep henough hdeep, callFunction_deep henough' (hstack ▸ hdeep)]
    exact Or.inr ⟨_, rfl, hnoted⟩
  · rw [callFunction_eq_restore henough hroom (hkeeps _),
      callFunction_eq_restore henough' (hstack ▸ hroom) (hkeeps' _), hf.name, hf.parameters, hstack]
    exact (hrun _ _ (hnoted.enter _ _)).restore fun _ _ h => State.Twin.restack h _

/-- **Runs whose functions correspond** call, register and read in step, if hidden names are names
of built-in functions: those are never looked up. -/
theorem supports_twin (hhidden : ∀ name, hidden name = true → Builtin.ofName? name ≠ none) :
    (Simulation.twin Q hidden).Supports limit Q where
  read name st st' hst := by
    unfold readVariable
    simp only [Action.bind_apply, Action.state, State.Twin.stack hst]
    cases st.stack.get? name with
    | some v => exact ⟨st', rfl, hst⟩
    | none => exact Or.inr ⟨st', rfl, hst⟩
  assign name value st st' hst := by
    have hstack : st'.stack.define name value = st.stack.define name value := by
      rw [State.Twin.stack hst]
    refine ⟨_, rfl, ?_⟩
    dsimp only
    rw [hstack]
    exact State.Twin.restack hst _
  register _ _ _ _ hbody st st' hst := ⟨_, rfl, State.Twin.register hst ⟨rfl, rfl, hbody⟩⟩
  call {run run'} hrun hkeeps hkeeps' name arguments := by
    unfold callWith
    cases hbuiltin : Builtin.ofName? name with
    | some b => exact Builtin.call_followedBy Simulation.sharesWorld_twin b arguments
    | none =>
      have hname : hidden name = false := by
        cases h : hidden name with
        | false => rfl
        | true => exact absurd hbuiltin (hhidden name h)
      intro st st' hst
      simp only [Action.bind_apply, Action.state]
      rcases State.Twin.lookup hst hname with ⟨hf, hf'⟩ | ⟨f, f', hf, hf', htwin⟩
      · rw [hf, hf']
        exact Or.inr ⟨st', rfl, hst⟩
      · rw [hf, hf']
        exact callFunction_twin htwin arguments (hrun _ _ htwin.body) (hkeeps _) (hkeeps' _) st st'
          hst

/-- In particular where no name is hidden. -/
theorem supports_twin_all : (Simulation.twin Q fun _ => false).Supports limit Q :=
  supports_twin nofun

end Interpreter

end Twin

namespace Interpreter

/-! ## 5. Whole runs -/

section Runs

variable {S : Simulation} {R : Expr → Expr → Prop} {Q : Stmt → Stmt → Prop} {limit grow : Nat}

/-- With less than so much fuel corresponding trees follow each other, if the second run has `grow`
times the fuel of the first. -/
def FollowsBelow (S : Simulation) (limit : Nat) (R : Expr → Expr → Prop) (Q : Stmt → Stmt → Prop)
    (grow bound : Nat) : Prop :=
  ∀ fuel < bound, ∀ fuel', grow * fuel ≤ fuel' →
    (∀ e e', R e e' → (eval limit fuel e).FollowedBy S (eval limit fuel' e')) ∧
      ∀ s s', Q s s' → (exec limit fuel s).FollowedBy S (exec limit fuel' s')

/-- **Corresponding trees follow each other**, if they are alike or follow each other on account of
what runs with less fuel. -/
theorem run_followedBy (hS : S.Supports limit Q) (hgrow : 0 < grow)
    (hexpr : ∀ {fuel fuel' : Nat}, grow * fuel ≤ fuel' → FollowsBelow S limit R Q grow fuel →
      ∀ e e', R e e' → Expr.Alike R e e' ∨ (eval limit fuel e).FollowedBy S (eval limit fuel' e'))
    (hstmt : ∀ {fuel fuel' : Nat}, grow * fuel ≤ fuel' → FollowsBelow S limit R Q grow fuel →
      ∀ s s', Q s s' →
        Stmt.Alike R Q s s' ∨ (exec limit fuel s).FollowedBy S (exec limit fuel' s')) :
    ∀ bound, FollowsBelow S limit R Q grow bound := by
  intro bound
  induction bound with
  | zero => exact fun _ h => absurd h (Nat.not_lt_zero _)
  | succ bound ih =>
    intro fuel hlt fuel' hfuel
    rcases Nat.lt_or_eq_of_le (Nat.le_of_lt_succ hlt) with hlt | rfl
    · exact ih fuel hlt fuel' hfuel
    -- trees that are alike: their parts run with one unit less
    have halike : (∀ e e', Expr.Alike R e e' →
          (eval limit fuel e).FollowedBy S (eval limit fuel' e')) ∧
        ∀ s s', Stmt.Alike R Q s s' → (exec limit fuel s).FollowedBy S (exec limit fuel' s') := by
      cases fuel with
      | zero =>
        refine ⟨fun e e' _ => ?_, fun s s' _ => ?_⟩
        · rw [eval.eq_1]
          exact Action.followedBy_exhaust _
        · rw [exec.eq_1]
          exact Action.followedBy_exhaust _
      | succ less =>
        obtain ⟨less', rfl⟩ : ∃ less', fuel' = less' + 1 :=
          ⟨fuel' - 1, by rw [Nat.mul_succ] at hfuel; omega⟩
        have hless : grow * less ≤ less' := by
          rw [Nat.mul_succ] at hfuel
          omega
        have hle : less ≤ less' := Nat.le_trans (Nat.le_mul_of_pos_left less hgrow) hless
        obtain ⟨heval, hexec⟩ := ih less (Nat.lt_succ_self less) less' hless
        have hcall := hS.call hexec (exec_callers limit less) (exec_callers limit less')
        exact ⟨fun e e' h => eval_followedBy heval hS.read hcall h,
          fun s s' h => exec_followedBy heval hexec hle hS.assign hS.register h⟩
    refine ⟨fun e e' h => ?_, fun s s' h => ?_⟩
    · exact (hexpr hfuel ih e e' h).elim (halike.1 e e') id
    · exact (hstmt hfuel ih s s' h).elim (halike.2 s s') id

/-- The same where expressions correspond only to themselves.  Without fuel there is nothing to
show, and one unit of fuel of the first run is `grow` units of the second. -/
theorem run_followedBy_of_stmts (hS : S.Supports limit Q) (hgrow : 0 < grow)
    (hstmt : ∀ {m n : Nat}, grow * m ≤ n → FollowsBelow S limit Eq Q grow (m + 1) →
      ∀ s s', Q s s' → Stmt.Alike Eq Q s s' ∨
        (exec limit (m + 1) s).FollowedBy S (exec limit (n + grow) s')) :
    ∀ bound, FollowsBelow S limit Eq Q grow bound := by
  refine run_followedBy hS hgrow (fun _ _ e e' h => Or.inl ?_)
    fun {fuel fuel'} hfuel hbelow s s' h => ?_
  · subst h
    exact Expr.Alike.refl (fun _ => rfl) e
  · cases fuel with
    | zero =>
      rw [exec.eq_1]
      exact Or.inr (Action.followedBy_exhaust _)
    | succ m =>
      rw [Nat.mul_succ] at hfuel
      obtain ⟨n, rfl⟩ : ∃ n, fuel' = n + grow := ⟨fuel' - grow, by omega⟩
      exact hstmt (by omega) hbelow s s' h

theorem executeAll_followedBy {fuel fuel' : Nat}
    (hexec : ∀ s s', Q s s' → (exec limit fuel s).FollowedBy S (exec limit fuel' s')) :
    ∀ {ss ss' : List Stmt} (last : Value), List.Forall₂ Q ss ss' →
      (executeAll limit fuel last ss).FollowedBy S (executeAll limit fuel' last ss')
  | _, _, _, .nil => Action.followedBy_pure _
  | _, _, _, .cons hs hrest =>
    (hexec _ _ hs).bind fun signal => executeAll_followedBy hexec signal.value hrest

end Runs

end Interpreter

/-! ## 6. Reports -/

section Reports

variable {R R' : Expr → Expr → Prop} {Q : Stmt → Stmt → Prop} {hidden : String → Bool}
  {limit grow grow' : Nat}

theorem Outcome.FollowedBy.report {outcome outcome' : Outcome Value}
    (h : outcome.FollowedBy (.twin Q hidden) outcome') {report : Report}
    (hreport : outcome.report? = some report) :
    ∃ report', outcome'.report? = some report' ∧ report'.hiding hidden = report.hiding hidden := by
  have htwin : ∀ {st st' : State} (result : Except RunError Value), State.Twin Q hidden st st' →
      (st'.report result).hiding hidden = (st.report result).hiding hidden := by
    intro st st' result hst
    unfold State.report Report.hiding State.records
    simp only [hst.stack, hst.console, hst.files, List.filter_reverse, hst.log]
  cases outcome with
  | done value st =>
    obtain ⟨st', rfl, hst⟩ := h
    cases hreport
    exact ⟨_, rfl, htwin _ hst⟩
  | failed error st =>
    rcases h with h | ⟨st', rfl, hst⟩
    · exact h.elim
    · cases hreport
      exact ⟨_, rfl, htwin _ hst⟩
  | exhausted => cases hreport

theorem Program.endsIn_of_followsBelow {p q : Program}
    (hpq : List.Forall₂ Q p.statements q.statements)
    (h : ∀ bound, Interpreter.FollowsBelow (.twin Q hidden) limit R Q grow bound)
    {console : Console} {files : Files} {report : Report}
    (hp : p.EndsIn limit console files report) :
    ∃ report', q.EndsIn limit console files report' ∧
      report'.hiding hidden = report.hiding hidden := by
  obtain ⟨fuel, hreport⟩ := hp
  have hexec := (h (fuel + 1) fuel (Nat.lt_succ_self fuel) (grow * fuel) (Nat.le_refl _)).2
  have hrun := Interpreter.executeAll_followedBy hexec .absence hpq _ _
    (State.Twin.fresh console files)
  obtain ⟨report', hreport', hsame⟩ := hrun.report hreport
  exact ⟨report', ⟨grow * fuel, hreport'⟩, hsame⟩

/-- **Programs that follow each other both ways** have the same reports, up to what is hidden. -/
theorem Program.endsIn_hiding_iff {p q : Program}
    (hpq : List.Forall₂ Q p.statements q.statements)
    (hforth : ∀ bound, Interpreter.FollowsBelow (.twin Q hidden) limit R Q grow bound)
    (hback : ∀ bound, Interpreter.FollowsBelow (.twin (flip Q) hidden) limit R' (flip Q) grow'
      bound) (console : Console) (files : Files) (seen : Report) :
    (∃ report, p.EndsIn limit console files report ∧ report.hiding hidden = seen) ↔
      ∃ report, q.EndsIn limit console files report ∧ report.hiding hidden = seen := by
  constructor
  · rintro ⟨report, hp, rfl⟩
    exact Program.endsIn_of_followsBelow hpq hforth hp
  · rintro ⟨report, hq, rfl⟩
    exact Program.endsIn_of_followsBelow hpq.flip hback hq

/-- Where nothing is hidden, they have the same reports. -/
theorem Program.endsIn_iff {p q : Program} (hpq : List.Forall₂ Q p.statements q.statements)
    (hforth : ∀ bound, Interpreter.FollowsBelow (.twin Q fun _ => false) limit R Q grow bound)
    (hback : ∀ bound, Interpreter.FollowsBelow (.twin (flip Q) fun _ => false) limit R' (flip Q)
      grow' bound) (console : Console) (files : Files) (report : Report) :
    p.EndsIn limit console files report ↔ q.EndsIn limit console files report := by
  simpa only [Report.hiding_none, exists_eq_right] using
    Program.endsIn_hiding_iff hpq hforth hback console files report

end Reports

end TreeScript
