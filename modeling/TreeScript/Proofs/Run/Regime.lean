import TreeScript.Proofs.Run.Frames

/-!
# What a run does beside its frames

Much of what a run does can be told without its stack: what it prints, writes and records, which
functions it registers, and which errors it ends in.  A `Regime` is a change of that kind, which
stays true when the stack is replaced (`Regime.stack`), for those expressions and statements that
may be run.  Its step for calls is then the same for all of them: a call enters its frame, runs the
body and puts the stack back (`Regime.callFunction_leaves`).

The body of a function comes from a table that the program changes as it runs.  A change that
assumes of a state that every body in its table may be run holds of all other states for nothing;
that is `Regime.table`, and `Change.guarded` makes such a change of any other.
-/

namespace TreeScript

/-! ## 1. Regimes -/

/-- What may be run, a change that does not look at the stack, and that the steps of a run keep to
it. -/
structure Regime (limit : Nat) where
  expr : Expr → Prop
  stmt : Stmt → Prop
  change : Change
  expr_part : ∀ {e e'}, expr e → e' ∈ e.parts → expr e'
  stmt_expr : ∀ {s e}, stmt s → e ∈ s.exprs → expr e
  stmt_part : ∀ {s t}, stmt s → t ∈ s.parts → stmt t
  stack : ∀ {st how st'} (stack : CallStack), change.holds st how st' →
    change.holds st how { st' with stack := stack }
  fail : ∀ error : RunError, error.kind.IsPlain → ∀ st, change.holds st (some error) st
  overflow : ∀ st, change.holds st (some (.stackOverflow limit)) st
  literal : ∀ {payload kind}, expr (.literal payload kind) →
    (Action.ofResult (Value.ofLiteral payload kind)).Within change
  note : ∀ record : Record, record.level = .warn ∨ record.level = .trace →
    ∀ st, change.holds st none (st.note record)
  print : ∀ {arguments}, expr (.call Builtin.print.name arguments) →
    ∀ line, (Builtin.printLine line).Within change
  read : ∀ {arguments}, expr (.call Builtin.readTable.name arguments) →
    ∀ path, (Builtin.readRows path).Within change
  write : ∀ {arguments}, expr (.call Builtin.writeTable.name arguments) →
    ∀ path fields rows, (Builtin.writeRows path fields rows).Within change
  register : ∀ f : FunctionDef, stmt f.toStmt → ∀ st, change.holds st none (st.register f)
  /-- What follows a call of a function in the table may take for granted that its body may be
  run. -/
  table : ∀ {st name f}, Entries.get? st.functions name = some f → ∀ {how st'},
    (stmt f.body → change.holds st how st') → change.holds st how st'

/-- The built-in function that a name stands for has that name. -/
theorem Builtin.name_of_ofName? {name : String} {b : Builtin} (h : ofName? name = some b) :
    b.name = name := by
  unfold ofName? at h
  simpa using List.find?_some h

theorem Outcome.leaves_of_forall {α : Type} (outcome : Outcome α)
    {P : Option RunError → State → Prop} (h : ∀ how st, P how st) : outcome.Leaves P := by
  cases outcome with
  | done value st => exact h none st
  | failed error st => exact h (some error) st
  | exhausted => trivial

namespace Regime

variable {limit fuel : Nat} (d : Regime limit)

/-! ## 2. Calls -/

theorem noteExtra (st : State) (f : FunctionDef) (values : List Value) :
    d.change.holds st none (st.noteExtra f values) := by
  unfold State.noteExtra
  split
  · exact d.note _ (Or.inl rfl) st
  · exact d.change.refl st

/-- A body starts in a state that its caller may have left. -/
theorem enter (st : State) (f : FunctionDef) (values : List Value) (frame : Frame) :
    d.change.holds st none ((st.noteExtra f values).enter f.name frame) := by
  have hpushed := d.stack ((st.noteExtra f values).stack.push frame) (d.noteExtra st f values)
  exact d.change.trans hpushed (d.note _ (Or.inr rfl) _)

/-- **A call keeps to the regime** if the body of its function does. -/
theorem callFunction_leaves {f : FunctionDef} (values : List Value) (st : State)
    (hbody : (Interpreter.exec limit fuel f.body).Within d.change) :
    (Interpreter.callFunction limit (Interpreter.exec limit fuel) f values st).Leaves
      (d.change.holds st) := by
  rcases Nat.lt_or_ge values.length f.parameters.length with hfew | henough
  · rw [Interpreter.callFunction_few hfew]
    exact d.fail (.arityMismatch f.name _ _) ⟨nofun, nofun, nofun, nofun⟩ st
  rcases Nat.lt_or_ge limit st.stack.depth with hdeep | hroom
  · rw [Interpreter.callFunction_deep henough hdeep]
    exact d.change.trans (d.noteExtra st f values) (d.overflow _)
  have hentered := hbody ((st.noteExtra f values).enter f.name
    (Interpreter.parameterFrame f.parameters values))
  rw [Interpreter.callFunction_eq_restore henough hroom (Interpreter.exec_callers limit fuel _ _)]
  exact hentered.restore fun how st' h => d.stack st.stack (d.change.trans (d.enter st f values _) h)

/-- A call by name keeps to the regime if that name may be called. -/
theorem callWith_within (hexec : ∀ s, d.stmt s → (Interpreter.exec limit fuel s).Within d.change)
    {name : String} {arguments : List Expr} (hcall : d.expr (.call name arguments))
    (values : List Value) :
    (Interpreter.callWith limit (Interpreter.exec limit fuel) name values).Within d.change := by
  unfold Interpreter.callWith
  cases hname : Builtin.ofName? name with
  | some b =>
    obtain rfl := Builtin.name_of_ofName? hname
    refine Builtin.call_within d.fail (fun record h => d.note record (Or.inl h)) b values ?_ ?_ ?_
    · rintro rfl
      exact d.print hcall
    · rintro rfl
      exact d.read hcall
    · rintro rfl
      exact d.write hcall
  | none =>
    -- which function it is depends on the table, so the state is taken first
    intro st
    simp only [Action.bind_apply, Action.state]
    cases hf : Entries.get? st.functions name with
    | some f =>
      by_cases hbody : d.stmt f.body
      · exact d.callFunction_leaves values st (hexec f.body hbody)
      · exact Outcome.leaves_of_forall _ fun how st' => d.table hf fun h => absurd h hbody
    | none =>
      have hplain : ErrorKind.unknownFunction.IsPlain := by decide
      exact d.fail (.unknownFunction name) hplain st

/-! ## 3. Runs -/

/-- A regime is a plan, the same for all statements. -/
def plan : Plan limit where
  expr := d.expr
  stmt := d.stmt
  ofExpr := d.change
  ofStmt _ := d.change
  expr_part := d.expr_part
  stmt_expr := d.stmt_expr
  stmt_part := d.stmt_part
  expr_le _ := d.change.le_refl
  part_le _ _ _ := d.change.le_refl
  fail := d.fail
  literal := d.literal
  bind _ _ _ st _ := d.stack _ (d.change.refl st)
  register := d.register
  call := d.callWith_within

/-- What may be asked for. -/
def Admits : Request → Prop
  | .execute p => ∀ s ∈ p.statements, d.stmt s
  | .exec s => d.stmt s
  | .evaluate e => d.expr e
  | .call name _ => d.expr (.call name [])
  | .define f => d.stmt f.toStmt

/-- **A program keeps to the regime** if its statements may be run. -/
theorem execute_within (fuel : Nat) {p : Program} (h : ∀ s ∈ p.statements, d.stmt s) :
    (Interpreter.execute limit fuel p).Within d.change :=
  d.plan.executeAll_within fuel p.statements .absence fun s hs => ⟨h s hs, d.change.le_refl⟩

/-- **Every request that is admitted keeps to the regime.** -/
theorem request_within (fuel : Nat) {request : Request} (h : d.Admits request) :
    (request.run limit fuel).Within d.change := by
  cases request with
  | execute p => exact (d.execute_within fuel h).bind fun _ => Action.within_pure ()
  | exec s => exact (d.plan.exec_within fuel h).bind fun _ => Action.within_pure ()
  | evaluate e => exact (d.plan.eval_within fuel h).bind fun _ => Action.within_pure ()
  | call name values =>
    have hcall : (Interpreter.call limit fuel name values).Within d.change :=
      d.callWith_within (fun s hs => d.plan.exec_within fuel hs) h values
    exact hcall.bind fun _ => Action.within_pure ()
  | define f => exact Action.within_update (d.register f h)

end Regime

/-! ## 4. Changes that assume something of the table -/

/-- From a table of functions that have a property one comes to another, and what a change allows
happens on the way. -/
def Change.guarded (P : FunctionDef → Prop) (c : Change) : Change where
  holds st how st' := st.EachFunction P → st'.EachFunction P ∧ c.holds st how st'
  refl st h := ⟨h, c.refl st⟩
  trans h h₁ hst := ⟨(h₁ (h hst).1).1, c.trans (h hst).2 (h₁ (h hst).1).2⟩

/-- What leaves the table alone keeps what its functions have. -/
theorem Change.guarded_of_functions {P : FunctionDef → Prop} {c : Change} {st st' : State}
    {how : Option RunError} (h : st'.functions = st.functions) (hc : c.holds st how st') :
    (Change.guarded P c).holds st how st' := by
  intro hst
  refine ⟨?_, hc⟩
  unfold State.EachFunction
  rw [h]
  exact hst

/-- In the table of a fresh interpreter there is no function. -/
theorem State.eachFunction_fresh (P : FunctionDef → Prop) (console : Console) (files : Files) :
    State.EachFunction P { console := console, files := files } := by
  intro _ _ hf
  cases hf

end TreeScript
