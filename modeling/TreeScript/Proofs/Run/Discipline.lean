import TreeScript.Proofs.Run.Call
import TreeScript.Proofs.Run.Plan

/-!
# From steps to whole runs

A `Discipline` says what an expression may change and what each statement may change, and shows it
for the few steps that touch the state: a failure, a record in the log, output, files, a binding, a
registration, and a call whose body keeps to the discipline.  Then every expression and every
statement keeps to it, however long it runs and however it ends (`Discipline.eval_within`,
`Discipline.exec_within`): it is a `Plan` for everything.
-/

namespace TreeScript

/-! ## 1. Disciplines -/

/-- Records of a mishap: they tell neither of a registration nor of a call. -/
def Record.IsMishap (record : Record) : Prop := record.level = .warn ∨ record.level = .error

/-- What expressions and statements may change, and that the steps of a run keep to it. -/
structure Discipline (limit : Nat) where
  ofExpr : Change
  ofStmt : Stmt → Change
  expr_le : ∀ s, ofExpr ≤ ofStmt s
  part_le : ∀ s, ∀ t ∈ s.parts, ofStmt t ≤ ofStmt s
  fail : ∀ error : RunError, error.IsOrdinary → ∀ st, ofExpr.holds st (some error) st
  note : ∀ record : Record, record.IsMishap → ∀ st, ofExpr.holds st none (st.note record)
  console : ∀ st console, ofExpr.holds st none { st with console := console }
  files : ∀ st files, ofExpr.holds st none { st with files := files }
  bind : ∀ s, ∀ name ∈ s.binds, ∀ st value,
    (ofStmt s).holds st none { st with stack := st.stack.define name value }
  register : ∀ f : FunctionDef, ∀ st, (ofStmt f.toStmt).holds st none (st.register f)
  call : ∀ (run : Stmt → Action Signal) (f : FunctionDef) (arguments : List Value),
    (run f.body).Within (ofStmt f.body) →
      (Interpreter.callFunction limit run f arguments).Within ofExpr

namespace Discipline

variable {limit : Nat} (d : Discipline limit)

/-! ## 2. Steps -/

/-- **A built-in function keeps to the discipline.** -/
theorem builtin_within (b : Builtin) (arguments : List Value) :
    (b.call arguments).Within d.ofExpr :=
  Builtin.call_within (fun error h => d.fail error (RunError.isOrdinary_of_isPlain h))
    (fun record h => d.note record (Or.inl h)) b arguments
    (fun _ => Builtin.printLine_within d.console fun _ => d.fail _ ⟨nofun, nofun⟩)
    (fun _ => Builtin.readRows_within d.note)
    (fun _ => Builtin.writeRows_within d.note d.files)

theorem callWith_within {run : Stmt → Action Signal}
    (hrun : ∀ s, (run s).Within (d.ofStmt s)) (name : String) (arguments : List Value) :
    (Interpreter.callWith limit run name arguments).Within d.ofExpr := by
  unfold Interpreter.callWith
  cases Builtin.ofName? name with
  | some b => exact d.builtin_within b arguments
  | none =>
    refine Action.within_state.bind fun st => ?_
    cases Entries.get? st.functions name with
    | some f => exact d.call run f arguments (hrun f.body)
    | none => exact Action.within_fail (d.fail _ ⟨nofun, nofun⟩)

/-! ## 3. Runs -/

/-- A discipline is a plan for everything. -/
def plan : Plan limit where
  expr _ := True
  stmt _ := True
  ofExpr := d.ofExpr
  ofStmt := d.ofStmt
  expr_part _ _ := trivial
  stmt_expr _ _ := trivial
  stmt_part _ _ := trivial
  expr_le := d.expr_le
  part_le := d.part_le
  fail error h := d.fail error (RunError.isOrdinary_of_isPlain h)
  literal _ := Action.within_ofResult fun error h =>
    d.fail error (RunError.isOrdinary_of_kind (Value.kind_of_ofLiteral h))
  bind := d.bind
  register f _ := d.register f
  call hexec name _ _ values := d.callWith_within (fun s => hexec s trivial) name values

/-- **Every expression keeps to the discipline.** -/
theorem eval_within (fuel : Nat) (e : Expr) :
    (Interpreter.eval limit fuel e).Within d.ofExpr := d.plan.eval_within fuel trivial

/-- **Every statement keeps to the discipline.** -/
theorem exec_within (fuel : Nat) (s : Stmt) :
    (Interpreter.exec limit fuel s).Within (d.ofStmt s) := d.plan.exec_within fuel trivial

/-- Every call from outside keeps to the discipline. -/
theorem call_within (fuel : Nat) (name : String) (arguments : List Value) :
    (Interpreter.call limit fuel name arguments).Within d.ofExpr :=
  d.callWith_within (d.exec_within fuel) name arguments

/-- A program keeps to what all of its statements may change. -/
theorem execute_within {c : Change} (fuel : Nat) (p : Program)
    (h : ∀ s ∈ p.statements, d.ofStmt s ≤ c) :
    (Interpreter.execute limit fuel p).Within c :=
  d.plan.executeAll_within fuel p.statements _ fun s hs => ⟨trivial, h s hs⟩

end Discipline

end TreeScript
