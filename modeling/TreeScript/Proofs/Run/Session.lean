import TreeScript.Proofs.Run.Change
import TreeScript.Run.Interpreter

/-!
# Sessions

One interpreter may be asked for one thing after another: to execute a program or a statement, to
evaluate an expression, to call or to register a function.  A request that ends in an error leaves
a state like one that succeeds, and the next one starts there.

`Session.keeps` carries what every request keeps to the whole session.
-/

namespace TreeScript

/-- What an interpreter can be asked for. -/
inductive Request where
  | execute (p : Program)
  | exec (s : Stmt)
  | evaluate (e : Expr)
  | call (name : String) (arguments : List Value)
  | define (f : FunctionDef)

/-- The run of a request; only the state that it leaves matters here. -/
def Request.run (limit fuel : Nat) : Request → Action Unit
  | .execute p => do let _ ← Interpreter.execute limit fuel p
  | .exec s => do let _ ← Interpreter.exec limit fuel s
  | .evaluate e => do let _ ← Interpreter.eval limit fuel e
  | .call name arguments => do let _ ← Interpreter.call limit fuel name arguments
  | .define f => Interpreter.define f

/-- The state that an outcome leaves, in success or in failure. -/
def Outcome.state? {α : Type} : Outcome α → Option State
  | .done _ st => some st
  | .failed _ st => some st
  | .exhausted => none

/-- **A session**: from one state to another by requests that each end, with the fuel they need. -/
inductive Session (limit : Nat) : State → List Request → State → Prop where
  | nil (st : State) : Session limit st [] st
  | cons {st st₁ st₂ : State} {request : Request} {rest : List Request} (fuel : Nat)
      (ends : (request.run limit fuel st).state? = some st₁)
      (others : Session limit st₁ rest st₂) : Session limit st (request :: rest) st₂

theorem Outcome.Leaves.of_state? {α : Type} {outcome : Outcome α} {P : State → Prop} {st : State}
    (h : outcome.Leaves fun _ st => P st) (hst : outcome.state? = some st) : P st := by
  cases outcome with
  | done value st₁ =>
    cases hst
    exact h
  | failed error st₁ =>
    cases hst
    exact h
  | exhausted => cases hst

/-- **What every request keeps, a session keeps.** -/
theorem Session.keeps {limit : Nat} {P : State → Prop}
    (hP : ∀ (request : Request) (fuel : Nat) (st : State), P st →
      (request.run limit fuel st).Leaves fun _ st' => P st')
    {st st' : State} {requests : List Request} (h : Session limit st requests st') :
    P st → P st' := by
  induction h with
  | nil st => exact id
  | @cons st _ _ request _ fuel ends _ ih =>
    intro hst
    exact ih ((hP request fuel st hst).of_state? ends)

end TreeScript
