import Mathlib.Logic.Relation
import TreeScript.Proofs.Run.Call
import TreeScript.Proofs.Run.Session

/-!
# The states that a run passes through

An outcome only shows the state in which a run ends, and a run that does not end shows none.  The
states in between are those in which an expression or a statement inside the run begins or ends:
`Starts` says which part of a task begins in which state, `Passes` closes it over the parts of the
parts, and `Reached` does so for a program.  A run whose end is never reached has reached states
all the same.

What a part finds when it begins follows from what the parts before it keep (`Starts.leads`).  So a
property has every state that is reached, if everything that runs stays within a change that keeps
it, and entering a call keeps it (`Reached.keeps`).
-/

namespace TreeScript

open Interpreter

/-! ## 1. Tasks -/

/-- An expression or a statement, with the fuel that is left for it. -/
inductive Task where
  | expr (fuel : Nat) (e : Expr)
  | stmt (fuel : Nat) (s : Stmt)

/-- The run of a task; only the state that it leaves matters here. -/
def Task.run (limit : Nat) : Task → Action Unit
  | .expr fuel e => do let _ ← eval limit fuel e
  | .stmt fuel s => do let _ ← exec limit fuel s

/-- One whole turn of a loop on a condition, after which the loop goes on. -/
def WhileTurn (condition : Action Value) (body : Action Signal) (st st' : State) : Prop :=
  ∃ v st₁ w, condition st = .done v st₁ ∧ v.isTruthy = true ∧ body st₁ = .done (.normal w) st'

/-- One whole turn of a counting loop, after which the loop goes on. -/
def CountingTurn (condition : Action Value) (body step : Action Signal) (st st' : State) : Prop :=
  ∃ st₁ w, WhileTurn condition body st st₁ ∧ step st₁ = .done (.normal w) st'

/-! ## 2. Where the parts of a task begin -/

/-- **The parts of a task**: the first task, run from the first state, comes to begin the second
task, one of its parts, in the second state. -/
inductive Starts (limit : Nat) : Task → State → Task → State → Prop where
  | left {n : Nat} {op : BinaryOp} {l r : Expr} {st : State} :
      Starts limit (.expr (n + 1) (.binary op l r)) st (.expr n l) st
  | right {n : Nat} {op : BinaryOp} {l r : Expr} {st st₁ : State} {a : Value}
      (hl : eval limit n l st = .done a st₁) (hand : op = .and → a.isTruthy = true)
      (hor : op = .or → a.isTruthy = false) :
      Starts limit (.expr (n + 1) (.binary op l r)) st (.expr n r) st₁
  | operand {n : Nat} {op : UnaryOp} {e : Expr} {st : State} :
      Starts limit (.expr (n + 1) (.unary op e)) st (.expr n e) st
  | argument {n : Nat} {name : String} {before after : List Expr} {e : Expr} {st st₁ : State}
      {vs : List Value} (hbefore : Action.collect (eval limit n) before st = .done vs st₁) :
      Starts limit (.expr (n + 1) (.call name (before ++ e :: after))) st (.expr n e) st₁
  | callee {n : Nat} {name : String} {arguments : List Expr} {st st₁ : State} {vs : List Value}
      {f : FunctionDef} (harguments : Action.collect (eval limit n) arguments st = .done vs st₁)
      (huser : Builtin.ofName? name = none) (hf : Entries.get? st₁.functions name = some f)
      (henough : f.parameters.length ≤ vs.length) (hroom : st₁.stack.depth ≤ limit) :
      Starts limit (.expr (n + 1) (.call name arguments)) st (.stmt n f.body)
        ((st₁.noteExtra f vs).enter f.name (parameterFrame f.parameters vs))
  | base {n : Nat} {b i : Expr} {st : State} :
      Starts limit (.expr (n + 1) (.index b i)) st (.expr n b) st
  | position {n : Nat} {b i : Expr} {st st₁ : State} {a : Value}
      (hb : eval limit n b st = .done a st₁) :
      Starts limit (.expr (n + 1) (.index b i)) st (.expr n i) st₁
  | element {n : Nat} {before after : List Expr} {e : Expr} {st st₁ : State} {vs : List Value}
      (hbefore : Action.collect (eval limit n) before st = .done vs st₁) :
      Starts limit (.expr (n + 1) (.sequence (before ++ e :: after))) st (.expr n e) st₁
  | entry {n : Nat} {before after : List (String × Expr)} {key : String} {e : Expr}
      {st st₁ : State} {vs : List Value}
      (hbefore : Action.collect (fun entry : String × Expr => eval limit n entry.2) before st =
        .done vs st₁) :
      Starts limit (.expr (n + 1) (.mapping (before ++ (key, e) :: after))) st (.expr n e) st₁
  | assigned {n : Nat} {name : String} {e : Expr} {st : State} :
      Starts limit (.stmt (n + 1) (.assign name e)) st (.expr n e) st
  | condition {n : Nat} {c : Expr} {t : Stmt} {e? : Option Stmt} {st : State} :
      Starts limit (.stmt (n + 1) (.branch c t e?)) st (.expr n c) st
  | thenBlock {n : Nat} {c : Expr} {t : Stmt} {e? : Option Stmt} {st st₁ : State} {a : Value}
      (hc : eval limit n c st = .done a st₁) (ha : a.isTruthy = true) :
      Starts limit (.stmt (n + 1) (.branch c t e?)) st (.stmt n t) st₁
  | elseBlock {n : Nat} {c : Expr} {t e : Stmt} {st st₁ : State} {a : Value}
      (hc : eval limit n c st = .done a st₁) (ha : a.isTruthy = false) :
      Starts limit (.stmt (n + 1) (.branch c t (some e))) st (.stmt n e) st₁
  | loopCondition {n : Nat} {c : Expr} {b : Stmt} {st st₁ : State}
      (hturns : Relation.ReflTransGen (WhileTurn (eval limit n c) (exec limit n b)) st st₁) :
      Starts limit (.stmt (n + 1) (.loop c b)) st (.expr n c) st₁
  | loopBody {n : Nat} {c : Expr} {b : Stmt} {st st₁ st₂ : State} {a : Value}
      (hturns : Relation.ReflTransGen (WhileTurn (eval limit n c) (exec limit n b)) st st₁)
      (hc : eval limit n c st₁ = .done a st₂) (ha : a.isTruthy = true) :
      Starts limit (.stmt (n + 1) (.loop c b)) st (.stmt n b) st₂
  | init {n : Nat} {i k b : Stmt} {c : Expr} {st : State} :
      Starts limit (.stmt (n + 1) (.loopFor i c k b)) st (.stmt n i) st
  | forCondition {n : Nat} {i k b : Stmt} {c : Expr} {st st₁ st₂ : State} {v : Value}
      (hi : exec limit n i st = .done (.normal v) st₁)
      (hturns : Relation.ReflTransGen
        (CountingTurn (eval limit n c) (exec limit n b) (exec limit n k)) st₁ st₂) :
      Starts limit (.stmt (n + 1) (.loopFor i c k b)) st (.expr n c) st₂
  | forBody {n : Nat} {i k b : Stmt} {c : Expr} {st st₁ st₂ st₃ : State} {v a : Value}
      (hi : exec limit n i st = .done (.normal v) st₁)
      (hturns : Relation.ReflTransGen
        (CountingTurn (eval limit n c) (exec limit n b) (exec limit n k)) st₁ st₂)
      (hc : eval limit n c st₂ = .done a st₃) (ha : a.isTruthy = true) :
      Starts limit (.stmt (n + 1) (.loopFor i c k b)) st (.stmt n b) st₃
  | increment {n : Nat} {i k b : Stmt} {c : Expr} {st st₁ st₂ st₃ : State} {v : Value}
      (hi : exec limit n i st = .done (.normal v) st₁)
      (hturns : Relation.ReflTransGen
        (CountingTurn (eval limit n c) (exec limit n b) (exec limit n k)) st₁ st₂)
      (hbody : WhileTurn (eval limit n c) (exec limit n b) st₂ st₃) :
      Starts limit (.stmt (n + 1) (.loopFor i c k b)) st (.stmt n k) st₃
  | collection {n : Nat} {item : String} {c : Expr} {b : Stmt} {st : State} :
      Starts limit (.stmt (n + 1) (.loopEach item c b)) st (.expr n c) st
  | eachBody {n : Nat} {item : String} {c : Expr} {b : Stmt} {st st₁ st₂ : State} {v a : Value}
      {before after : List Value} {w : Value} (hc : eval limit n c st = .done v st₁)
      (hitems : itemsOf v = .ok (before ++ a :: after))
      (hbefore : Action.runEach (fun v => do
        assign item v
        exec limit n b) before st₁ = .done (.normal w) st₂) :
      Starts limit (.stmt (n + 1) (.loopEach item c b)) st (.stmt n b)
        { st₂ with stack := st₂.stack.define item a }
  | given {n : Nat} {e : Expr} {st : State} :
      Starts limit (.stmt (n + 1) (.giveBack (some e))) st (.expr n e) st
  | evaluated {n : Nat} {e : Expr} {st : State} :
      Starts limit (.stmt (n + 1) (.evaluate e)) st (.expr n e) st
  | inBlock {n : Nat} {before after : List Stmt} {s : Stmt} {st st₁ : State} {v : Value}
      (hbefore : Action.runAll (exec limit n) .absence before st = .done (.normal v) st₁) :
      Starts limit (.stmt (n + 1) (.block (before ++ s :: after))) st (.stmt n s) st₁

/-! ## 3. Passing through a state -/

/-- A task, run from the first state, passes through the second: a part of it, or a part of a part,
begins or ends there. -/
inductive Passes (limit : Nat) : Task → State → State → Prop where
  | begins {t : Task} {st : State} : Passes limit t st st
  | ends {t : Task} {st st' : State} (h : (t.run limit st).state? = some st') :
      Passes limit t st st'
  | inside {t t₁ : Task} {st st₁ st' : State} (hstarts : Starts limit t st t₁ st₁)
      (hpasses : Passes limit t₁ st₁ st') : Passes limit t st st'

/-- **The states that the run of a program reaches**: where it begins, and all that its statements
pass through one after the other. -/
inductive Reached (limit fuel : Nat) : Program → State → State → Prop where
  | begins {p : Program} {st : State} : Reached limit fuel p st st
  | inside {before after : List Stmt} {s : Stmt} {st st₁ st' : State} {v : Value}
      (hbefore : executeAll limit fuel .absence before st = .done v st₁)
      (hpasses : Passes limit (.stmt fuel s) st₁ st') :
      Reached limit fuel ⟨before ++ s :: after⟩ st st'

/-! ## 4. What the parts of a task find -/

/-- The parts of a task keep a property from where they begin. -/
def Task.PartsKeep (limit : Nat) (P : State → Prop) (t : Task) (st : State) : Prop :=
  ∀ t₁ st₁, Starts limit t st t₁ st₁ → P st₁ → (t₁.run limit st₁).Leaves fun _ st' => P st'

section Leads

variable {limit : Nat} {P : State → Prop} {t : Task} {st : State}

theorem Task.PartsKeep.eval (h : t.PartsKeep limit P st) {n : Nat} {e : Expr} {st₁ : State}
    (hstarts : Starts limit t st (.expr n e) st₁) (hP : P st₁) :
    (eval limit n e st₁).Leaves fun _ st' => P st' := Action.leaves_discard.mp (h _ _ hstarts hP)

theorem Task.PartsKeep.exec (h : t.PartsKeep limit P st) {n : Nat} {s : Stmt} {st₁ : State}
    (hstarts : Starts limit t st (.stmt n s) st₁) (hP : P st₁) :
    (exec limit n s st₁).Leaves fun _ st' => P st' := Action.leaves_discard.mp (h _ _ hstarts hP)

/-- What a loop on a condition finds after some turns. -/
theorem Task.PartsKeep.whileTurns {n : Nat} {c : Expr} {b : Stmt}
    (h : Task.PartsKeep limit P (.stmt (n + 1) (.loop c b)) st) (hst : P st) {st₁ : State}
    (hturns : Relation.ReflTransGen
      (WhileTurn (Interpreter.eval limit n c) (Interpreter.exec limit n b)) st st₁) : P st₁ := by
  induction hturns with
  | refl => exact hst
  | tail hturns hlast ih =>
    obtain ⟨v, st₂, w, hc, hv, hb⟩ := hlast
    have hentered := (h.eval (.loopCondition hturns) ih).of_done hc
    exact (h.exec (.loopBody hturns hc hv) hentered).of_done hb

/-- What a counting loop finds after some turns. -/
theorem Task.PartsKeep.countingTurns {n : Nat} {i k b : Stmt} {c : Expr}
    (h : Task.PartsKeep limit P (.stmt (n + 1) (.loopFor i c k b)) st) (hst : P st)
    {st₁ st₂ : State} {v : Value} (hi : Interpreter.exec limit n i st = .done (.normal v) st₁)
    (hturns : Relation.ReflTransGen (CountingTurn (Interpreter.eval limit n c)
      (Interpreter.exec limit n b) (Interpreter.exec limit n k)) st₁ st₂) : P st₂ := by
  induction hturns with
  | refl => exact (h.exec .init hst).of_done hi
  | tail hturns hlast ih =>
    obtain ⟨st₃, w, hbody, hk⟩ := hlast
    obtain ⟨v, st₄, w', hc, hv, hb⟩ := id hbody
    have hentered := (h.eval (.forCondition hi hturns) ih).of_done hc
    have hturned := (h.exec (.forBody hi hturns hc hv) hentered).of_done hb
    exact (h.exec (.increment hi hturns hbody) hturned).of_done hk

/-- **What a part of a task finds** when it begins.  The parts that begin before it have to keep the
property from where they begin; binding a name has to keep it, and so has entering a call. -/
theorem Starts.leads (hassign : ∀ item v st, P st → P { st with stack := st.stack.define item v })
    (henter : ∀ (st : State) (f : FunctionDef) (arguments : List Value) (frame : Frame),
      st.stack.depth ≤ limit → P st → P ((st.noteExtra f arguments).enter f.name frame))
    {t₁ : Task} {st₁ : State} (hparts : t.PartsKeep limit P st) (h : Starts limit t st t₁ st₁)
    (hst : P st) : P st₁ := by
  cases h with
  | left => exact hst
  | right hl _ _ => exact (hparts.eval .left hst).of_done hl
  | operand => exact hst
  | argument hbefore =>
    refine Outcome.Leaves.of_done (Action.leaves_collect ?_ hst) hbefore
    intro before e after vs st₂ heq hdone
    exact hparts.eval (by simpa [heq] using Starts.argument hdone)
  | callee harguments _ _ _ hroom =>
    refine henter _ _ _ _ hroom (Outcome.Leaves.of_done (Action.leaves_collect ?_ hst) harguments)
    intro before e after vs st₂ heq hdone
    exact hparts.eval (by simpa [heq] using Starts.argument hdone)
  | base => exact hst
  | position hb => exact (hparts.eval .base hst).of_done hb
  | element hbefore =>
    refine Outcome.Leaves.of_done (Action.leaves_collect ?_ hst) hbefore
    intro before e after vs st₂ heq hdone
    exact hparts.eval (by simpa [heq] using Starts.element hdone)
  | entry hbefore =>
    refine Outcome.Leaves.of_done (Action.leaves_collect ?_ hst) hbefore
    rintro before ⟨key, e⟩ after vs st₂ heq hdone
    exact hparts.eval (by simpa [heq] using Starts.entry hdone)
  | assigned => exact hst
  | condition => exact hst
  | thenBlock hc _ => exact (hparts.eval .condition hst).of_done hc
  | elseBlock hc _ => exact (hparts.eval .condition hst).of_done hc
  | loopCondition hturns => exact hparts.whileTurns hst hturns
  | loopBody hturns hc _ =>
    exact (hparts.eval (.loopCondition hturns) (hparts.whileTurns hst hturns)).of_done hc
  | init => exact hst
  | forCondition hi hturns => exact hparts.countingTurns hst hi hturns
  | forBody hi hturns hc _ =>
    have hturned := hparts.countingTurns hst hi hturns
    exact (hparts.eval (.forCondition hi hturns) hturned).of_done hc
  | increment hi hturns hbody =>
    obtain ⟨v, st₄, w', hc, hv, hb⟩ := hbody
    have hturned := hparts.countingTurns hst hi hturns
    have hentered := (hparts.eval (.forCondition hi hturns) hturned).of_done hc
    exact (hparts.exec (.forBody hi hturns hc hv) hentered).of_done hb
  | collection => exact hst
  | eachBody hc hitems hbefore =>
    have hcollected := (hparts.eval .collection hst).of_done hc
    refine hassign _ _ _ (Outcome.Leaves.of_done (Action.leaves_runEach ?_ hcollected) hbefore)
    intro before a after w st₂ heq hdone hP
    refine Action.leaves_bind (hassign _ _ _ hP) fun _ st₃ hbound hP' => ?_
    cases hbound
    exact hparts.exec (.eachBody hc (by simpa [heq] using hitems) hdone) hP'
  | given => exact hst
  | evaluated => exact hst
  | inBlock hbefore =>
    refine Outcome.Leaves.of_done (Action.leaves_runAll ?_ hst) hbefore
    intro before s after v st₂ heq hdone
    exact hparts.exec (by simpa [heq] using Starts.inBlock hdone)

end Leads

/-! ## 5. What every state that is reached has -/

section Keeps

variable {limit : Nat} {c : Change} {P : State → Prop}

/-- A property that a change keeps is found after an action that ended within the change. -/
theorem Action.Within.keeps {α : Type} {x : Action α} {v : α} {st st' : State} (hx : x.Within c)
    (hP : ∀ {st st' : State} {how : Option RunError}, c.holds st how st' → P st → P st')
    (hrun : x st = .done v st') : P st → P st' := by
  have hst := hx st
  rw [hrun] at hst
  exact hP hst

variable (heval : ∀ n e, (eval limit n e).Within c) (hexec : ∀ n s, (exec limit n s).Within c)
  (hassign : ∀ item v, (assign item v).Within c)
  (hP : ∀ {st st' : State} {how : Option RunError}, c.holds st how st' → P st → P st')
  (henter : ∀ (st : State) (f : FunctionDef) (arguments : List Value) (frame : Frame),
    st.stack.depth ≤ limit → P st → P ((st.noteExtra f arguments).enter f.name frame))

include heval hexec hP in
/-- Whatever runs keeps the property. -/
theorem Task.run_keeps (t : Task) {st : State} (hst : P st) :
    (t.run limit st).Leaves fun _ st' => P st' := by
  have hrun : (t.run limit).Within c := by
    cases t with
    | expr n e => exact (heval n e).bind fun _ => Action.within_pure ()
    | stmt n s => exact (hexec n s).bind fun _ => Action.within_pure ()
  exact (hrun st).mono fun _ _ hchange => hP hchange hst

include heval hexec hassign hP henter in
/-- **What a part of a task finds** when it begins, if everything that runs stays within a change
that keeps the property, and calls that are let in keep it. -/
theorem Starts.keeps {t t₁ : Task} {st st₁ : State} (h : Starts limit t st t₁ st₁) :
    P st → P st₁ :=
  h.leads (fun item v _ => (hassign item v).keeps hP rfl) henter
    fun t₁ _ _ => t₁.run_keeps heval hexec hP

include heval hexec hassign hP henter in
/-- **What every state has that the run of a program reaches.** -/
theorem Reached.keeps {fuel : Nat} {p : Program} {st st' : State}
    (h : Reached limit fuel p st st') : P st → P st' := by
  have hpasses : ∀ {t : Task} {st st' : State}, Passes limit t st st' → P st → P st' := by
    intro t st st' h
    induction h with
    | begins => exact id
    | @ends t st st' h =>
      exact fun hst => (t.run_keeps heval hexec hP hst).of_state? h
    | inside hstart _ ih =>
      exact fun hst => ih (hstart.keeps heval hexec hassign hP henter hst)
  have hbefore : ∀ (before : List Stmt) (last : Value),
      (executeAll limit fuel last before).Within c := by
    intro before
    induction before with
    | nil => exact fun _ => Action.within_pure _
    | cons s rest ih => exact fun _ => (hexec fuel s).bind fun signal => ih signal.value
  intro hst
  cases h with
  | begins => exact hst
  | inside hdone hpass => exact hpasses hpass ((hbefore _ _).keeps hP hdone hst)

end Keeps

end TreeScript
