import TreeScript.Proofs.Run.Rewrite

/-!
# The logical operators are dual

`a && b` is `!(!a || !b)` and `a || b` is `!(!a && !b)`, effects included.  Both operators run their
left operand, stop if its truth decides the answer (`Action.shortCircuit`), and else answer with the
truth of the right one.  They do not see the values of the operands but only whether they are true,
and answer with a truth value, so that the negations cancel out: `negated_shortCircuit_negated`.  In
both forms the operands are the same actions; the longer one has two units of fuel less for them.

As an operand may call a function whose body has been rewritten as well, whole programs are compared
by the simulation of all rewritten programs.
-/

namespace TreeScript

/-! ## 1. Operands as actions -/

namespace Action

/-- An operator that a left operand of the truth `stop` decides.  Otherwise, and only then, the right
operand is run, once, and its truth is the answer. -/
def shortCircuit (stop : Bool) (x y : Action Value) : Action Value := do
  if (← x).isTruthy = stop then return .boolean stop else return .boolean (← y).isTruthy

/-- The truth of an operand, negated. -/
def negated (x : Action Value) : Action Value := do
  return .boolean !(← x).isTruthy

theorem pure_bind_apply {α β : Type} (a : α) (f : α → Action β) : pure a >>= f = f a := rfl

theorem isTruthy_boolean (b : Bool) : (Value.boolean b).isTruthy = b := rfl

/-- **Negations around the one operator and before its operands** make the other one of it. -/
theorem negated_shortCircuit_negated (stop : Bool) (x y : Action Value) :
    negated (shortCircuit (!stop) (negated x) (negated y)) = shortCircuit stop x y := by
  unfold negated shortCircuit
  rw [bind_assoc_apply, bind_assoc_apply]
  refine congrArg (x >>= ·) (funext fun v => ?_)
  simp only [pure_bind_apply, isTruthy_boolean, Bool.not_inj_iff]
  split
  · rw [pure_bind_apply, isTruthy_boolean, Bool.not_not]
  · simp only [bind_assoc_apply, pure_bind_apply, isTruthy_boolean, Bool.not_not]

theorem shortCircuit_followedBy {S : Simulation} {x x' y y' : Action Value} (stop : Bool)
    (hx : x.FollowedBy S x') (hy : y.FollowedBy S y') :
    (shortCircuit stop x y).FollowedBy S (shortCircuit stop x' y') := by
  refine hx.bind fun v => ?_
  split
  · exact followedBy_pure _
  · exact hy.bind fun _ => followedBy_pure _

/-- Without fuel for the left operand there is none for the answer. -/
theorem shortCircuit_exhaust (stop : Bool) (y : Action Value) :
    shortCircuit stop exhaust y = exhaust := rfl

end Action

/-! ## 2. One operator -/

/-- The logical operator that a left operand of this truth decides. -/
def BinaryOp.logical : (stop : Bool) → BinaryOp
  | false => .and
  | true => .or

/-- The other operator between negations. -/
def Expr.dual (stop : Bool) (left right : Expr) : Expr :=
  .unary .not (.binary (.logical !stop) (.unary .not left) (.unary .not right))

namespace Interpreter

theorem eval_logical (limit fuel : Nat) (stop : Bool) (a b : Expr) :
    eval limit (fuel + 1) (.binary (.logical stop) a b) =
      Action.shortCircuit stop (eval limit fuel a) (eval limit fuel b) := by
  unfold Action.shortCircuit
  cases stop with
  | true => simp only [BinaryOp.logical, eval]
  | false =>
    simp only [BinaryOp.logical, eval]
    refine congrArg (eval limit fuel a >>= ·) (funext fun v => ?_)
    cases v.isTruthy <;> rfl

theorem eval_not (limit fuel : Nat) (e : Expr) :
    eval limit (fuel + 1) (.unary .not e) = Action.negated (eval limit fuel e) := by
  simp only [eval]
  rfl

/-- **The dual form runs the same operands**, with two units of fuel less. -/
theorem eval_dual (limit fuel : Nat) (stop : Bool) (a b : Expr) :
    eval limit (fuel + 3) (.dual stop a b) =
      Action.shortCircuit stop (eval limit fuel a) (eval limit fuel b) := by
  unfold Expr.dual
  rw [eval_not, eval_logical, eval_not, eval_not, Action.negated_shortCircuit_negated]

/-- With too little fuel for its operands the dual form runs out of it. -/
theorem eval_dual_exhausted {limit fuel : Nat} (h : fuel < 3) (stop : Bool) (a b : Expr) :
    eval limit fuel (.dual stop a b) = Action.exhaust := by
  unfold Expr.dual
  match fuel with
  | 0 => rw [eval.eq_1]
  | 1 =>
    rw [eval_not, eval.eq_1]
    rfl
  | 2 =>
    rw [eval_not, eval_logical, eval.eq_1, Action.shortCircuit_exhaust]
    rfl

end Interpreter

/-! ## 3. Programs that differ in logical operators -/

/-- **Expressions that differ in logical operators**: some of those of the first are in the second
the other operator between negations, at any depth. -/
inductive Expr.DeMorgan : Expr → Expr → Prop where
  | alike {e e' : Expr} (h : Expr.Alike Expr.DeMorgan e e') : Expr.DeMorgan e e'
  | and {a a' b b' : Expr} (left : Expr.DeMorgan a a') (right : Expr.DeMorgan b b') :
    Expr.DeMorgan (.binary .and a b)
      (.unary .not (.binary .or (.unary .not a') (.unary .not b')))
  | or {a a' b b' : Expr} (left : Expr.DeMorgan a a') (right : Expr.DeMorgan b b') :
    Expr.DeMorgan (.binary .or a b)
      (.unary .not (.binary .and (.unary .not a') (.unary .not b')))

/-- Statements whose expressions differ in logical operators, those in the bodies of functions
included. -/
inductive Stmt.DeMorgan : Stmt → Stmt → Prop where
  | alike {s s' : Stmt} (h : Stmt.Alike Expr.DeMorgan Stmt.DeMorgan s s') : Stmt.DeMorgan s s'

/-- Programs whose expressions differ in logical operators. -/
def Program.DeMorgan (p q : Program) : Prop :=
  List.Forall₂ Stmt.DeMorgan p.statements q.statements

theorem Expr.deMorgan_self (e : Expr) : Expr.DeMorgan e e := Expr.self_of_alike .alike e

theorem Stmt.deMorgan_self (s : Stmt) : Stmt.DeMorgan s s :=
  Stmt.self_of_alike Expr.deMorgan_self .alike s

/-- Expressions that differ are alike, or an operator and its dual form. -/
theorem Expr.DeMorgan.alike_or_dual {e e' : Expr} (h : Expr.DeMorgan e e') :
    Expr.Alike Expr.DeMorgan e e' ∨ ∃ stop a b a' b', e = .binary (.logical stop) a b ∧
      e' = .dual stop a' b' ∧ Expr.DeMorgan a a' ∧ Expr.DeMorgan b b' := by
  cases h with
  | alike halike => exact Or.inl halike
  | and left right => exact Or.inr ⟨false, _, _, _, _, rfl, rfl, left, right⟩
  | or left right => exact Or.inr ⟨true, _, _, _, _, rfl, rfl, left, right⟩

/-! ## 4. Whole programs -/

namespace Interpreter

variable {S : Simulation} {limit : Nat}

/-- The program with the dual forms follows the other one, with three times the fuel. -/
theorem run_followedBy_deMorgan (hS : S.Supports limit Stmt.DeMorgan) :
    ∀ bound, FollowsBelow S limit Expr.DeMorgan Stmt.DeMorgan 3 bound := by
  refine run_followedBy hS (by decide) (fun {fuel fuel'} hfuel hbelow e e' h => ?_)
    fun _ _ s s' h => ?_
  · rcases h.alike_or_dual with halike | ⟨stop, a, b, a', b', rfl, rfl, left, right⟩
    · exact Or.inl halike
    refine Or.inr ?_
    cases fuel with
    | zero =>
      rw [eval.eq_1]
      exact Action.followedBy_exhaust _
    | succ m =>
      obtain ⟨n, rfl⟩ : ∃ n, fuel' = n + 3 := ⟨fuel' - 3, by omega⟩
      have hoperand := (hbelow m (by omega) n (by omega)).1
      rw [eval_logical, eval_dual]
      exact Action.shortCircuit_followedBy stop (hoperand a a' left) (hoperand b b' right)
  · cases h with
    | alike halike => exact Or.inl halike

/-- The program without the dual forms follows the other one, with the same fuel. -/
theorem deMorgan_followedBy_run (hS : S.Supports limit (flip Stmt.DeMorgan)) :
    ∀ bound, FollowsBelow S limit (flip Expr.DeMorgan) (flip Stmt.DeMorgan) 1 bound := by
  refine run_followedBy hS (by decide) (fun {fuel fuel'} hfuel hbelow e' e h => ?_)
    fun _ _ s' s h => ?_
  · rcases Expr.DeMorgan.alike_or_dual h with halike | ⟨stop, a, b, a', b', rfl, rfl, left, right⟩
    · exact Or.inl halike.converse
    refine Or.inr ?_
    rcases Nat.lt_or_ge fuel 3 with hfew | henough
    · rw [eval_dual_exhausted hfew]
      exact Action.followedBy_exhaust _
    · obtain ⟨m, rfl⟩ : ∃ m, fuel = m + 3 := ⟨fuel - 3, by omega⟩
      obtain ⟨n, rfl⟩ : ∃ n, fuel' = n + 1 := ⟨fuel' - 1, by omega⟩
      have hoperand := (hbelow m (by omega) n (by omega)).1
      rw [eval_logical, eval_dual]
      exact Action.shortCircuit_followedBy stop (hoperand a' a left) (hoperand b' b right)
  · cases h with
    | alike halike => exact Or.inl halike.converse

/-- **The logical operators are dual**, effects included.  Each of them and its dual form evaluate
the left operand, and the right one once if the left one does not decide the answer; they differ in
the fuel that is left for the operands.  And of two programs that differ only in logical operators and
their dual forms, anywhere in them and in the bodies of their functions, either both run for ever or
both end in the same report. -/
theorem logical_operators_dual (limit : Nat) :
    (∀ (a b : Expr) (fuel : Nat),
      eval limit (fuel + 1) (.binary .and a b) =
        Action.shortCircuit false (eval limit fuel a) (eval limit fuel b) ∧
      eval limit (fuel + 3) (.unary .not (.binary .or (.unary .not a) (.unary .not b))) =
        Action.shortCircuit false (eval limit fuel a) (eval limit fuel b) ∧
      eval limit (fuel + 1) (.binary .or a b) =
        Action.shortCircuit true (eval limit fuel a) (eval limit fuel b) ∧
      eval limit (fuel + 3) (.unary .not (.binary .and (.unary .not a) (.unary .not b))) =
        Action.shortCircuit true (eval limit fuel a) (eval limit fuel b)) ∧
    ∀ p q : Program, p.DeMorgan q → ∀ (console : Console) (files : Files) (report : Report),
      p.EndsIn limit console files report ↔ q.EndsIn limit console files report := by
  constructor
  · intro a b fuel
    exact ⟨eval_logical limit fuel false a b, eval_dual limit fuel false a b,
      eval_logical limit fuel true a b, eval_dual limit fuel true a b⟩
  · intro p q h console files report
    exact Program.endsIn_iff h (run_followedBy_deMorgan supports_twin_all)
      (deMorgan_followedBy_run supports_twin_all) console files report

/-- A program that asks a function for two answers.  The function prints what it is asked, and fails
if that is not true. -/
def asking (conjunction disjunction : Expr → Expr → Expr) : Program :=
  ⟨[.declare "f" [⟨"x", none⟩]
      (.block [.evaluate (.call "print" [.identifier "x"]),
        .giveBack (some (disjunction (.identifier "x") (.identifier "missing")))]),
    .evaluate (conjunction (.call "f" [.boolean true]) (.call "f" [.boolean false]))]⟩

/-- The second answer is asked for, and fails, in either form. -/
theorem logical_operators_dual_asking :
    (asking (.binary .and) (.binary .or)).DeMorgan (asking (.dual false) (.dual true)) ∧
      ∃ report : Report, report.result = .error (.unboundName "missing") ∧
        report.console.text = "true\nfalse\n" ∧
        (asking (.binary .and) (.binary .or)).EndsIn 5 {} {} report ∧
        (asking (.dual false) (.dual true)).EndsIn 5 {} {} report := by
  have hbody : Stmt.DeMorgan _ _ :=
    .alike (.block (.cons (Stmt.deMorgan_self (.evaluate (.call "print" [.identifier "x"])))
      (.cons (.alike (.giveBack (.some (.or (Expr.deMorgan_self (.identifier "x"))
        (Expr.deMorgan_self (.identifier "missing")))))) .nil)))
  have hdual : (asking (.binary .and) (.binary .or)).DeMorgan (asking (.dual false) (.dual true)) :=
    .cons (.alike (.declare "f" _ hbody)) (.cons (.alike (.evaluate
      (.and (Expr.deMorgan_self _) (Expr.deMorgan_self _)))) .nil)
  have hends : (asking (.binary .and) (.binary .or)).EndsIn 5 {} {} _ := ⟨9, rfl⟩
  obtain ⟨-, hprograms⟩ := logical_operators_dual 5
  exact ⟨hdual, _, rfl, rfl, hends, (hprograms _ _ hdual {} {} _).mp hends⟩

end Interpreter

end TreeScript
