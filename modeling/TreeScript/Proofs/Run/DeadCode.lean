import TreeScript.Proofs.Run.Rewrite

/-!
# Code after a return is dead

A block ends at the first `return` among its statements, and what stands behind it is not reached:
`runAll_giveBack`.  So programs that differ only in such code, anywhere in them, run in the same way,
whatever that code would have done.  The program's own statements are no block: a `return` among
them stops nothing, and they have to correspond one by one.
-/

namespace TreeScript

/-! ## 1. Programs that differ in dead code -/

/-- Lists of statements that correspond one by one, up to a `return` at most; what stands behind it
in the one list and in the other is arbitrary. -/
inductive UpToReturn (Q : Stmt → Stmt → Prop) : List Stmt → List Stmt → Prop where
  | nil : UpToReturn Q [] []
  | cons {s s' : Stmt} {ss ss' : List Stmt} (head : Q s s') (rest : UpToReturn Q ss ss') :
    UpToReturn Q (s :: ss) (s' :: ss')
  | dead (value : Option Expr) (ss ss' : List Stmt) :
    UpToReturn Q (.giveBack value :: ss) (.giveBack value :: ss')

/-- **Statements that differ in dead code only**: in what stands behind a `return` in a block, at
any depth and in the bodies of functions too. -/
inductive Stmt.SameLive : Stmt → Stmt → Prop where
  | alike {s s' : Stmt} (h : Stmt.Alike Eq Stmt.SameLive s s') : Stmt.SameLive s s'
  | block {ss ss' : List Stmt} (h : UpToReturn Stmt.SameLive ss ss') :
    Stmt.SameLive (.block ss) (.block ss')

/-- Programs whose statements differ in dead code only. -/
def Program.SameLive (p q : Program) : Prop :=
  List.Forall₂ Stmt.SameLive p.statements q.statements

theorem UpToReturn.flip {Q : Stmt → Stmt → Prop} {ss ss' : List Stmt} (h : UpToReturn Q ss ss') :
    UpToReturn (flip Q) ss' ss := by
  induction h with
  | nil => exact .nil
  | cons head _ ih => exact .cons head ih
  | dead value ss ss' => exact .dead value ss' ss

/-! ## 2. A return ends a list -/

namespace Interpreter

/-- **What stands behind a `return` is not reached.** -/
theorem runAll_giveBack (limit fuel : Nat) (last : Value) (value : Option Expr)
    (rest : List Stmt) :
    Action.runAll (exec limit fuel) last (.giveBack value :: rest) =
      exec limit fuel (.giveBack value) := by
  funext st
  cases fuel with
  | zero => rw [Action.runAll_cons, exec.eq_1]; rfl
  | succ fuel =>
    rw [Action.runAll_cons, Action.bind_apply]
    cases value with
    | none => simp only [exec]; rfl
    | some e =>
      simp only [exec, Action.bind_apply]
      cases eval limit fuel e st <;> rfl

variable {S : Simulation} {Q : Stmt → Stmt → Prop} {limit fuel fuel' : Nat}

theorem runAll_upToReturn (hexec : ∀ s s', Q s s' → (exec limit fuel s).FollowedBy S
      (exec limit fuel' s'))
    (hreturn : ∀ value, Q (.giveBack value) (.giveBack value)) {ss ss' : List Stmt}
    (h : UpToReturn Q ss ss') : ∀ last, (Action.runAll (exec limit fuel) last ss).FollowedBy S
      (Action.runAll (exec limit fuel') last ss') := by
  induction h with
  | nil => exact fun last => Action.followedBy_pure _
  | cons head _ ih =>
    intro last
    refine (hexec _ _ head).bind fun signal => ?_
    cases signal with
    | normal value => exact ih value
    | returned value => exact Action.followedBy_pure _
  | dead value ss ss' =>
    intro last
    rw [runAll_giveBack, runAll_giveBack]
    exact hexec _ _ (hreturn value)

/-! ## 3. Whole programs -/

/-- Statements that are alike, or blocks up to a return, follow each other. -/
theorem run_upToReturn (hS : S.Supports limit Q)
    (hreturn : ∀ value, Q (.giveBack value) (.giveBack value))
    (hstmt : ∀ s s', Q s s' → Stmt.Alike Eq Q s s' ∨
      ∃ ss ss', s = .block ss ∧ s' = .block ss' ∧ UpToReturn Q ss ss') :
    ∀ bound, FollowsBelow S limit Eq Q 1 bound := by
  refine run_followedBy_of_stmts hS Nat.one_pos fun {m n} hle hbelow s s' h => ?_
  rcases hstmt s s' h with halike | ⟨ss, ss', rfl, rfl, hblock⟩
  · exact Or.inl halike
  · refine Or.inr ?_
    simp only [exec]
    exact runAll_upToReturn (hbelow m (Nat.lt_succ_self m) n hle).2 hreturn hblock .absence

theorem sameLive_giveBack (value : Option Expr) :
    Stmt.SameLive (.giveBack value) (.giveBack value) := by
  refine .alike (.giveBack ?_)
  cases value with
  | some e => exact .some rfl
  | none => exact .none

/-- **Code after a return is dead.**  Of two programs that differ only in what stands behind
`return` statements in their blocks, those in the bodies of their functions included, either both
run for ever or both end in the same report. -/
theorem dead_code (limit : Nat) (p q : Program) (h : p.SameLive q) (console : Console)
    (files : Files) (report : Report) :
    p.EndsIn limit console files report ↔ q.EndsIn limit console files report := by
  refine Program.endsIn_iff h (run_upToReturn supports_twin_all sameLive_giveBack ?_)
    (run_upToReturn supports_twin_all sameLive_giveBack ?_) console files report
  · intro s s' hs
    cases hs with
    | alike halike => exact Or.inl halike
    | block hblock => exact Or.inr ⟨_, _, rfl, rfl, hblock⟩
  · intro s' s hs
    cases hs with
    | alike halike => exact Or.inl halike.flip
    | block hblock => exact Or.inr ⟨_, _, rfl, rfl, hblock.flip⟩

/-- A program whose function returns from inside a loop, with some code behind the `return`. -/
def leaving (behind : List Stmt) : Program :=
  ⟨[.declare "f" [⟨"xs", none⟩]
      (.block [.loopEach "x" (.identifier "xs")
        (.block (.giveBack (some (.identifier "x")) :: behind)), .assign "y" .absence]),
    .evaluate (.call "f" [.sequence [.boolean true, .boolean false]])]⟩

/-- Behind it may stand a loop that never ends, or nothing. -/
theorem dead_code_leaving :
    (leaving [.loop (.boolean true) (.block [])]).SameLive (leaving []) ∧
      ∃ report : Report, report.result = .ok (.boolean true) ∧
        (leaving []).EndsIn 5 {} {} report ∧
        (leaving [.loop (.boolean true) (.block [])]).EndsIn 5 {} {} report := by
  have hblock : Stmt.SameLive
      (.block [.giveBack (some (.identifier "x")), .loop (.boolean true) (.block [])])
      (.block [.giveBack (some (.identifier "x"))]) := .block (.dead _ _ _)
  have hassign : Stmt.SameLive (.assign "y" .absence) (.assign "y" .absence) :=
    .alike (.assign "y" rfl)
  have hsame : (leaving [.loop (.boolean true) (.block [])]).SameLive (leaving []) :=
    .cons (.alike (.declare "f" _ (.block (.cons (.alike (.loopEach "x" rfl hblock))
      (.cons hassign .nil))))) (.cons (.alike (.evaluate rfl)) .nil)
  have hends : (leaving []).EndsIn 5 {} {} _ := ⟨9, rfl⟩
  exact ⟨hsame, _, rfl, hends, (dead_code 5 _ _ hsame {} {} _).mpr hends⟩

end Interpreter

end TreeScript
