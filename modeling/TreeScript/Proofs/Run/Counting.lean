import TreeScript.Proofs.Run.Rewrite

/-!
# A counting loop is its expansion

`for (init; condition; increment) body` is short for a block that executes `init` and then, as long
as `condition` holds, a block of `body` and `increment`.  The interpreter has a loop of its own for
it.  `Action.runCounting_eq_runWhile` says that this loop is a conditional loop whose body is the
list of the two; the rest is fuel, of which the expansion needs two units more for every loop.

The two directions are not the same statement turned round: an expanded loop is three trees inside
one another, and the counting loop that it came from has to do with what the innermost one has.
Both are shown for any simulation, once for loops whose parts are equal and once for loops whose
parts are expanded themselves.
-/

namespace TreeScript

/-! ## 1. The two loops -/

namespace Action

/-- A list of one statement runs as the statement does. -/
theorem runAll_singleton {α : Type} (run : α → Action Signal) (last : Value) (s : α) :
    runAll run last [s] = run s := by
  funext st
  rw [runAll_cons, bind_apply]
  cases run s st with
  | done signal st' => cases signal <;> rfl
  | failed error st' => rfl
  | exhausted => rfl

/-- **A counting loop is a conditional loop** over its body and its step. -/
theorem runCounting_eq_runWhile (condition : Action Value) (body step : Action Signal) :
    ∀ turns, runCounting condition body step turns =
      runWhile condition (runAll id .absence [body, step]) turns
  | 0 => rfl
  | turns + 1 => by
    have ih := runCounting_eq_runWhile condition body step turns
    unfold runCounting runWhile
    refine congrArg (condition >>= ·) (funext fun value => ?_)
    split
    · rw [runAll_cons, bind_assoc_apply]
      refine congrArg (body >>= ·) (funext fun signal => ?_)
      cases signal with
      | returned v => rfl
      | normal v =>
        rw [ih]
        exact congrArg (· >>= _) (runAll_singleton id v step).symm
    · rfl

end Action

/-! ## 2. One loop -/

/-- **The expansion of a counting loop.** -/
def Stmt.expansion (init : Stmt) (condition : Expr) (increment body : Stmt) : Stmt :=
  .block [init, .loop condition (.block [body, increment])]

namespace Interpreter

section Loop

variable {S : Simulation} {limit m n : Nat} {i i' k k' b b' : Stmt} {c c' : Expr}

/-- The body and the step of a loop, as two actions and as a block. -/
theorem runAll_pair_followedBy {x y x' y' : Action Signal} (hx : x.FollowedBy S x')
    (hy : y.FollowedBy S y') :
    (Action.runAll id .absence [x, y]).FollowedBy S (Action.runAll id .absence [x', y']) :=
  Action.followedBy_runAll (fun _ _ h => h) .absence (.cons hx (.cons hy .nil))

theorem exec_block_pair (limit m : Nat) (s t : Stmt) :
    exec limit (m + 1) (.block [s, t]) =
      Action.runAll id .absence [exec limit m s, exec limit m t] := by
  simp only [exec]
  rfl

theorem exec_loop (limit m : Nat) (c : Expr) (s : Stmt) :
    exec limit (m + 1) (.loop c s) = Action.runWhile (eval limit m c) (exec limit m s) m := by
  simp only [exec]

theorem exec_loopFor (limit m : Nat) (i : Stmt) (c : Expr) (k b : Stmt) :
    exec limit (m + 1) (.loopFor i c k b) = Action.runAll id .absence [exec limit m i,
      Action.runWhile (eval limit m c)
        (Action.runAll id .absence [exec limit m b, exec limit m k]) m] := by
  simp only [exec]
  rw [Action.runAll_cons]
  refine congrArg (exec limit m i >>= ·) (funext fun signal => ?_)
  cases signal with
  | returned v => rfl
  | normal v =>
    rw [Action.runCounting_eq_runWhile]
    exact (Action.runAll_singleton id v _).symm

/-- **The expansion follows the loop** with two units of fuel more. -/
theorem loopFor_followedBy_expansion (hle : m ≤ n)
    (hi : (exec limit m i).FollowedBy S (exec limit (n + 2) i'))
    (hc : (eval limit m c).FollowedBy S (eval limit (n + 1) c'))
    (hk : (exec limit m k).FollowedBy S (exec limit n k'))
    (hb : (exec limit m b).FollowedBy S (exec limit n b')) :
    (exec limit (m + 1) (.loopFor i c k b)).FollowedBy S
      (exec limit (n + 3) (.expansion i' c' k' b')) := by
  unfold Stmt.expansion
  rw [exec_loopFor, exec_block_pair, exec_loop, exec_block_pair]
  exact runAll_pair_followedBy hi
    (Action.followedBy_runWhile hc (runAll_pair_followedBy hb hk) (by omega))

/-- **The loop follows its expansion** with the same fuel. -/
theorem expansion_followedBy_loopFor (hle : m ≤ n)
    (hi : (exec limit m i).FollowedBy S (exec limit n i'))
    (hc : ∀ l < m, (eval limit l c).FollowedBy S (eval limit n c'))
    (hk : ∀ l < m, (exec limit l k).FollowedBy S (exec limit n k'))
    (hb : ∀ l < m, (exec limit l b).FollowedBy S (exec limit n b')) :
    (exec limit (m + 1) (.expansion i c k b)).FollowedBy S
      (exec limit (n + 1) (.loopFor i' c' k' b')) := by
  unfold Stmt.expansion
  rw [exec_loopFor, exec_block_pair]
  refine runAll_pair_followedBy hi ?_
  -- what is left of the fuel inside the loop: nothing, or one unit, or enough for a turn
  match m with
  | 0 =>
    rw [exec.eq_1]
    exact Action.followedBy_exhaust _
  | 1 =>
    rw [exec_loop]
    exact Action.followedBy_exhaust _
  | l + 2 =>
    rw [exec_loop, exec_block_pair]
    exact Action.followedBy_runWhile (hc (l + 1) (by omega))
      (runAll_pair_followedBy (hb l (by omega)) (hk l (by omega))) (by omega)

end Loop

end Interpreter

/-! ## 3. Every loop of a program -/

/-- A counting loop expanded; all other statements stay as they are. -/
def Stmt.expandCounting : Stmt → Stmt
  | .loopFor init condition increment body => .expansion init condition increment body
  | s => s

/-- A program with all its counting loops expanded. -/
def Program.expandCounting (p : Program) : Program := p.rewrite Stmt.expandCounting

/-- A statement that is no counting loop is expanded by expanding its parts. -/
theorem Stmt.alike_or_counting {s s' : Stmt} (h : s.RewritesTo Stmt.expandCounting s') :
    Stmt.Alike Eq (Stmt.RewritesTo Stmt.expandCounting) s s' ∨
      ∃ i c k b i' k' b', s = .loopFor i c k b ∧ s' = Stmt.expansion i' c k' b' ∧
        i.RewritesTo Stmt.expandCounting i' ∧ k.RewritesTo Stmt.expandCounting k' ∧
        b.RewritesTo Stmt.expandCounting b' := by
  obtain ⟨t, halike, ht⟩ := Stmt.exists_alike_rewrite Stmt.expandCounting s
  obtain rfl : Stmt.expandCounting t = s' := ht.symm.trans h
  cases halike with
  | loopFor hi hc hk hb =>
    subst hc
    exact Or.inr ⟨_, _, _, _, _, _, _, rfl, rfl, hi, hk, hb⟩
  | assign name value => exact Or.inl (.assign name value)
  | branch condition thenBlock elseBlock => exact Or.inl (.branch condition thenBlock elseBlock)
  | loop condition body => exact Or.inl (.loop condition body)
  | loopEach item collection body => exact Or.inl (.loopEach item collection body)
  | declare name parameters body => exact Or.inl (.declare name parameters body)
  | giveBack value => exact Or.inl (.giveBack value)
  | evaluate expr => exact Or.inl (.evaluate expr)
  | block statements => exact Or.inl (.block statements)

namespace Interpreter

/-- A program expanded follows the program, with three times the fuel. -/
theorem run_followedBy_expanded {S : Simulation} {limit : Nat}
    (hS : S.Supports limit (Stmt.RewritesTo Stmt.expandCounting)) :
    ∀ bound, FollowsBelow S limit Eq (Stmt.RewritesTo Stmt.expandCounting) 3 bound := by
  refine run_followedBy_of_stmts hS (by decide) fun {m n} hle hbelow s s' h => ?_
  rcases Stmt.alike_or_counting h with halike | ⟨i, c, k, b, i', k', b', rfl, rfl, hi, hk, hb⟩
  · exact Or.inl halike
  · have hlt : m < m + 1 := Nat.lt_succ_self m
    exact Or.inr (loopFor_followedBy_expansion (by omega)
      ((hbelow m hlt (n + 2) (by omega)).2 i i' hi) ((hbelow m hlt (n + 1) (by omega)).1 c c rfl)
      ((hbelow m hlt n hle).2 k k' hk) ((hbelow m hlt n hle).2 b b' hb))

/-- A program follows the program expanded, with the same fuel. -/
theorem expanded_followedBy_run {S : Simulation} {limit : Nat}
    (hS : S.Supports limit (flip (Stmt.RewritesTo Stmt.expandCounting))) :
    ∀ bound, FollowsBelow S limit Eq (flip (Stmt.RewritesTo Stmt.expandCounting)) 1 bound := by
  refine run_followedBy_of_stmts hS (by decide) fun {m n} hle hbelow s' s h => ?_
  rcases Stmt.alike_or_counting h with halike | ⟨i, c, k, b, i', k', b', rfl, rfl, hi, hk, hb⟩
  · exact Or.inl halike.flip
  · exact Or.inr (expansion_followedBy_loopFor (by omega)
      ((hbelow m (by omega) n hle).2 i' i hi)
      (fun l hl => (hbelow l (by omega) n (by omega)).1 c c rfl)
      (fun l hl => (hbelow l (by omega) n (by omega)).2 k' k hk)
      fun l hl => (hbelow l (by omega) n (by omega)).2 b' b hb)

/-! ## 4. Both ways -/

/-- A loop and its expansion end in the same way from the same state. -/
theorem loopFor_ends_iff (limit : Nat) (i k b : Stmt) (c : Expr) (st : State)
    {outcome : Outcome Signal} (hends : outcome ≠ .exhausted) :
    (∃ fuel, exec limit fuel (.loopFor i c k b) st = outcome) ↔
      ∃ fuel, exec limit fuel (.expansion i c k b) st = outcome := by
  have hexcused : ∀ error st', outcome = .failed error st' →
      ¬ (Simulation.raised limit limit).excused error := fun _ _ _ h => Nat.lt_irrefl _ h.1
  have hsame : ∀ {m n : Nat}, m ≤ n →
      (∀ e, (eval limit m e).FollowedBy (.raised limit limit) (eval limit n e)) ∧
        ∀ s, (exec limit m s).FollowedBy (.raised limit limit) (exec limit n s) :=
    fun hle => run_raised (Nat.le_refl limit) hle
  constructor
  · rintro ⟨fuel, rfl⟩
    cases fuel with
    | zero => exact absurd (by rw [exec.eq_1]; rfl) hends
    | succ m =>
      have hfollows := loopFor_followedBy_expansion (Nat.le_refl m)
        ((hsame (Nat.le_add_right m 2)).2 i) ((hsame (Nat.le_add_right m 1)).1 c)
        ((hsame (Nat.le_refl m)).2 k) ((hsame (Nat.le_refl m)).2 b) st st rfl
      exact ⟨m + 3, hfollows.eq_of_raised hends hexcused⟩
  · rintro ⟨fuel, rfl⟩
    cases fuel with
    | zero => exact absurd (by rw [exec.eq_1]; rfl) hends
    | succ m =>
      have hfollows := expansion_followedBy_loopFor (Nat.le_refl m)
        ((hsame (Nat.le_refl m)).2 i) (fun l hl => (hsame (Nat.le_of_lt hl)).1 c)
        (fun l hl => (hsame (Nat.le_of_lt hl)).2 k) (fun l hl => (hsame (Nat.le_of_lt hl)).2 b)
        st st rfl
      exact ⟨m + 1, hfollows.eq_of_raised hends hexcused⟩

/-- **A counting loop is exactly its expansion.**  From any state it ends with the same signal, a
`return` from its start, its body or its step included, or with the same error, and in the same
state.  A program with all its counting loops expanded, in the bodies of its functions too, runs for
ever if the program does, and else ends in the same report. -/
theorem counting_loop_expansion (limit : Nat) :
    (∀ (init : Stmt) (condition : Expr) (increment body : Stmt) (st st' : State),
      (∀ signal, (∃ fuel, exec limit fuel (.loopFor init condition increment body) st =
          .done signal st') ↔
        ∃ fuel, exec limit fuel (.expansion init condition increment body) st =
          .done signal st') ∧
      ∀ error, (∃ fuel, exec limit fuel (.loopFor init condition increment body) st =
          .failed error st') ↔
        ∃ fuel, exec limit fuel (.expansion init condition increment body) st =
          .failed error st') ∧
    ∀ (p : Program) (console : Console) (files : Files) (report : Report),
      p.EndsIn limit console files report ↔
        p.expandCounting.EndsIn limit console files report := by
  refine ⟨fun init condition increment body st st' => ⟨fun signal => ?_, fun error => ?_⟩,
    fun p console files report => ?_⟩
  · exact loopFor_ends_iff limit init increment body condition st nofun
  · exact loopFor_ends_iff limit init increment body condition st nofun
  · exact Program.endsIn_iff (Stmt.forall₂_rewriteAll Stmt.expandCounting p.statements)
      (run_followedBy_expanded supports_twin_all) (expanded_followedBy_run supports_twin_all)
      console files report

end Interpreter

end TreeScript
