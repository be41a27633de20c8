import TreeScript.Proofs.Run.Rewrite

/-!
# Blocks open no scope

A block has no variables of its own, so that the statements of a block inside a block may as well
stand in the outer one: they are reached in the same order, a `return` among them leaves both, and
the value of the outer block is that of the last statement in either case.  The one exception is an
empty block at the end, whose value is absence; it is left where it is.

`rel_runAll_spliced` says it of the lists of two blocks, in a form that serves both directions.  The
block that is left out costs one unit of fuel, so that one direction needs two units for one.
-/

namespace TreeScript

/-! ## 1. Programs that differ in blocks -/

/-- Lists of statements that correspond one by one, or the statements of an inner block of the first
list do so where the block stood.  An inner block is only taken apart if there is a statement in it
or behind it. -/
inductive Spliced (Q : Stmt → Stmt → Prop) : List Stmt → List Stmt → Prop where
  | nil : Spliced Q [] []
  | cons {s s' : Stmt} {ss ss' : List Stmt} (head : Q s s') (rest : Spliced Q ss ss') :
    Spliced Q (s :: ss) (s' :: ss')
  | splice {ts ts' us us' : List Stmt} (hne : ts ≠ [] ∨ us ≠ []) (inner : List.Forall₂ Q ts ts')
    (rest : Spliced Q us us') : Spliced Q (.block ts :: us) (ts' ++ us')

/-- **Statements that differ in inner blocks**: the second has the statements of some of them in the
outer block, at any depth and in the bodies of functions too. -/
inductive Stmt.Flattened : Stmt → Stmt → Prop where
  | alike {s s' : Stmt} (h : Stmt.Alike Eq Stmt.Flattened s s') : Stmt.Flattened s s'
  | block {ss ss' : List Stmt} (h : Spliced Stmt.Flattened ss ss') :
    Stmt.Flattened (.block ss) (.block ss')

/-- Programs whose statements differ in inner blocks. -/
def Program.Flattened (p q : Program) : Prop :=
  List.Forall₂ Stmt.Flattened p.statements q.statements

theorem Stmt.flattened_self (s : Stmt) : Stmt.Flattened s s :=
  Stmt.self_of_alike (fun _ => rfl) .alike s

theorem Spliced.append_left {Q : Stmt → Stmt → Prop} (hQ : ∀ s, Q s s) {ss' ss'' : List Stmt}
    (h : Spliced Q ss' ss'') (ss : List Stmt) : Spliced Q (ss ++ ss') (ss ++ ss'') := by
  induction ss with
  | nil => exact h
  | cons s ss ih => exact .cons (hQ s) ih

theorem Spliced.self {Q : Stmt → Stmt → Prop} (hQ : ∀ s, Q s s) (ss : List Stmt) :
    Spliced Q ss ss := by
  induction ss with
  | nil => exact .nil
  | cons s ss ih => exact .cons (hQ s) ih

/-- One inner block among the statements of a block. -/
theorem Stmt.flattened_block (ss ts us : List Stmt) (hne : ts ≠ [] ∨ us ≠ []) :
    Stmt.Flattened (.block (ss ++ [.block ts] ++ us)) (.block (ss ++ ts ++ us)) := by
  rw [List.append_assoc, List.append_assoc]
  exact .block (.append_left flattened_self
    (.splice hne (List.forall₂_same.mpr fun s _ => flattened_self s) (.self flattened_self us)) ss)

/-! ## 2. Two lists of statements -/

namespace Action

variable {α : Type}

/-- Statements that stand behind others are run after them, unless they have returned. -/
theorem runAll_append (run : α → Action Signal) (last : Value) (ss ts : List α) :
    runAll run last (ss ++ ts) = runAll run last ss >>= fun signal =>
      match signal with
      | .returned v => pure (.returned v)
      | .normal v => runAll run v ts := by
  induction ss generalizing last with
  | nil => rfl
  | cons s ss ih =>
    rw [List.cons_append, runAll_cons, runAll_cons, bind_assoc_apply]
    refine congrArg (run s >>= ·) (funext fun signal => ?_)
    cases signal with
    | returned v => rfl
    | normal v => exact ih v

end Action

namespace Interpreter

section Lists

variable {T : Action Signal → Action Signal → Prop} {Q : Stmt → Stmt → Prop}
  {f g : Stmt → Action Signal} (hpure : ∀ signal, T (pure signal) (pure signal))
  (hbind : ∀ {x y : Action Signal} {k k' : Signal → Action Signal}, T x y →
    (∀ signal, T (k signal) (k' signal)) → T (x >>= k) (y >>= k'))

include hpure hbind

/-- What corresponds one by one is related.  The value that is there before matters only if there
are no statements. -/
theorem rel_runAll (h : ∀ s s', Q s s' → T (f s) (g s')) {ss ss' : List Stmt}
    (hss : List.Forall₂ Q ss ss') : ∀ {last last' : Value}, (ss = [] → last = last') →
      T (Action.runAll f last ss) (Action.runAll g last' ss') := by
  induction hss with
  | nil =>
    intro last last' hlast
    rw [hlast rfl]
    exact hpure _
  | cons hs _ ih =>
    intro last last' _
    rw [Action.runAll_cons, Action.runAll_cons]
    refine hbind (h _ _ hs) fun signal => ?_
    cases signal with
    | returned v => exact hpure _
    | normal v => exact ih fun _ => rfl

/-- **Lists that differ in inner blocks are related**, if a block is run as the list of its
statements, and these are related too. -/
theorem rel_runAll_spliced {inner : Stmt → Action Signal}
    (hblock : ∀ ts, f (.block ts) = Action.runAll inner .absence ts)
    (hinner : ∀ s s', Q s s' → T (inner s) (g s')) (h : ∀ s s', Q s s' → T (f s) (g s'))
    {ss ss' : List Stmt} (hss : Spliced Q ss ss') :
    ∀ {last last' : Value}, (ss = [] → last = last') →
      T (Action.runAll f last ss) (Action.runAll g last' ss') := by
  induction hss with
  | nil =>
    intro last last' hlast
    rw [hlast rfl]
    exact hpure _
  | cons hs _ ih =>
    intro last last' _
    rw [Action.runAll_cons, Action.runAll_cons]
    refine hbind (h _ _ hs) fun signal => ?_
    cases signal with
    | returned v => exact hpure _
    | normal v => exact ih fun _ => rfl
  | @splice ts ts' us us' hne hts _ ih =>
    intro last last' _
    rw [Action.runAll_cons, hblock]
    by_cases hnil : ts = []
    · -- an empty block leaves absence behind, which the statements behind it do not see
      subst hnil
      cases hts
      exact ih fun hus => absurd hus (hne.resolve_left fun h => h rfl)
    · rw [Action.runAll_append]
      refine hbind (rel_runAll hpure hbind hinner hts fun h => absurd h hnil) fun signal => ?_
      cases signal with
      | returned v => exact hpure _
      | normal v => exact ih fun _ => rfl

end Lists

/-! ## 3. Whole programs -/

variable {S : Simulation} {limit : Nat}

theorem exec_block (limit fuel : Nat) (ss : List Stmt) :
    exec limit (fuel + 1) (.block ss) = Action.runAll (exec limit fuel) .absence ss := by
  simp only [exec]

/-- Without fuel for its statements a list is run to its end only if it is empty. -/
theorem runAll_spliced_exhausted {Q : Stmt → Stmt → Prop} {ss ss' : List Stmt}
    (h : Spliced Q ss ss') (last : Value) (g : Stmt → Action Signal) :
    (Action.runAll (exec limit 0) last ss).FollowedBy S (Action.runAll g last ss') := by
  cases h with
  | nil => exact Action.followedBy_pure _
  | cons _ _ =>
    rw [Action.runAll_cons, exec.eq_1]
    exact Action.followedBy_exhaust _
  | splice _ _ _ =>
    rw [Action.runAll_cons, exec.eq_1]
    exact Action.followedBy_exhaust _

/-- The program with fewer blocks follows the other one, with the same fuel. -/
theorem run_followedBy_flattened (hS : S.Supports limit Stmt.Flattened) :
    ∀ bound, FollowsBelow S limit Eq Stmt.Flattened 1 bound := by
  refine run_followedBy_of_stmts hS Nat.one_pos fun {m n} hle hbelow s s' h => ?_
  cases h with
  | alike halike => exact Or.inl halike
  | block hss =>
    refine Or.inr ?_
    rw [exec_block, exec_block]
    cases m with
    | zero => exact runAll_spliced_exhausted hss .absence _
    | succ m =>
      exact rel_runAll_spliced (T := Action.FollowedBy S) Action.followedBy_pure
        Action.FollowedBy.bind (exec_block limit m) (hbelow m (by omega) n (by omega)).2
        (hbelow (m + 1) (by omega) n hle).2 hss fun _ => rfl

/-- The program with more blocks follows the other one, with twice the fuel. -/
theorem flattened_followedBy_run (hS : S.Supports limit (flip Stmt.Flattened)) :
    ∀ bound, FollowsBelow S limit Eq (flip Stmt.Flattened) 2 bound := by
  refine run_followedBy_of_stmts hS (by decide) fun {m n} hle hbelow s' s h => ?_
  cases h with
  | alike halike => exact Or.inl halike.flip
  | block hss =>
    refine Or.inr ?_
    rw [exec_block, exec_block]
    have hparts := (hbelow m (by omega) n hle).2
    have houter := (hbelow m (by omega) (n + 1) (by omega)).2
    exact rel_runAll_spliced (T := flip (Action.FollowedBy S)) Action.followedBy_pure
      Action.FollowedBy.bind (exec_block limit n) (fun s s' h => hparts s' s h)
      (fun s s' h => houter s' s h) hss fun _ => rfl

/-- **Blocks open no scope.**  Of two programs that differ only in inner blocks whose statements
stand in the outer block instead, anywhere in the programs and in the bodies of their functions,
either both run for ever or both end in the same report. -/
theorem blocks_open_no_scope (limit : Nat) (p q : Program) (h : p.Flattened q) (console : Console)
    (files : Files) (report : Report) :
    p.EndsIn limit console files report ↔ q.EndsIn limit console files report :=
  Program.endsIn_iff h (run_followedBy_flattened supports_twin_all)
    (flattened_followedBy_run supports_twin_all) console files report

/-- Statements that bind a variable and return if it is true. -/
def bindAndReturn : List Stmt :=
  [.assign "z" (.identifier "y"),
    .branch (.identifier "z") (.giveBack (some (.identifier "x"))) none]

/-- A program whose function has these statements in the body of a loop, among others. -/
def searching (statements : List Stmt) : Program :=
  ⟨[.declare "f" [⟨"xs", none⟩]
      (.block [.loopEach "x" (.identifier "xs")
        (.block ([.assign "y" (.identifier "x")] ++ statements ++ [.evaluate (.identifier "z")])),
        .assign "y" .absence]),
    .evaluate (.call "f" [.sequence [.boolean false, .boolean true]])]⟩

/-- A variable of the inner block is seen behind it, and a `return` in it leaves the function. -/
theorem blocks_open_no_scope_searching :
    (searching [.block bindAndReturn]).Flattened (searching bindAndReturn) ∧
      ∃ report : Report, report.result = .ok (.boolean true) ∧
        (searching bindAndReturn).EndsIn 5 {} {} report ∧
        (searching [.block bindAndReturn]).EndsIn 5 {} {} report := by
  have hbody := Stmt.flattened_block [.assign "y" (.identifier "x")] bindAndReturn
    [.evaluate (.identifier "z")] (Or.inr (List.cons_ne_nil _ _))
  have hflat : (searching [.block bindAndReturn]).Flattened (searching bindAndReturn) :=
    .cons (.alike (.declare "f" _ (.alike (.block (.cons (.alike (.loopEach "x" rfl hbody))
      (.cons (Stmt.flattened_self _) .nil)))))) (.cons (Stmt.flattened_self _) .nil)
  have hends : (searching bindAndReturn).EndsIn 5 {} {} _ := ⟨9, rfl⟩
  exact ⟨hflat, _, rfl, hends, (blocks_open_no_scope 5 _ _ hflat {} {} _).mpr hends⟩

end Interpreter

end TreeScript
