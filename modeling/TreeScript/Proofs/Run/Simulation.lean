import Mathlib.Data.List.Forall2
import TreeScript.Proofs.Run.Call

/-!
# Two runs side by side

A `Simulation` says which states of two runs correspond, and which errors of the first run excuse
the second one from following it.  `x.FollowedBy S y`: from corresponding states `y` ends as `x`
does, with the same value or the same error and in corresponding states, unless `x` is excused or
has run out of fuel.

Following is carried from the parts of an action to the action as `Within` is: by `pure`, `>>=`,
lists and loops.  The same is done for the constructs of the language.  Two expressions or
statements are `Alike` over a relation if they are made by the same construct and their parts are
related; if related parts follow each other with some fuel, what is alike does so with one unit
more (`eval_followedBy`, `exec_followedBy`).
-/

namespace TreeScript

/-! ## 1. Outcomes and actions -/

/-- How two runs are compared: which states correspond, and after which errors of the first run
nothing is asked of the second. -/
structure Simulation where
  states : State → State → Prop
  excused : RunError → Prop

/-- The second outcome is that of the first, up to corresponding states; nothing is asked of it if
the first is excused or has run out of fuel. -/
def Outcome.FollowedBy {α : Type} (S : Simulation) (outcome outcome' : Outcome α) : Prop :=
  match outcome with
  | .done value st => ∃ st', outcome' = .done value st' ∧ S.states st st'
  | .failed error st => S.excused error ∨ ∃ st', outcome' = .failed error st' ∧ S.states st st'
  | .exhausted => True

/-- Values and stacks may be put in place on both sides, if corresponding states stay so. -/
theorem Outcome.FollowedBy.restore {α β : Type} {S : Simulation} {outcome outcome' : Outcome α}
    {value : α → β} {stack stack' : CallStack} (h : outcome.FollowedBy S outcome')
    (hS : ∀ st st', S.states st st' →
      S.states { st with stack := stack } { st' with stack := stack' }) :
    (outcome.restore value stack).FollowedBy S (outcome'.restore value stack') := by
  cases outcome with
  | done a st =>
    obtain ⟨st', rfl, hst⟩ := h
    exact ⟨_, rfl, hS _ _ hst⟩
  | failed error st =>
    rcases h with h | ⟨st', rfl, hst⟩
    · exact Or.inl h
    · exact Or.inr ⟨_, rfl, hS _ _ hst⟩
  | exhausted => trivial

namespace Action

variable {α α' β : Type} {S : Simulation}

/-- **The second action follows the first**, from any two corresponding states. -/
def FollowedBy (S : Simulation) (x y : Action α) : Prop :=
  ∀ st st', S.states st st' → (x st).FollowedBy S (y st')

theorem followedBy_pure (value : α) : (pure value : Action α).FollowedBy S (pure value) :=
  fun _ st' hst => ⟨st', rfl, hst⟩

theorem FollowedBy.bind {x y : Action α} {f g : α → Action β} (hx : x.FollowedBy S y)
    (hf : ∀ value, (f value).FollowedBy S (g value)) : (x >>= f).FollowedBy S (y >>= g) := by
  intro st st' hst
  have h := hx st st' hst
  rw [bind_apply, bind_apply]
  cases hr : x st with
  | done value st₁ =>
    rw [hr] at h
    obtain ⟨st₁', heq, hst₁⟩ := h
    rw [heq]
    exact hf value st₁ st₁' hst₁
  | failed error st₁ =>
    rw [hr] at h
    rcases h with h | ⟨st₁', heq, hst₁⟩
    · exact Or.inl h
    · rw [heq]
      exact Or.inr ⟨st₁', rfl, hst₁⟩
  | exhausted => trivial

theorem followedBy_exhaust (y : Action α) : (exhaust : Action α).FollowedBy S y :=
  fun _ _ _ => trivial

theorem followedBy_fail (error : RunError) : (fail error : Action α).FollowedBy S (fail error) :=
  fun _ st' hst => Or.inr ⟨st', rfl, hst⟩

theorem followedBy_ofResult (result : Except RunError α) :
    (ofResult result).FollowedBy S (ofResult result) := by
  intro st st' hst
  cases result with
  | ok value => exact ⟨st', rfl, hst⟩
  | error error => exact Or.inr ⟨st', rfl, hst⟩

/-! ## 2. Lists and loops -/

theorem followedBy_collect {R : α → α' → Prop} {f : α → Action β} {g : α' → Action β}
    (h : ∀ a a', R a a' → (f a).FollowedBy S (g a')) :
    ∀ {items : List α} {items' : List α'}, List.Forall₂ R items items' →
      (collect f items).FollowedBy S (collect g items')
  | _, _, .nil => followedBy_pure _
  | _, _, .cons ha hrest =>
    (h _ _ ha).bind fun _ => (followedBy_collect h hrest).bind fun _ => followedBy_pure _

theorem runAll_cons (run : α → Action Signal) (last : Value) (s : α) (rest : List α) :
    runAll run last (s :: rest) = run s >>= fun signal =>
      match signal with
      | .returned v => pure (.returned v)
      | .normal v => runAll run v rest := rfl

theorem followedBy_runAll {R : α → α' → Prop} {f : α → Action Signal} {g : α' → Action Signal}
    (h : ∀ a a', R a a' → (f a).FollowedBy S (g a')) :
    ∀ {items : List α} {items' : List α'} (last : Value), List.Forall₂ R items items' →
      (runAll f last items).FollowedBy S (runAll g last items')
  | _, _, _, .nil => followedBy_pure _
  | _, _, _, .cons ha hrest => by
    refine (h _ _ ha).bind fun signal => ?_
    cases signal with
    | normal value => exact followedBy_runAll h value hrest
    | returned value => exact followedBy_pure _

theorem followedBy_runEach {f g : α → Action Signal} (h : ∀ a, (f a).FollowedBy S (g a)) :
    ∀ items : List α, (runEach f items).FollowedBy S (runEach g items)
  | [] => followedBy_pure _
  | a :: rest => by
    refine (h a).bind fun signal => ?_
    cases signal with
    | normal value => exact followedBy_runEach h rest
    | returned value => exact followedBy_pure _

/-- The loop that follows may make more turns. -/
theorem followedBy_runWhile {c c' : Action Value} {b b' : Action Signal} (hc : c.FollowedBy S c')
    (hb : b.FollowedBy S b') : ∀ {turns turns' : Nat}, turns ≤ turns' →
      (runWhile c b turns).FollowedBy S (runWhile c' b' turns')
  | 0, _, _ => followedBy_exhaust _
  | turns + 1, turns' + 1, h => by
    refine hc.bind fun value => ?_
    split
    · refine hb.bind fun signal => ?_
      cases signal with
      | normal value => exact followedBy_runWhile hc hb (Nat.le_of_succ_le_succ h)
      | returned value => exact followedBy_pure _
    · exact followedBy_pure _

theorem followedBy_runCounting {c c' : Action Value} {b b' k k' : Action Signal}
    (hc : c.FollowedBy S c') (hb : b.FollowedBy S b') (hk : k.FollowedBy S k') :
    ∀ {turns turns' : Nat}, turns ≤ turns' →
      (runCounting c b k turns).FollowedBy S (runCounting c' b' k' turns')
  | 0, _, _ => followedBy_exhaust _
  | turns + 1, turns' + 1, h => by
    refine hc.bind fun value => ?_
    split
    · refine hb.bind fun signal => ?_
      cases signal with
      | returned value => exact followedBy_pure _
      | normal value =>
        refine hk.bind fun signal => ?_
        cases signal with
        | normal value => exact followedBy_runCounting hc hb hk (Nat.le_of_succ_le_succ h)
        | returned value => exact followedBy_pure _
    · exact followedBy_pure _

end Action

/-! ## 3. Trees that are alike -/

/-- Expressions made by the same construct of related parts. -/
inductive Expr.Alike (R : Expr → Expr → Prop) : Expr → Expr → Prop where
  | literal (payload : Json) (kind : LiteralKind) :
    Alike R (.literal payload kind) (.literal payload kind)
  | identifier (name : String) : Alike R (.identifier name) (.identifier name)
  | binary (op : BinaryOp) {l l' r r' : Expr} (left : R l l') (right : R r r') :
    Alike R (.binary op l r) (.binary op l' r')
  | unary (op : UnaryOp) {e e' : Expr} (operand : R e e') : Alike R (.unary op e) (.unary op e')
  | call (name : String) {es es' : List Expr} (arguments : List.Forall₂ R es es') :
    Alike R (.call name es) (.call name es')
  | index {b b' i i' : Expr} (base : R b b') (position : R i i') :
    Alike R (.index b i) (.index b' i')
  | sequence {es es' : List Expr} (elements : List.Forall₂ R es es') :
    Alike R (.sequence es) (.sequence es')
  | mapping {es es' : List (String × Expr)} (keys : es.map Prod.fst = es'.map Prod.fst)
    (values : List.Forall₂ (fun entry entry' => R entry.2 entry'.2) es es') :
    Alike R (.mapping es) (.mapping es')

/-- Statements made by the same construct of related parts, with the same names. -/
inductive Stmt.Alike (R : Expr → Expr → Prop) (Q : Stmt → Stmt → Prop) : Stmt → Stmt → Prop where
  | assign (name : String) {e e' : Expr} (value : R e e') :
    Alike R Q (.assign name e) (.assign name e')
  | branch {c c' : Expr} {t t' : Stmt} {e e' : Option Stmt} (condition : R c c')
    (thenBlock : Q t t') (elseBlock : Option.Rel Q e e') :
    Alike R Q (.branch c t e) (.branch c' t' e')
  | loop {c c' : Expr} {b b' : Stmt} (condition : R c c') (body : Q b b') :
    Alike R Q (.loop c b) (.loop c' b')
  | loopFor {i i' k k' b b' : Stmt} {c c' : Expr} (init : Q i i') (condition : R c c')
    (increment : Q k k') (body : Q b b') : Alike R Q (.loopFor i c k b) (.loopFor i' c' k' b')
  | loopEach (item : String) {c c' : Expr} {b b' : Stmt} (collection : R c c') (body : Q b b') :
    Alike R Q (.loopEach item c b) (.loopEach item c' b')
  | declare (name : String) (parameters : List Parameter) {b b' : Stmt} (body : Q b b') :
    Alike R Q (.declare name parameters b) (.declare name parameters b')
  | giveBack {e e' : Option Expr} (value : Option.Rel R e e') :
    Alike R Q (.giveBack e) (.giveBack e')
  | evaluate {e e' : Expr} (expr : R e e') : Alike R Q (.evaluate e) (.evaluate e')
  | block {ss ss' : List Stmt} (statements : List.Forall₂ Q ss ss') :
    Alike R Q (.block ss) (.block ss')

theorem Expr.Alike.refl {R : Expr → Expr → Prop} (h : ∀ e, R e e) (e : Expr) :
    Expr.Alike R e e := by
  cases e with
  | literal payload kind => exact .literal payload kind
  | identifier name => exact .identifier name
  | binary op left right => exact .binary op (h left) (h right)
  | unary op operand => exact .unary op (h operand)
  | call name arguments => exact .call name (List.forall₂_same.mpr fun e _ => h e)
  | index base position => exact .index (h base) (h position)
  | sequence elements => exact .sequence (List.forall₂_same.mpr fun e _ => h e)
  | mapping entries => exact .mapping rfl (List.forall₂_same.mpr fun entry _ => h entry.2)

theorem Stmt.Alike.refl {R : Expr → Expr → Prop} {Q : Stmt → Stmt → Prop} (hR : ∀ e, R e e)
    (hQ : ∀ s, Q s s) (s : Stmt) : Stmt.Alike R Q s s := by
  cases s with
  | assign name value => exact .assign name (hR value)
  | branch condition thenBlock elseBlock =>
    refine .branch (hR condition) (hQ thenBlock) ?_
    cases elseBlock with
    | none => exact .none
    | some block => exact .some (hQ block)
  | loop condition body => exact .loop (hR condition) (hQ body)
  | loopFor init condition increment body =>
    exact .loopFor (hQ init) (hR condition) (hQ increment) (hQ body)
  | loopEach item collection body => exact .loopEach item (hR collection) (hQ body)
  | declare name parameters body => exact .declare name parameters (hQ body)
  | giveBack value =>
    refine .giveBack ?_
    cases value with
    | none => exact .none
    | some e => exact .some (hR e)
  | evaluate e => exact .evaluate (hR e)
  | block statements => exact .block (List.forall₂_same.mpr fun s _ => hQ s)

/-- A relation that alike expressions have, an expression has to itself. -/
theorem Expr.self_of_alike {R : Expr → Expr → Prop} (h : ∀ {e e'}, Expr.Alike R e e' → R e e')
    (e : Expr) : R e e := by
  refine Expr.rec (motive_1 := fun e => R e e) (motive_2 := fun es => List.Forall₂ R es es)
    (motive_3 := fun es => List.Forall₂ (fun entry entry' => R entry.2 entry'.2) es es)
    (motive_4 := fun entry => R entry.2 entry.2) ?_ ?_ ?_ ?_ ?_ ?_ ?_ ?_ .nil ?_ .nil ?_ ?_ e
  · exact fun payload kind => h (.literal payload kind)
  · exact fun name => h (.identifier name)
  · exact fun op _ _ hleft hright => h (.binary op hleft hright)
  · exact fun op _ hoperand => h (.unary op hoperand)
  · exact fun name _ harguments => h (.call name harguments)
  · exact fun _ _ hbase hposition => h (.index hbase hposition)
  · exact fun _ helements => h (.sequence helements)
  · exact fun _ hentries => h (.mapping rfl hentries)
  · exact fun _ _ hhead htail => .cons hhead htail
  · exact fun _ _ hhead htail => .cons hhead htail
  · exact fun _ _ hvalue => hvalue

/-- A relation that alike statements have, a statement has to itself. -/
theorem Stmt.self_of_alike {R : Expr → Expr → Prop} {Q : Stmt → Stmt → Prop} (hR : ∀ e, R e e)
    (h : ∀ {s s'}, Stmt.Alike R Q s s' → Q s s') (s : Stmt) : Q s s := by
  refine Stmt.rec (motive_1 := fun s => Q s s) (motive_2 := fun block => Option.Rel Q block block)
    (motive_3 := fun ss => List.Forall₂ Q ss ss) ?_ ?_ ?_ ?_ ?_ ?_ ?_ ?_ ?_ .none ?_ .nil ?_ s
  · exact fun name value => h (.assign name (hR value))
  · exact fun condition _ _ hthen helse => h (.branch (hR condition) hthen helse)
  · exact fun condition _ hbody => h (.loop (hR condition) hbody)
  · exact fun _ condition _ _ hinit hincrement hbody =>
      h (.loopFor hinit (hR condition) hincrement hbody)
  · exact fun item collection _ hbody => h (.loopEach item (hR collection) hbody)
  · exact fun name parameters _ hbody => h (.declare name parameters hbody)
  · intro value
    cases value with
    | none => exact h (.giveBack .none)
    | some e => exact h (.giveBack (.some (hR e)))
  · exact fun e => h (.evaluate (hR e))
  · exact fun _ hstatements => h (.block hstatements)
  · exact fun _ hblock => .some hblock
  · exact fun _ _ hhead htail => .cons hhead htail

/-! ## 4. One unit of fuel more -/

namespace Interpreter

section Step

variable {S : Simulation} {R : Expr → Expr → Prop} {Q : Stmt → Stmt → Prop}
  {limit limit' fuel fuel' : Nat}
  (heval : ∀ e e', R e e' → (eval limit fuel e).FollowedBy S (eval limit' fuel' e'))
  (hexec : ∀ s s', Q s s' → (exec limit fuel s).FollowedBy S (exec limit' fuel' s'))

include heval in
/-- **Expressions that are alike follow each other**, if their parts do. -/
theorem eval_followedBy
    (hread : ∀ name, (readVariable name).FollowedBy S (readVariable name))
    (hcall : ∀ name values, (callWith limit (exec limit fuel) name values).FollowedBy S
      (callWith limit' (exec limit' fuel') name values))
    {e e' : Expr} (h : Expr.Alike R e e') :
    (eval limit (fuel + 1) e).FollowedBy S (eval limit' (fuel' + 1) e') := by
  cases h with
  | literal payload kind =>
    simp only [eval]
    exact Action.followedBy_ofResult _
  | identifier name =>
    simp only [eval]
    exact hread name
  | @binary op l l' r r' left right =>
    by_cases hand : op = .and
    · subst hand
      simp only [eval]
      refine (heval _ _ left).bind fun v => ?_
      split
      · exact (heval _ _ right).bind fun _ => Action.followedBy_pure _
      · exact Action.followedBy_pure _
    by_cases hor : op = .or
    · subst hor
      simp only [eval]
      refine (heval _ _ left).bind fun v => ?_
      split
      · exact Action.followedBy_pure _
      · exact (heval _ _ right).bind fun _ => Action.followedBy_pure _
    rw [eval.eq_6 limit fuel op l r hand hor, eval.eq_6 limit' fuel' op l' r' hand hor]
    exact (heval _ _ left).bind fun _ => (heval _ _ right).bind fun _ =>
      Action.followedBy_ofResult _
  | unary op operand =>
    simp only [eval]
    exact (heval _ _ operand).bind fun _ => Action.followedBy_ofResult _
  | call name arguments =>
    simp only [eval]
    exact (Action.followedBy_collect heval arguments).bind fun values => hcall name values
  | index base position =>
    simp only [eval]
    exact (heval _ _ base).bind fun _ => (heval _ _ position).bind fun _ =>
      Action.followedBy_ofResult _
  | sequence elements =>
    simp only [eval]
    exact (Action.followedBy_collect heval elements).bind fun _ => Action.followedBy_pure _
  | mapping keys values =>
    simp only [eval, keys]
    exact (Action.followedBy_collect (fun _ _ h => heval _ _ h) values).bind fun _ =>
      Action.followedBy_pure _

include heval hexec in
/-- **Statements that are alike follow each other**, if their parts do. -/
theorem exec_followedBy (hfuel : fuel ≤ fuel')
    (hassign : ∀ name value, (assign name value).FollowedBy S (assign name value))
    (hregister : ∀ name parameters b b', Q b b' →
      (Action.update (·.register ⟨name, parameters, b⟩)).FollowedBy S
        (Action.update (·.register ⟨name, parameters, b'⟩)))
    {s s' : Stmt} (h : Stmt.Alike R Q s s') :
    (exec limit (fuel + 1) s).FollowedBy S (exec limit' (fuel' + 1) s') := by
  cases h with
  | assign name value =>
    simp only [exec]
    exact (heval _ _ value).bind fun v => (hassign name v).bind fun _ => Action.followedBy_pure _
  | branch condition thenBlock elseBlock =>
    simp only [exec]
    refine (heval _ _ condition).bind fun v => ?_
    split
    · exact hexec _ _ thenBlock
    · cases elseBlock with
      | some block => exact hexec _ _ block
      | none => exact Action.followedBy_pure _
  | loop condition body =>
    simp only [exec]
    exact Action.followedBy_runWhile (heval _ _ condition) (hexec _ _ body) hfuel
  | loopFor init condition increment body =>
    simp only [exec]
    refine (hexec _ _ init).bind fun signal => ?_
    cases signal with
    | returned v => exact Action.followedBy_pure _
    | normal v =>
      exact Action.followedBy_runCounting (heval _ _ condition) (hexec _ _ body)
        (hexec _ _ increment) hfuel
  | loopEach item collection body =>
    simp only [exec]
    refine (heval _ _ collection).bind fun c => ?_
    refine (Action.followedBy_ofResult _).bind fun items => ?_
    exact Action.followedBy_runEach
      (fun v => (hassign item v).bind fun _ => hexec _ _ body) items
  | declare name parameters body =>
    simp only [exec]
    exact (hregister name parameters _ _ body).bind fun _ => Action.followedBy_pure _
  | giveBack value =>
    cases value with
    | some e =>
      simp only [exec]
      exact (heval _ _ e).bind fun _ => Action.followedBy_pure _
    | none =>
      simp only [exec]
      exact Action.followedBy_pure _
  | evaluate e =>
    simp only [exec]
    exact (heval _ _ e).bind fun _ => Action.followedBy_pure _
  | block statements =>
    simp only [exec]
    exact Action.followedBy_runAll hexec _ statements

end Step

end Interpreter

end TreeScript
