import TreeScript.Run.Action

/-!
# What a run may change

A `Change` relates the state before an action to the state it leaves and says whether it left it
with an error.  It allows an action to do nothing and it can be put together from two changes one
after the other; those two facts carry it from the parts of an action to the action: `pure`, `>>=`,
lists and loops need nothing else (`Action.Within`).

So what is true of a run from any state to any state it leaves is shown once, for the actions that
touch the state themselves.

What a run has only because of the state that it started in is carried through it by the same steps
(`Action.leaves_bind` and its like).  There each part of an action is asked only about the states in
which it comes to begin.  Where a part of a list begins is told by the run of the parts before it,
and where a part of a loop begins by a predicate that holds whenever the loop begins a turn.
-/

namespace TreeScript

/-! ## 1. Changes -/

/-- A relation between the state before an action, the error with which it ended, if it was one,
and the state after it. -/
structure Change where
  holds : State → Option RunError → State → Prop
  refl : ∀ st, holds st none st
  trans : ∀ {st st₁ st₂ : State} {how : Option RunError},
    holds st none st₁ → holds st₁ how st₂ → holds st how st₂

/-- `c ≤ d`: whatever `c` allows is allowed by `d`. -/
instance : LE Change where
  le c d := ∀ {st : State} {how : Option RunError} {st' : State},
    c.holds st how st' → d.holds st how st'

theorem Change.le_refl (c : Change) : c ≤ c := fun h => h

/-- A property of states is kept. -/
def Change.preserving (P : State → Prop) : Change where
  holds st _ st' := P st → P st'
  refl _ h := h
  trans h h₁ hst := h₁ (h hst)

/-- Whether what an outcome leaves is in a relation to its error, if it is one. -/
def Outcome.Leaves {α : Type} (outcome : Outcome α) (P : Option RunError → State → Prop) : Prop :=
  match outcome with
  | .done _ st => P none st
  | .failed error st => P (some error) st
  | .exhausted => True

theorem Outcome.Leaves.mono {α : Type} {outcome : Outcome α} {P Q : Option RunError → State → Prop}
    (h : outcome.Leaves P) (hPQ : ∀ how st, P how st → Q how st) : outcome.Leaves Q := by
  cases outcome with
  | done value st => exact hPQ none st h
  | failed error st => exact hPQ (some error) st h
  | exhausted => trivial

theorem Outcome.Leaves.of_done {α : Type} {outcome : Outcome α} {P : State → Prop}
    (h : outcome.Leaves fun _ st => P st) {value : α} {st : State}
    (hdone : outcome = .done value st) : P st := by
  rw [hdone] at h
  exact h

/-- Two things are true of what an outcome leaves if each of them is. -/
theorem Outcome.Leaves.and {α : Type} {outcome : Outcome α} {P Q : Option RunError → State → Prop}
    (hP : outcome.Leaves P) (hQ : outcome.Leaves Q) :
    outcome.Leaves fun how st => P how st ∧ Q how st := by
  cases outcome with
  | done value st => exact ⟨hP, hQ⟩
  | failed error st => exact ⟨hP, hQ⟩
  | exhausted => trivial

/-- What is true of what an outcome leaves under a condition. -/
theorem Outcome.Leaves.of_imp {α : Type} {outcome : Outcome α} {p : Prop}
    {P : Option RunError → State → Prop} (h : p → outcome.Leaves P) :
    outcome.Leaves fun how st => p → P how st := by
  cases outcome with
  | done value st => exact h
  | failed error st => exact h
  | exhausted => trivial

namespace Action

variable {α β : Type}

theorem bind_apply (x : Action α) (f : α → Action β) (st : State) :
    (x >>= f) st =
      match x st with
      | .done value st' => f value st'
      | .failed error st' => .failed error st'
      | .exhausted => .exhausted := rfl

theorem bind_assoc_apply {γ : Type} (x : Action α) (f : α → Action β) (g : β → Action γ) :
    x >>= f >>= g = x >>= fun a => f a >>= g := by
  funext st
  simp only [bind_apply]
  cases x st <;> rfl

/-! ## 2. From one state -/

section Leaves

variable {Q : Option RunError → State → Prop}

theorem leaves_bind {x : Action α} {f : α → Action β} {st : State} (hx : (x st).Leaves Q)
    (hf : ∀ value st₁, x st = .done value st₁ → Q none st₁ → (f value st₁).Leaves Q) :
    ((x >>= f) st).Leaves Q := by
  rw [bind_apply]
  cases hr : x st with
  | done value st₁ =>
    rw [hr] at hx
    exact hf value st₁ hr hx
  | failed error st₁ =>
    rw [hr] at hx
    exact hx
  | exhausted => trivial

/-- What an action leaves whose value is not looked at. -/
theorem leaves_discard {x : Action α} {st : State} :
    ((x >>= fun _ => (pure () : Action Unit)) st).Leaves Q ↔ (x st).Leaves Q := by
  rw [bind_apply]
  cases x st <;> rfl

theorem leaves_collect {f : α → Action β} : ∀ {items : List α} {st : State},
    (∀ before a after values st₁, items = before ++ a :: after →
      collect f before st = .done values st₁ → Q none st₁ → (f a st₁).Leaves Q) →
    Q none st → (collect f items st).Leaves Q
  | [], _, _, hst => hst
  | a :: rest, st, h, hst => by
    rw [collect]
    refine leaves_bind (h [] a rest [] st rfl rfl hst) fun b st₁ ha hst₁ => ?_
    refine leaves_bind (leaves_collect (fun before a' after values st₂ heq hbefore => ?_) hst₁)
      fun _ _ _ hst₂ => hst₂
    refine h (a :: before) a' after (b :: values) st₂ (by rw [heq]; rfl) ?_
    simp only [collect, bind_apply, ha, hbefore]
    rfl

theorem leaves_runAll {run : α → Action Signal} : ∀ {items : List α} {last : Value} {st : State},
    (∀ before a after value st₁, items = before ++ a :: after →
      runAll run last before st = .done (.normal value) st₁ → Q none st₁ → (run a st₁).Leaves Q) →
    Q none st → (runAll run last items st).Leaves Q
  | [], _, _, _, hst => hst
  | a :: rest, last, st, h, hst => by
    rw [runAll]
    refine leaves_bind (h [] a rest last st rfl rfl hst) fun signal st₁ ha hst₁ => ?_
    cases signal with
    | returned value => exact hst₁
    | normal value =>
      refine leaves_runAll (fun before a' after value' st₂ heq hbefore => ?_) hst₁
      refine h (a :: before) a' after value' st₂ (by rw [heq]; rfl) ?_
      simp only [runAll, bind_apply, ha, hbefore]

theorem leaves_runEach {body : α → Action Signal} : ∀ {items : List α} {st : State},
    (∀ before a after value st₁, items = before ++ a :: after →
      runEach body before st = .done (.normal value) st₁ → Q none st₁ → (body a st₁).Leaves Q) →
    Q none st → (runEach body items st).Leaves Q
  | [], _, _, hst => hst
  | a :: rest, st, h, hst => by
    rw [runEach]
    refine leaves_bind (h [] a rest .absence st rfl rfl hst) fun signal st₁ ha hst₁ => ?_
    cases signal with
    | returned value => exact hst₁
    | normal value =>
      refine leaves_runEach (fun before a' after value' st₂ heq hbefore => ?_) hst₁
      refine h (a :: before) a' after value' st₂ (by rw [heq]; rfl) ?_
      simp only [runEach, bind_apply, ha, hbefore]

section Loops

variable {condition : Action Value} {body step : Action Signal} (Turn : State → Prop)
  (hcondition : ∀ st, Turn st → Q none st → (condition st).Leaves Q)
  (hbody : ∀ st value st₁, Turn st → condition st = .done value st₁ → value.isTruthy = true →
    Q none st₁ → (body st₁).Leaves Q)

include hcondition hbody

theorem leaves_runWhile
    (hturn : ∀ st value st₁ value' st₂, Turn st → condition st = .done value st₁ →
      value.isTruthy = true → body st₁ = .done (.normal value') st₂ → Turn st₂) :
    ∀ (turns : Nat) {st : State}, Turn st → Q none st →
      (runWhile condition body turns st).Leaves Q
  | 0, _, _, _ => trivial
  | turns + 1, st, hst, hQ => by
    rw [runWhile]
    refine leaves_bind (hcondition st hst hQ) fun value st₁ hc hQ₁ => ?_
    by_cases htrue : value.isTruthy = true
    · rw [if_pos htrue]
      refine leaves_bind (hbody st value st₁ hst hc htrue hQ₁) fun signal st₂ hb hQ₂ => ?_
      cases signal with
      | returned value' => exact hQ₂
      | normal value' =>
        exact leaves_runWhile hturn turns (hturn st value st₁ value' st₂ hst hc htrue hb) hQ₂
    · rw [if_neg htrue]
      exact hQ₁

theorem leaves_runCounting
    (hstep : ∀ st value st₁ value' st₂, Turn st → condition st = .done value st₁ →
      value.isTruthy = true → body st₁ = .done (.normal value') st₂ → Q none st₂ →
        (step st₂).Leaves Q)
    (hturn : ∀ st value st₁ value' st₂ value'' st₃, Turn st → condition st = .done value st₁ →
      value.isTruthy = true → body st₁ = .done (.normal value') st₂ →
        step st₂ = .done (.normal value'') st₃ → Turn st₃) :
    ∀ (turns : Nat) {st : State}, Turn st → Q none st →
      (runCounting condition body step turns st).Leaves Q
  | 0, _, _, _ => trivial
  | turns + 1, st, hst, hQ => by
    rw [runCounting]
    refine leaves_bind (hcondition st hst hQ) fun value st₁ hc hQ₁ => ?_
    by_cases htrue : value.isTruthy = true
    · rw [if_pos htrue]
      refine leaves_bind (hbody st value st₁ hst hc htrue hQ₁) fun signal st₂ hb hQ₂ => ?_
      cases signal with
      | returned value' => exact hQ₂
      | normal value' =>
        refine leaves_bind (hstep st value st₁ value' st₂ hst hc htrue hb hQ₂)
          fun signal st₃ hs hQ₃ => ?_
        cases signal with
        | returned value'' => exact hQ₃
        | normal value'' =>
          exact leaves_runCounting hstep hturn turns
            (hturn st value st₁ value' st₂ value'' st₃ hst hc htrue hb hs) hQ₃
    · rw [if_neg htrue]
      exact hQ₁

end Loops

end Leaves

/-! ## 3. From every state -/

variable {c d : Change}

/-- **An action stays within a change**: every state that it leaves is in that relation to the
state in which it starts. -/
def Within (x : Action α) (c : Change) : Prop := ∀ st, (x st).Leaves (c.holds st)

theorem Within.mono {x : Action α} (h : x.Within c) (hcd : c ≤ d) : x.Within d :=
  fun st => (h st).mono fun _ _ => hcd

/-- An action that stays within a change keeps to it after what was done before. -/
theorem Within.after {x : Action α} (h : x.Within c) {st st₁ : State} (hst : c.holds st none st₁) :
    (x st₁).Leaves (c.holds st) := (h st₁).mono fun _ _ => c.trans hst

theorem within_pure (value : α) : (pure value : Action α).Within c := fun st => c.refl st

theorem Within.bind {x : Action α} {f : α → Action β} (hx : x.Within c)
    (hf : ∀ value, (f value).Within c) : (x >>= f).Within c :=
  fun st => leaves_bind (hx st) fun value _ _ h => (hf value).after h

theorem within_exhaust : (exhaust : Action α).Within c := fun _ => trivial

theorem within_state : state.Within c := fun st => c.refl st

theorem within_fail {error : RunError} (h : ∀ st, c.holds st (some error) st) :
    (fail error : Action α).Within c := h

theorem within_update {f : State → State} (h : ∀ st, c.holds st none (f st)) :
    (update f).Within c := h

theorem within_ofResult {result : Except RunError α}
    (h : ∀ error, result = .error error → ∀ st, c.holds st (some error) st) :
    (ofResult result).Within c := by
  intro st
  cases hr : result with
  | ok value => exact c.refl st
  | error error => exact h error hr st

theorem within_collect {f : α → Action β} (items : List α) (h : ∀ a ∈ items, (f a).Within c) :
    (collect f items).Within c := fun st =>
  leaves_collect (fun _ a _ _ _ heq _ hst₁ => (h a (by simp [heq])).after hst₁) (c.refl st)

theorem within_runAll {run : α → Action Signal} (items : List α) (last : Value)
    (h : ∀ a ∈ items, (run a).Within c) : (runAll run last items).Within c := fun st =>
  leaves_runAll (fun _ a _ _ _ heq _ hst₁ => (h a (by simp [heq])).after hst₁) (c.refl st)

theorem within_runEach {body : α → Action Signal} (h : ∀ a, (body a).Within c)
    (items : List α) : (runEach body items).Within c := fun st =>
  leaves_runEach (fun _ a _ _ _ _ _ hst₁ => (h a).after hst₁) (c.refl st)

theorem within_runWhile {condition : Action Value} {body : Action Signal}
    (hc : condition.Within c) (hb : body.Within c) (turns : Nat) :
    (runWhile condition body turns).Within c := fun st =>
  leaves_runWhile (fun _ => True) (fun _ _ h => hc.after h)
    (fun _ _ _ _ _ _ h => hb.after h) (fun _ _ _ _ _ _ _ _ _ => trivial) turns trivial (c.refl st)

theorem within_runCounting {condition : Action Value} {body step : Action Signal}
    (hc : condition.Within c) (hb : body.Within c) (hs : step.Within c) (turns : Nat) :
    (runCounting condition body step turns).Within c := fun st =>
  leaves_runCounting (fun _ => True) (fun _ _ h => hc.after h)
    (fun _ _ _ _ _ _ h => hb.after h) (fun _ _ _ _ _ _ _ _ _ h => hs.after h)
    (fun _ _ _ _ _ _ _ _ _ _ _ _ => trivial) turns trivial (c.refl st)

end Action

end TreeScript
