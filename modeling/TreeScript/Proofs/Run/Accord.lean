import Mathlib.Data.List.Forall2
import TreeScript.Proofs.Run.Twin
import TreeScript.Proofs.Value.Closed

/-!
# Two runs in step

Where `FollowedBy` lets one run go further than the other, runs `InStep` have the same fuel and make
the same steps: both end with the same value, or both with an error, or both run out of fuel.  An
`Accord` says which states of the two correspond, how the error of the second run is worded after
that of the first, and what the values have that both of them compute.  An accord of a run with
itself says what the run keeps.

Going in step is carried from the parts of an action to the action as `Within` and `FollowedBy` are.
What the values have is given to the action that goes on with them.
-/

namespace TreeScript

/-! ## 1. Outcomes and actions -/

/-- How two runs in step are compared: which states correspond, what all values have, and with which
error the second run fails where the first one fails. -/
structure Accord where
  states : State → State → Prop
  value : Value → Prop := fun _ => True
  error : RunError → RunError := id

namespace Accord

/-- What the value has with which a statement ends. -/
def signal (A : Accord) (signal : Signal) : Prop := A.value signal.value

/-- The states and the errors of the second run are those of the first, changed by a map. -/
def along (map : State → State) (error : RunError → RunError) : Accord where
  states st st' := st' = map st
  error := error

/-- The same states correspond, and nothing is excused. -/
def simulation (A : Accord) : Simulation where
  states := A.states
  excused _ := False

end Accord

/-- The second outcome is that of the first, up to corresponding errors and states; the value has
`P`. -/
def Outcome.InStep {α : Type} (A : Accord) (P : α → Prop) (outcome outcome' : Outcome α) : Prop :=
  match outcome with
  | .done value st => P value ∧ ∃ st', outcome' = .done value st' ∧ A.states st st'
  | .failed error st => ∃ st', outcome' = .failed (A.error error) st' ∧ A.states st st'
  | .exhausted => outcome' = .exhausted

/-- An outcome whose state and whose error are changed. -/
def Outcome.along {α : Type} (map : State → State) (error : RunError → RunError) :
    Outcome α → Outcome α
  | .done value st => .done value (map st)
  | .failed e st => .failed (error e) (map st)
  | .exhausted => .exhausted

/-- Values and stacks may be put in place on both sides, if the states correspond after that. -/
theorem Outcome.InStep.restore {α β : Type} {A : Accord} {inner : State → State → Prop}
    {P : α → Prop} {Q : β → Prop} {outcome outcome' : Outcome α} {value : α → β}
    {stack stack' : CallStack} (h : outcome.InStep { A with states := inner } P outcome')
    (hvalue : ∀ a, P a → Q (value a))
    (hstates : ∀ st st', inner st st' →
      A.states { st with stack := stack } { st' with stack := stack' }) :
    (outcome.restore value stack).InStep A Q (outcome'.restore value stack') := by
  cases outcome with
  | done a st =>
    obtain ⟨ha, st', rfl, hst⟩ := h
    exact ⟨hvalue a ha, _, rfl, hstates _ _ hst⟩
  | failed error st =>
    obtain ⟨st', rfl, hst⟩ := h
    exact ⟨_, rfl, hstates _ _ hst⟩
  | exhausted =>
    have heq : outcome' = .exhausted := h
    rw [heq]
    rfl

namespace Action

variable {α α' β : Type} {A : Accord} {P : α → Prop} {Q : β → Prop}

/-- **The second action goes in step with the first**, from any two corresponding states. -/
def InStep (A : Accord) (P : α → Prop) (x y : Action α) : Prop :=
  ∀ st st', A.states st st' → (x st).InStep A P (y st')

theorem inStep_pure {value : α} (h : P value) : (pure value : Action α).InStep A P (pure value) :=
  fun _ st' hst => ⟨h, st', rfl, hst⟩

theorem InStep.bind {x y : Action α} {f g : α → Action β} (hx : x.InStep A P y)
    (hf : ∀ value, P value → (f value).InStep A Q (g value)) :
    (x >>= f).InStep A Q (y >>= g) := by
  intro st st' hst
  have h := hx st st' hst
  rw [bind_apply, bind_apply]
  cases hr : x st with
  | done value st₁ =>
    rw [hr] at h
    obtain ⟨hvalue, st₁', heq, hst₁⟩ := h
    rw [heq]
    exact hf value hvalue st₁ st₁' hst₁
  | failed error st₁ =>
    rw [hr] at h
    obtain ⟨st₁', heq, hst₁⟩ := h
    rw [heq]
    exact ⟨st₁', rfl, hst₁⟩
  | exhausted =>
    rw [hr] at h
    have heq : y st' = .exhausted := h
    rw [heq]
    rfl

theorem inStep_exhaust : (exhaust : Action α).InStep A P exhaust := fun _ _ _ => rfl

theorem inStep_fail {error error' : RunError} (h : A.error error = error') :
    (fail error : Action α).InStep A P (fail error') := by
  intro st st' hst
  subst h
  exact ⟨st', rfl, hst⟩

theorem inStep_ofResult {result : Except RunError α} (hok : ∀ {a}, result = .ok a → P a)
    (herror : ∀ {error}, result = .error error → A.error error = error) :
    (ofResult result).InStep A P (ofResult result) := by
  cases result with
  | ok a => exact inStep_pure (hok rfl)
  | error error => exact inStep_fail (herror rfl)

theorem inStep_update {f g : State → State}
    (h : ∀ {st st'}, A.states st st' → A.states (f st) (g st')) :
    (update f).InStep A (fun _ => True) (update g) :=
  fun _ _ hst => ⟨trivial, _, rfl, h hst⟩

/-- **An accord along a map**: the second run ends as the first, changed by the map. -/
theorem InStep.eq_along {map : State → State} {error : RunError → RunError} {x y : Action α}
    (h : x.InStep (.along map error) P y) (st : State) :
    y (map st) = (x st).along map error := by
  have hends := h st (map st) rfl
  cases hr : x st with
  | done value st₁ =>
    rw [hr] at hends
    obtain ⟨-, _, heq, rfl⟩ := hends
    exact heq
  | failed e st₁ =>
    rw [hr] at hends
    obtain ⟨_, heq, rfl⟩ := hends
    exact heq
  | exhausted =>
    rw [hr] at hends
    exact hends

/-! ## 2. Lists and loops -/

theorem inStep_collect {R : α → α' → Prop} {f : α → Action β} {g : α' → Action β}
    (h : ∀ a a', R a a' → (f a).InStep A Q (g a')) :
    ∀ {items : List α} {items' : List α'}, List.Forall₂ R items items' →
      (collect f items).InStep A (fun bs => ∀ b ∈ bs, Q b) (collect g items')
  | _, _, .nil => inStep_pure fun _ hb => absurd hb List.not_mem_nil
  | _, _, .cons ha hrest => by
    refine (h _ _ ha).bind fun b hb => ?_
    refine (inStep_collect h hrest).bind fun bs hbs => ?_
    exact inStep_pure (List.forall_mem_cons.mpr ⟨hb, hbs⟩)

theorem inStep_runAll {R : α → α' → Prop} {f : α → Action Signal} {g : α' → Action Signal}
    (h : ∀ a a', R a a' → (f a).InStep A A.signal (g a')) :
    ∀ {items : List α} {items' : List α'} {last : Value}, A.value last →
      List.Forall₂ R items items' → (runAll f last items).InStep A A.signal (runAll g last items')
  | _, _, _, hlast, .nil => inStep_pure hlast
  | _, _, _, _, .cons ha hrest => by
    refine (h _ _ ha).bind fun signal hsignal => ?_
    cases signal with
    | normal value => exact inStep_runAll h hsignal hrest
    | returned value => exact inStep_pure hsignal

theorem inStep_runEach {f g : α → Action Signal} (habsence : A.value .absence) :
    ∀ {items : List α}, (∀ a ∈ items, (f a).InStep A A.signal (g a)) →
      (runEach f items).InStep A A.signal (runEach g items)
  | [], _ => inStep_pure habsence
  | a :: rest, h => by
    obtain ⟨ha, hrest⟩ := List.forall_mem_cons.mp h
    refine ha.bind fun signal hsignal => ?_
    cases signal with
    | normal value => exact inStep_runEach habsence hrest
    | returned value => exact inStep_pure hsignal

section Loops

variable {c c' : Action Value} {b b' k k' : Action Signal} (habsence : A.value .absence)
  (hc : c.InStep A A.value c') (hb : b.InStep A A.signal b') (hk : k.InStep A A.signal k')

include habsence hc hb

theorem inStep_runWhile (turns : Nat) :
    (runWhile c b turns).InStep A A.signal (runWhile c' b' turns) := by
  induction turns with
  | zero => exact inStep_exhaust
  | succ turns ih =>
    refine hc.bind fun value _ => ?_
    split
    · refine hb.bind fun signal hsignal => ?_
      cases signal with
      | normal value => exact ih
      | returned value => exact inStep_pure hsignal
    · exact inStep_pure habsence

include hk in
theorem inStep_runCounting (turns : Nat) :
    (runCounting c b k turns).InStep A A.signal (runCounting c' b' k' turns) := by
  induction turns with
  | zero => exact inStep_exhaust
  | succ turns ih =>
    refine hc.bind fun value _ => ?_
    split
    · refine hb.bind fun signal hsignal => ?_
      cases signal with
      | returned value => exact inStep_pure hsignal
      | normal value =>
        refine hk.bind fun signal hsignal => ?_
        cases signal with
        | normal value => exact ih
        | returned value => exact inStep_pure hsignal
    · exact inStep_pure habsence

end Loops

end Action

/-! ## 3. Sound accords -/

/-- The kinds of errors that quote neither a variable nor the limit of calls. -/
def ErrorKind.IsCommon (kind : ErrorKind) : Prop := kind ≠ .unboundName ∧ kind ≠ .stackOverflow

instance (kind : ErrorKind) : Decidable kind.IsCommon := inferInstanceAs (Decidable (_ ∧ _))

/-- **What an accord keeps of every operation**: what values have goes from parts to wholes and
back, common errors are worded alike, and the two worlds are the same and stay so. -/
structure Accord.Sound (A : Accord) : Prop where
  value : Value.Closed A.value
  error : ∀ {error : RunError}, error.kind.IsCommon → A.error error = error
  world : A.simulation.SharesWorld

namespace Accord.Sound

variable {α : Type} {A : Accord} {P : α → Prop} (hA : A.Sound)

include hA

theorem absence : A.value .absence := hA.value.atom rfl

theorem fail {error : RunError} (h : error.kind.IsCommon) :
    (Action.fail error : Action α).InStep A P (Action.fail error) :=
  Action.inStep_fail (hA.error h)

/-- The result of an operation that raises errors of one common kind. -/
theorem ofResult {result : Except RunError α} {kind : ErrorKind}
    (hok : ∀ {a}, result = .ok a → P a) (herror : ∀ {error}, result = .error error →
      error.kind = kind) (hkind : kind.IsCommon := by decide) :
    (Action.ofResult result).InStep A P (Action.ofResult result) :=
  Action.inStep_ofResult hok fun h => hA.error (herror h ▸ hkind)

end Accord.Sound

/-- An accord along a map is sound, if the map keeps the world and what is done to it. -/
theorem Accord.sound_along {map : State → State} {error : RunError → RunError}
    (herror : ∀ {e : RunError}, e.kind.IsCommon → error e = e)
    (hconsole : ∀ st, (map st).console = st.console) (hfiles : ∀ st, (map st).files = st.files)
    (hprint : ∀ st console, { map st with console := console } = map { st with console := console })
    (hwrite : ∀ st files, { map st with files := files } = map { st with files := files })
    (hnote : ∀ st {record : Record}, record.IsMishap → (map st).note record = map (st.note record)) :
    (Accord.along map error).Sound where
  value := Value.closed_true
  error := herror
  world :=
    { console := by
        rintro st _ rfl
        exact hconsole st
      files := by
        rintro st _ rfl
        exact hfiles st
      print := by
        rintro st _ console rfl
        exact hprint st console
      write := by
        rintro st _ files rfl
        exact hwrite st files
      note := by
        rintro st _ record h rfl
        exact hnote st h }

/-! ## 4. Built-in functions -/

theorem Builtin.isAtom_extremum (pick : Float → Float → Float) (xs : List Float) :
    (Builtin.extremum pick xs).isAtom = true := by
  cases xs <;> rfl

namespace Builtin

variable {A : Accord} (hA : A.Sound)

include hA

theorem checkArity_inStep (b : Builtin) (found : Nat) :
    (b.checkArity found).InStep A (fun _ => True) (b.checkArity found) := by
  unfold Builtin.checkArity
  split
  · exact hA.fail ⟨nofun, nofun⟩
  · split
    · exact Action.inStep_pure trivial
    · split
      · exact Action.inStep_update fun hst => hA.world.note (Or.inl rfl) hst
      · exact Action.inStep_pure trivial

/-- What follows another action in two runs on the same world ends in step with itself, if it only
ends with values that are kept and errors that are worded alike. -/
theorem inStep_of_followedBy {x y : Action Value} (h : x.FollowedBy A.simulation y)
    (hx : ∀ st, match x st with
      | .done value _ => A.value value
      | .failed error _ => error.kind.IsCommon
      | .exhausted => False) : x.InStep A A.value y := by
  intro st st' hst
  have hends := hx st
  have hfollows := h st st' hst
  cases hr : x st with
  | done value st₁ =>
    rw [hr] at hends hfollows
    exact ⟨hends, hfollows⟩
  | failed error st₁ =>
    rw [hr] at hends hfollows
    -- following repeats the error as it is, and the accord does not reword a common one
    obtain ⟨st₁', heq, hst₁⟩ := hfollows.resolve_left id
    refine ⟨st₁', ?_, hst₁⟩
    rw [heq, hA.error hends]
  | exhausted =>
    rw [hr] at hends
    exact hends.elim

theorem printLine_inStep (line : String) :
    (printLine line).InStep A A.value (printLine line) := by
  refine inStep_of_followedBy hA (printLine_followedBy hA.world line) fun st => ?_
  unfold printLine
  rcases st.console.print line with ⟨_ | reason, console⟩
  · exact hA.absence
  · exact (by decide : ErrorKind.inputOutput.IsCommon)

/-- A table is kept, and so is the empty sequence that stands for a file that was not read. -/
theorem readRows_inStep (path : String) :
    (readRows path).InStep A A.value (readRows path) := by
  refine inStep_of_followedBy hA (readRows_followedBy hA.world path) fun st => ?_
  unfold readRows
  cases st.files.read path with
  | ok text => exact hA.value.table text
  | error failure => exact hA.value.sequence fun v hv => absurd hv List.not_mem_nil

theorem writeRows_inStep (path : String) (fields : List String)
    (rows : List (List (String × Value))) :
    (writeRows path fields rows).InStep A A.value (writeRows path fields rows) := by
  refine inStep_of_followedBy hA (writeRows_followedBy hA.world path fields rows) fun st => ?_
  unfold writeRows
  dsimp only
  generalize (if 0 < Table.countUnfaithful rows then
    st.note (.unfaithfulCells path (Table.countUnfaithful rows)) else st) = noted
  cases noted.files.write path (Table.render fields rows) with
  | ok files => exact hA.absence
  | error failure => exact hA.absence

theorem argument_inStep (arguments : List Value) (n : Nat) :
    (Action.ofResult (argument arguments n)).InStep A (fun _ => True)
      (Action.ofResult (argument arguments n)) := by
  have hkind : ∀ {error}, argument arguments n = .error error → error.kind = .internal := by
    intro error h
    unfold argument at h
    split at h
    · cases h
    · cases h
      rfl
  exact hA.ofResult (fun _ => trivial) hkind

theorem numbers_inStep (v : Value) :
    (Action.ofResult (numbers v)).InStep A (fun _ => True) (Action.ofResult (numbers v)) :=
  hA.ofResult (fun _ => trivial) kind_of_numbers

theorem pathOf_inStep (v : Value) :
    (Action.ofResult (pathOf v)).InStep A (fun _ => True) (Action.ofResult (pathOf v)) :=
  hA.ofResult (fun _ => trivial) kind_of_pathOf

/-- **A built-in function goes in step with itself**: it sees the console and the files only. -/
theorem call_inStep (b : Builtin) (arguments : List Value) :
    (b.call arguments).InStep A A.value (b.call arguments) := by
  refine (checkArity_inStep hA b arguments.length).bind fun _ _ => ?_
  cases b with
  | print => exact printLine_inStep hA _
  | len =>
    refine (argument_inStep hA arguments 0).bind fun _ _ => ?_
    exact Action.inStep_pure (hA.value.atom rfl)
  | sum =>
    refine (argument_inStep hA arguments 0).bind fun v _ => ?_
    exact (numbers_inStep hA v).bind fun _ _ => Action.inStep_pure (hA.value.atom rfl)
  | max =>
    refine (argument_inStep hA arguments 0).bind fun v _ => (numbers_inStep hA v).bind fun xs _ => ?_
    exact Action.inStep_pure (hA.value.atom (Builtin.isAtom_extremum _ xs))
  | min =>
    refine (argument_inStep hA arguments 0).bind fun v _ => (numbers_inStep hA v).bind fun xs _ => ?_
    exact Action.inStep_pure (hA.value.atom (Builtin.isAtom_extremum _ xs))
  | readTable =>
    refine (argument_inStep hA arguments 0).bind fun v _ => (pathOf_inStep hA v).bind fun _ _ => ?_
    exact readRows_inStep hA _
  | writeTable =>
    refine (argument_inStep hA arguments 0).bind fun v _ => (pathOf_inStep hA v).bind fun _ _ => ?_
    refine (argument_inStep hA arguments 1).bind fun _ _ => ?_
    refine (hA.ofResult (fun _ => trivial) kind_of_rowsOf).bind fun (_ : List _) (_ : True) => ?_
    refine (hA.ofResult (fun _ => trivial) kind_of_headerOf).bind fun (_ : List _) (_ : True) => ?_
    exact writeRows_inStep hA _ _ _

end Builtin

end TreeScript
