import TreeScript.Proofs.Run.Effects
import TreeScript.Proofs.Run.Moments

/-!
# The history of registrations

Each registration leaves a record that names the function and says whether another one was replaced.
So the log tells what is in the table (`Session.Agrees`): a name is in the table if a record has it,
a record says "replaced" if an earlier one has the same name, and what is stored under a name is the
function that was registered when the last record with that name was written.

That a function is the one of a record is a fact about the session and not about its state: there is
a moment at which it was registered (`Session.Registers`), and that wrote this very record.

A call of a name is refused for want of a function if no record has that name when its arguments have
been evaluated, and not otherwise.  That the call itself is refused is seen from the state: it is the
one in which the call began, whereas a body that has been entered leaves a record.
-/

namespace TreeScript

open Interpreter

/-! ## 1. Records of registrations -/

/-- The name and the mark of a record of a registration. -/
def Record.registration? : Record → Option (String × Bool)
  | .registered name isReplaced => some (name, isReplaced)
  | _ => none

/-- The records of registrations are those of level `DEBUG`, and they say so. -/
theorem Record.registration?_isSome_iff (record : Record) :
    record.registration?.isSome ↔
      record.level = .debug ∧ record.message = "function registered" := by
  cases record <;> simp [Record.registration?, Record.level, Record.message]

/-- The registrations that the log records, in their order: the name, and whether another function
was replaced. -/
def State.registrations (st : State) : List (String × Bool) :=
  st.records.filterMap Record.registration?

/-- The names of the registrations that the log records. -/
def State.registeredNames (st : State) : List String := st.registrations.map Prod.fst

theorem State.registrations_note (st : State) (record : Record) :
    (st.note record).registrations = st.registrations ++ record.registration?.toList := by
  have hrecords : (st.note record).records = st.records ++ [record] := by
    rw [State.records, State.log_note, List.reverse_cons]
    rfl
  rw [State.registrations, hrecords, List.filterMap_append]
  cases h : record.registration? <;> simp [State.registrations, h]

/-- A registration adds one record, with its name and its mark. -/
theorem State.registrations_register (st : State) (f : FunctionDef) :
    (st.register f).registrations =
      st.registrations ++ [(f.name, Entries.contains st.functions f.name)] :=
  State.registrations_note _ _

/-- Where a list with one more element is split at an element, that is the one more, or it stands
before it. -/
theorem split_of_concat_eq {α : Type} {items before after : List α} {last a : α}
    (h : items ++ [last] = before ++ a :: after) :
    (before = items ∧ a = last ∧ after = []) ∨
      ∃ rest, after = rest ++ [last] ∧ items = before ++ a :: rest := by
  rcases List.eq_nil_or_concat after with rfl | ⟨rest, last', rfl⟩
  · obtain ⟨hitems, hlast⟩ := List.append_inj' h rfl
    exact Or.inl ⟨hitems.symm, (List.singleton_inj.mp hlast).symm, rfl⟩
  · have h' : items ++ [last] = (before ++ a :: rest) ++ [last'] := by simpa using h
    obtain ⟨hitems, hlast⟩ := List.append_inj' h' rfl
    exact Or.inr ⟨rest, by rw [List.singleton_inj.mp hlast, List.concat_eq_append], hitems⟩

/-! ## 2. The table and the records -/

namespace Session

variable {limit : Nat} {start : State} {requests : List Request} {st : State}

/-- **The table agrees with the records**, in a state of a session. -/
structure Agrees (limit : Nat) (start : State) (requests : List Request) (st : State) : Prop where
  names : ∀ name, name ∈ Entries.keys st.functions ↔ name ∈ st.registeredNames
  replaced : ∀ {before after name isReplaced},
    st.registrations = before ++ (name, isReplaced) :: after →
      (isReplaced = true ↔ name ∈ before.map Prod.fst)
  stored : ∀ {before after name isReplaced},
    st.registrations = before ++ (name, isReplaced) :: after → name ∉ after.map Prod.fst →
      ∃ f st₀, Registers limit start requests f st₀ ∧
        (st₀.register f).registrations = before ++ [(name, isReplaced)] ∧
        Entries.get? st.functions name = some f

/-- Only the table and the registrations matter. -/
theorem Agrees.of_same {st' : State} (h : Agrees limit start requests st)
    (hfunctions : st'.functions = st.functions) (hrecorded : st'.registrations = st.registrations) :
    Agrees limit start requests st' where
  names name := by
    rw [hfunctions, State.registeredNames, hrecorded]
    exact h.names name
  replaced heq := h.replaced (hrecorded ▸ heq)
  stored heq hlast := by
    rw [hfunctions]
    exact h.stored (hrecorded ▸ heq) hlast

theorem Agrees.undisturbed (limit : Nat) (start : State) (requests : List Request) :
    Undisturbed (Agrees limit start requests) where
  stack _ _ h := h.of_same rfl rfl
  console _ _ h := h.of_same rfl rfl
  files _ _ h := h.of_same rfl rfl
  note st record hlevel h := by
    have hother : record.registration? = none := by
      cases record with
      | registered name isReplaced => exact absurd rfl hlevel
      | _ => rfl
    refine h.of_same rfl ?_
    rw [State.registrations_note, hother, Option.toList_none, List.append_nil]

/-- **A registration of the session leaves table and records in agreement.** -/
theorem Agrees.register (h : Agrees limit start requests st) {f : FunctionDef}
    (hf : Registers limit start requests f st) : Agrees limit start requests (st.register f) := by
  have hget : ∀ name, Entries.get? (st.register f).functions name =
      if f.name = name then some f else Entries.get? st.functions name := fun name =>
    Entries.get?_insert f.name name f st.functions
  have hkeys : ∀ name, name ∈ Entries.keys (st.register f).functions ↔
      name ∈ Entries.keys st.functions ∨ name = f.name := fun _ => Entries.mem_keys_insert
  have hregistrations := st.registrations_register f
  -- a record is the one that was added, or it was there before and the new one comes after it
  constructor
  · intro name
    rw [hkeys, h.names, State.registeredNames, State.registeredNames, hregistrations,
      List.map_append, List.mem_append, List.map_singleton, List.mem_singleton]
  · intro before after name isReplaced heq
    rw [hregistrations] at heq
    obtain ⟨rfl, hnew, rfl⟩ | ⟨rest, rfl, hold⟩ := split_of_concat_eq heq
    · cases hnew
      rw [Entries.contains_iff, h.names]
      rfl
    · exact h.replaced hold
  · intro before after name isReplaced heq hlast
    rw [hregistrations] at heq
    obtain ⟨rfl, hnew, rfl⟩ | ⟨rest, rfl, hold⟩ := split_of_concat_eq heq
    · cases hnew
      exact ⟨f, st, hf, hregistrations, by rw [hget, if_pos rfl]⟩
    · rw [List.map_append, List.mem_append, not_or] at hlast
      obtain ⟨g, st₀, hg, hrecord, hstored⟩ := h.stored hold hlast.1
      have hother : ¬ f.name = name := fun heq => hlast.2 (List.mem_singleton.mpr heq.symm)
      exact ⟨g, st₀, hg, hrecord, by rw [hget, if_neg hother, hstored]⟩

theorem Agrees.fresh (limit : Nat) (requests : List Request) (console : Console) (files : Files) :
    Agrees limit { console := console, files := files } requests
      { console := console, files := files } where
  names _ := Iff.rfl
  replaced heq := absurd heq (List.append_ne_nil_of_right_ne_nil _ (List.cons_ne_nil _ _)).symm
  stored heq := absurd heq (List.append_ne_nil_of_right_ne_nil _ (List.cons_ne_nil _ _)).symm

/-- **Table and records agree in every state that a session visits.** -/
theorem Visits.agrees {console : Console} {files : Files} {requests : List Request} {st : State}
    (h : Visits limit { console := console, files := files } requests st) :
    Agrees limit { console := console, files := files } requests st :=
  h.keeps (Agrees.undisturbed limit _ requests) (fun _ _ hf hst => hst.register hf)
    (Agrees.fresh limit requests console files)

/-- What a session begins ends in a state that it visits. -/
theorem Begins.leaves_visits {t : Task} (h : Begins limit start requests t st) :
    (t.run limit st).Leaves fun _ st' => Visits limit start requests st' := by
  cases hrun : t.run limit st with
  | done value st' => exact .ends h (by rw [hrun]; rfl)
  | failed error st' => exact .ends h (by rw [hrun]; rfl)
  | exhausted => trivial

/-- The state in which the arguments of a call have been evaluated is visited. -/
theorem Begins.visits_arguments {n : Nat} {name : String} {arguments : List Expr}
    {values : List Value} {st₁ : State}
    (h : Begins limit start requests (.expr (n + 1) (.call name arguments)) st)
    (hvalues : Action.collect (eval limit n) arguments st = .done values st₁) :
    Visits limit start requests st₁ := by
  refine Outcome.Leaves.of_done (Action.leaves_collect ?_ (.begins h)) hvalues
  rintro before e after vs st₂ rfl hdone -
  exact Action.leaves_discard.mp (h.part (.argument hdone)).leaves_visits

end Session

/-! ## 3. Calls that are refused -/

namespace Interpreter

variable {limit fuel : Nat} {name : String} {values : List Value} {st : State}

/-- The log from the start of a body on is longer than it was when the call began. -/
theorem length_records_lt_of_enter (f : FunctionDef) {st' : State}
    (h : ((st.noteExtra f values).enter f.name (parameterFrame f.parameters values)).Adds st') :
    st.records.length < st'.records.length := by
  have hadds : st.Adds (st.noteExtra f values) := by
    unfold State.noteExtra
    split
    · exact State.Adds.note _ _
    · exact State.Adds.refl st
  have hnoted := hadds.records.length_le
  have hentered := h.records.length_le
  simp only [State.records, State.log_enter, List.length_reverse, List.length_cons]
    at hnoted hentered ⊢
  omega

/-- A call of a function that is in the table is not refused for want of it: it leaves a record, or
is refused for something else. -/
theorem callFunction_ne_unknown (f : FunctionDef) :
    callFunction limit (exec limit fuel) f values st ≠ .failed (.unknownFunction name) st := by
  rcases Nat.lt_or_ge values.length f.parameters.length with hfew | henough
  · rw [callFunction_few hfew]
    simp
  rcases Nat.lt_or_ge limit st.stack.depth with hdeep | hroom
  · rw [callFunction_deep henough hdeep]
    simp
  rw [callFunction_eq_restore henough hroom (exec_callers limit fuel _ _)]
  have hmore : ∀ st', ((st.noteExtra f values).enter f.name
      (parameterFrame f.parameters values)).Adds st' → st.records.length < st'.records.length :=
    fun _ => length_records_lt_of_enter f
  have hlonger : ((exec limit fuel f.body ((st.noteExtra f values).enter f.name
      (parameterFrame f.parameters values))).restore Signal.value st.stack).Leaves fun _ st' =>
        st.records.length < st'.records.length :=
    (exec_adds limit fuel f.body _).restore fun _ st' h => hmore st' h
  intro hrun
  rw [hrun] at hlonger
  exact Nat.lt_irrefl _ hlonger

/-- **A call of a name that is not built in is refused for want of a function exactly if none is in
the table.** -/
theorem call_eq_unknown_iff (huser : Builtin.ofName? name = none) :
    call limit fuel name values st = .failed (.unknownFunction name) st ↔
      name ∉ Entries.keys st.functions := by
  rw [← Entries.get?_eq_none_iff, call]
  cases hf : Entries.get? st.functions name with
  | none =>
    unfold callWith
    simp only [huser, Action.bind_apply, Action.state, hf]
    exact iff_of_true rfl trivial
  | some f =>
    rw [callWith_user huser hf]
    exact iff_of_false (callFunction_ne_unknown f) (Option.some_ne_none f)

/-- **Registrations, table and calls agree.**  Let any requests be made one after the other of a
fresh interpreter, those that fail included, and take any state that the session visits.  The names
in the function table are those in the records of registrations so far; a record says that a function
was replaced if and only if an earlier one has the same name; and what is stored under the name of a
record with none of that name after it is the function whose registration wrote that record.  A call
of a name that is not built in is itself refused as of an unknown function if and only if no record so
far has the name; for a call in the code that is in the state in which its arguments have been
evaluated. -/
theorem registrations_agree (limit : Nat) (console : Console) (files : Files)
    (requests : List Request) :
    (∀ st, Session.Visits limit { console := console, files := files } requests st →
      Session.Agrees limit { console := console, files := files } requests st ∧
      ∀ fuel name values, Builtin.ofName? name = none →
        (call limit fuel name values st = .failed (.unknownFunction name) st ↔
          name ∉ st.registeredNames)) ∧
    ∀ n name arguments values st st₁,
      Session.Begins limit { console := console, files := files } requests
        (.expr (n + 1) (.call name arguments)) st →
      Action.collect (eval limit n) arguments st = .done values st₁ →
      Builtin.ofName? name = none →
        (eval limit (n + 1) (.call name arguments) st = .failed (.unknownFunction name) st₁ ↔
          name ∉ st₁.registeredNames) := by
  have hcall : ∀ {st}, Session.Visits limit { console := console, files := files } requests st →
      ∀ fuel name values, Builtin.ofName? name = none →
        (call limit fuel name values st = .failed (.unknownFunction name) st ↔
          name ∉ st.registeredNames) := fun hvisits fuel name values huser => by
    rw [call_eq_unknown_iff huser, hvisits.agrees.names name]
  refine ⟨fun st hvisits => ⟨hvisits.agrees, hcall hvisits⟩, ?_⟩
  intro n name arguments values st st₁ hbegins hvalues huser
  rw [← hcall (hbegins.visits_arguments hvalues) n name values huser]
  simp only [eval, Action.bind_apply, hvalues]
  rfl

/-- A function is called before it is declared; then a program declares it, its body declares another
one, and the program fails; and then the first one is replaced. -/
def redeclaring : List Request :=
  [.evaluate (.call "f" []),
    .execute ⟨[.declare "f" [] (.declare "g" [] (.block [])), .evaluate (.call "f" []),
      .evaluate (.identifier "x")]⟩,
    .define ⟨"f", [], .block []⟩]

/-- The first call is refused.  What the failed program registered is kept, the inner function being
the one that wrote the second record, and a third name is unknown. -/
theorem registrations_agree_redeclaring :
    eval 5 9 (.call "f" []) {} = .failed (.unknownFunction "f") {} ∧
    ∃ st, Session 5 {} redeclaring st ∧
      st.registrations = [("f", false), ("g", false), ("f", true)] ∧
      (∃ g st₀, Session.Registers 5 {} redeclaring g st₀ ∧
        (st₀.register g).registrations = [("f", false), ("g", false)] ∧
        Entries.get? st.functions "g" = some g) ∧
      call 5 9 "h" [] st = .failed (.unknownFunction "h") st := by
  have hfirst : Session.Begins 5 {} redeclaring (.expr 9 (.call "f" [])) {} :=
    .request (List.nil_append _).symm (.nil {}) .evaluate
  have hsession : Session 5 {} redeclaring _ := .cons 9 rfl (.cons 9 rfl (.cons 9 rfl (.nil _)))
  have hagree := registrations_agree 5 {} {} redeclaring
  obtain ⟨hagrees, hcalls⟩ := hagree.1 _ (.between (List.append_nil _).symm hsession)
  refine ⟨(hagree.2 8 "f" [] [] {} {} hfirst rfl rfl).mpr (by decide), _, hsession, rfl, ?_, ?_⟩
  · exact hagrees.stored (show _ = [("f", false)] ++ ("g", false) :: [("f", true)] from rfl)
      (by decide)
  · exact (hcalls 9 "h" [] rfl).mpr (by decide)

end Interpreter

end TreeScript
