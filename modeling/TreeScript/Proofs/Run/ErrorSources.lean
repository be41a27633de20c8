import TreeScript.Proofs.Run.Accesses
import TreeScript.Proofs.Run.Literals

/-!
# Where errors come from

Of the errors that a run can end in, two have a source outside the values at hand.  An error of a
device comes from the console alone (`Regime.devices`): files that cannot be read or written are
recorded, and the calls that asked for them go on.  A malformed tree comes from a literal of the
program (`Regime.wellFormed`).
-/

namespace TreeScript

namespace Builtin

/-- The check of an arity that is kept asks nothing of a device, and what it notes is no error and
tells of no cell. -/
theorem checkArity_enough (b : Builtin) {found : Nat} (h : b.arity.1 ≤ found) (st : State) :
    ∃ st', b.checkArity found st = .done () st' ∧ st'.files = st.files ∧
      st'.errors = st.errors ∧ st'.cellWarnings = st.cellWarnings := by
  unfold checkArity
  rw [if_neg (Nat.not_lt.mpr h)]
  cases b.arity.2 with
  | none => exact ⟨st, rfl, rfl, rfl, rfl⟩
  | some most =>
    by_cases hmore : most < found
    · simp only [if_pos hmore]
      exact ⟨_, rfl, rfl, State.errors_note_of_level (by nofun), State.cellWarnings_note rfl⟩
    · simp only [if_neg hmore]
      exact ⟨st, rfl, rfl, rfl, rfl⟩

/-- With two arguments or more, `write_csv` looks at its path, its rows and its header, in this
order. -/
theorem call_writeTable_checked {first second : Value} {rest : List Value} {st checked : State}
    (h : writeTable.checkArity (first :: second :: rest).length st = .done () checked) :
    writeTable.call (first :: second :: rest) st =
      (do
        let path ← Action.ofResult (pathOf first)
        let rows ← Action.ofResult (rowsOf second)
        let fields ← Action.ofResult (headerOf rest.head? rows)
        writeRows path fields rows : Action Value) checked := by
  unfold call
  rw [Action.bind_apply, h]
  cases rest <;> rfl

/-- **A call of `read_csv`** with a path makes one access; if that fails, its value is the empty
sequence. -/
theorem call_readTable_access (path : String) (rest : List Value) (st : State) :
    ∃ v st', readTable.call (.text path :: rest) st = .done v st' ∧
      st'.files = (Access.read path).after st.files ∧
      st'.errors = st.errors ++ (Access.read path).report st.files ∧
      ((Access.read path).report st.files ≠ [] → v = .sequence []) := by
  have henough : readTable.arity.1 ≤ (Value.text path :: rest).length := by simp [arity]
  obtain ⟨checked, hcheck, hfiles, herrors, -⟩ := checkArity_enough readTable henough st
  have hcall : readTable.call (.text path :: rest) st = readRows path checked := by
    unfold call
    rw [Action.bind_apply, hcheck]
    rfl
  obtain ⟨v, st', hread, -, hafter, hreport, hvalue⟩ := readRows_access path checked
  rw [hfiles] at hafter hreport hvalue
  rw [herrors] at hreport
  exact ⟨v, st', hcall.trans hread, hafter, hreport, hvalue⟩

/-- With a path, rows and a header, `write_csv` writes the rows, after it has noted what it does not
look at. -/
theorem call_writeTable_rows (path : String) (rows : List (List (String × Value)))
    (rest : List Value) {fields : List String} (hfields : headerOf rest.head? rows = .ok fields)
    (st : State) :
    ∃ checked, writeTable.call (.text path :: .sequence (rows.map .mapping) :: rest) st =
        writeRows path fields rows checked ∧ checked.files = st.files ∧
      checked.errors = st.errors ∧ checked.cellWarnings = st.cellWarnings := by
  have henough : writeTable.arity.1 ≤
      (Value.text path :: .sequence (rows.map .mapping) :: rest).length := by simp [arity]
  obtain ⟨checked, hcheck, hkept⟩ := checkArity_enough writeTable henough st
  have hrows : rowsOf (.sequence (rows.map .mapping)) = .ok rows := mappingsOf_map rows
  refine ⟨checked, ?_, hkept⟩
  rw [call_writeTable_checked hcheck, hrows]
  simp only [pathOf, Action.ofResult, Action.bind_apply, hfields]

/-- **A call of `write_csv`** with a path, rows and a header makes one access, and its value is
absence whether that fails or not. -/
theorem call_writeTable_access (path : String) (rows : List (List (String × Value)))
    (rest : List Value) {fields : List String} (hfields : headerOf rest.head? rows = .ok fields)
    (st : State) :
    ∃ st', writeTable.call (.text path :: .sequence (rows.map .mapping) :: rest) st =
        .done .absence st' ∧
      st'.files = (Access.write path (Table.render fields rows)).after st.files ∧
      st'.errors = st.errors ++
        (Access.write path (Table.render fields rows)).report st.files := by
  obtain ⟨checked, hwritten, hfiles, herrors, -⟩ := call_writeTable_rows path rows rest hfields st
  obtain ⟨st', hwrite, -, hafter, hreport⟩ := writeRows_access path fields rows checked
  rw [hfiles] at hafter hreport
  rw [herrors] at hreport
  exact ⟨st', hwritten.trans hwrite, hafter, hreport⟩

end Builtin

namespace Interpreter

/-- **Where errors come from.**  A program that is started on some console and some files ends in
an error of a device only if the console fails.  The files that it leaves are those after a list of
accesses, and its records of errors are the reports of those that failed, in their order; a call
that makes such an access goes on with the empty sequence or with absence.  It ends in a malformed
tree only if a literal stands somewhere in it whose payload does not fit its kind. -/
theorem error_sources (limit fuel : Nat) (p : Program) (console : Console) (files : Files) :
    ((∀ n, console.failure n = none) → ∀ error st',
      execute limit fuel p { console := console, files := files } = .failed error st' →
        error.kind ≠ .inputOutput) ∧
    ((execute limit fuel p { console := console, files := files }).Leaves fun _ st' =>
      ∃ accesses, st'.files = Access.afterAll files accesses ∧
        st'.errors = Access.reports files accesses) ∧
    (∀ (path : String) (rest : List Value) (st : State), ∃ v st',
      Builtin.readTable.call (.text path :: rest) st = .done v st' ∧
        st'.files = (Access.read path).after st.files ∧
        st'.errors = st.errors ++ (Access.read path).report st.files ∧
        ((Access.read path).report st.files ≠ [] → v = .sequence [])) ∧
    (∀ (path : String) (rows : List (List (String × Value))) (rest : List Value)
      (fields : List String) (st : State), Builtin.headerOf rest.head? rows = .ok fields → ∃ st',
        Builtin.writeTable.call (.text path :: .sequence (rows.map .mapping) :: rest) st =
          .done .absence st' ∧
        st'.files = (Access.write path (Table.render fields rows)).after st.files ∧
        st'.errors = st.errors ++
          (Access.write path (Table.render fields rows)).report st.files) ∧
    ∀ error st', execute limit fuel p { console := console, files := files } = .failed error st' →
      error.kind = .malformedTree →
        ∃ payload kind, .literal payload kind ∈ p.nodes ∧ kind.admits payload = false := by
  have hdevices : (execute limit fuel p { console := console, files := files }).Leaves
      (DevicesAt { console := console, files := files }) :=
    (Regime.devices limit).execute_within fuel (fun _ _ => trivial) _
  refine ⟨?_, ?_, Builtin.call_readTable_access, fun path rows rest fields st h =>
    Builtin.call_writeTable_access path rows rest h st, ?_⟩
  · rintro hworks error st' hrun hkind
    rw [hrun] at hdevices
    cases error with
    | inputOutput detail =>
      obtain ⟨n, failure, hfails, -⟩ := DevicesAt.printed hdevices detail rfl
      rw [hworks n] at hfails
      cases hfails
    | _ => cases hkind
  · refine hdevices.mono fun _ st' h => ?_
    obtain ⟨accesses, hfiles, herrors⟩ := h.accessed
    exact ⟨accesses, hfiles, herrors⟩
  · rintro error st' hrun hkind
    cases error with
    | malformedTree detail => exact exists_literal_of_execute hrun
    | _ => cases hkind

/-- A program that reads a file which is not there, prints what it got, and calls a function whose
literal is no number. -/
def misfitting : Program :=
  ⟨[.declare "f" [] (.giveBack (some (.literal (.text "one") .number))),
    .evaluate (.call "print" [.call "read_csv" [.literal (.text "gone.csv") .text]]),
    .evaluate (.call "f" [])]⟩

/-- It ends in a malformed tree, after one record of an error. -/
theorem error_sources_misfitting :
    ∃ error st', execute 5 9 misfitting {} = .failed error st' ∧ error.kind ≠ .inputOutput ∧
      st'.errors = [Builtin.readTable.failureRecord "gone.csv" .notFound] ∧
      (∃ payload kind, .literal payload kind ∈ misfitting.nodes ∧ kind.admits payload = false) ∧
      ∃ later, Builtin.writeTable.call [.text "no/t.csv", .sequence [], .absence] st' =
        .done .absence later := by
  have hrun : execute 5 9 misfitting {} = .failed _ _ := rfl
  obtain ⟨hdevice, -, -, hwrite, hmalformed⟩ := error_sources 5 9 misfitting {} {}
  obtain ⟨later, hlater, -⟩ := hwrite "no/t.csv" [] [.absence] [] _ rfl
  exact ⟨_, _, hrun, hdevice (fun _ => rfl) _ _ hrun, rfl, hmalformed _ _ hrun rfl, later, hlater⟩

end Interpreter

end TreeScript
