import TreeScript.Proofs.Json.Reading
import TreeScript.Proofs.Run.ErrorSources

/-!
# A table is written whole or not at all

A call of `write_csv` is refused, or it leaves the whole table in its file, or it leaves a record of
the failure; in each case nothing else has happened to the files (`writeTable_fate`).  It looks at all
that it was given before it touches a file, so an argument that does not fit, or a row far behind,
leaves no part of a table.

What the arguments have to be is told by their forms (`Asks`).  If they have one of these, the call
comes to the one access that `call_writeTable_access` speaks of, and otherwise to an error.
-/

namespace TreeScript

namespace Builtin

/-! ## 1. Arguments -/

/-- **The arguments ask for these rows to be written to this path, under these field names**: those
that are given, or else the keys of the first row.  Whatever comes fourth or later is not looked
at. -/
inductive Asks : List Value → String → List String → List (List (String × Value)) → Prop where
  | unnamed (path : String) (rows : List (List (String × Value))) :
      Asks [.text path, .sequence (rows.map .mapping)] path (Entries.keys (rows.headD [])) rows
  | absent (path : String) (rows : List (List (String × Value))) (rest : List Value) :
      Asks (.text path :: .sequence (rows.map .mapping) :: .absence :: rest) path
        (Entries.keys (rows.headD [])) rows
  | named (path : String) (rows : List (List (String × Value))) (names : List String)
      (rest : List Value) :
      Asks (.text path :: .sequence (rows.map .mapping) :: .sequence (names.map .text) :: rest) path
        names rows

section Inversion

variable {v : Value}

theorem pathOf_eq_ok {path : String} (h : pathOf v = .ok path) : v = .text path := by
  unfold pathOf at h
  split at h
  · cases h
    rfl
  · cases h

theorem mappingsOf_eq_ok : ∀ {items : List Value} {rows : List (List (String × Value))},
    mappingsOf items = .ok rows → items = rows.map .mapping := by
  intro items rows h
  fun_induction mappingsOf items generalizing rows with
  | case1 =>
    cases h
    rfl
  | case2 entries rest ih =>
    obtain ⟨more, hrest, rfl⟩ := map_eq_ok.mp h
    rw [List.map_cons, ih hrest]
  | case3 other rest _ => cases h

theorem rowsOf_eq_ok {rows : List (List (String × Value))} (h : rowsOf v = .ok rows) :
    v = .sequence (rows.map .mapping) := by
  unfold rowsOf at h
  split at h
  · exact congrArg _ (mappingsOf_eq_ok h)
  · cases h

theorem namesOf_map : ∀ names : List String, namesOf (names.map .text) = .ok names
  | [] => rfl
  | name :: rest => by
    rw [List.map_cons, namesOf, namesOf_map rest]
    rfl

theorem namesOf_eq_ok : ∀ {items : List Value} {names : List String},
    namesOf items = .ok names → items = names.map .text := by
  intro items names h
  fun_induction namesOf items generalizing names with
  | case1 =>
    cases h
    rfl
  | case2 name rest ih =>
    obtain ⟨more, hrest, rfl⟩ := map_eq_ok.mp h
    rw [List.map_cons, ih hrest]
  | case3 other rest _ => cases h

end Inversion

variable {arguments : List Value} {path : String} {fields : List String}
  {rows : List (List (String × Value))}

theorem asks_iff :
    Asks arguments path fields rows ↔
      ∃ rest, arguments = .text path :: .sequence (rows.map .mapping) :: rest ∧
        headerOf rest.head? rows = .ok fields := by
  constructor
  · intro h
    cases h with
    | unnamed => exact ⟨[], rfl, rfl⟩
    | absent _ _ rest => exact ⟨.absence :: rest, rfl, rfl⟩
    | named _ _ _ rest => exact ⟨.sequence (fields.map .text) :: rest, rfl, namesOf_map fields⟩
  · rintro ⟨rest, rfl, hfields⟩
    cases rest with
    | nil =>
      cases hfields
      exact .unnamed path rows
    | cons third rest =>
      unfold headerOf at hfields
      split at hfields
      · rename_i items hthird
        obtain rfl : third = .sequence items := Option.some.inj hthird
        rw [namesOf_eq_ok hfields]
        exact .named path rows fields rest
      · rename_i hthird
        cases hthird
      · rename_i hthird
        obtain rfl : third = .absence := Option.some.inj hthird
        cases hfields
        exact .absent path rows rest
      · cases hfields

/-- Arguments ask for a table if each of the first three that is needed or given has its form. -/
theorem exists_asks_iff :
    (∃ path fields rows, Asks arguments path fields rows) ↔
      (∃ path, arguments[0]? = some (Value.text path)) ∧
        (∃ rows : List (List (String × Value)),
          arguments[1]? = some (Value.sequence (rows.map .mapping))) ∧
        ∀ third : Value, arguments[2]? = some third →
          third = .absence ∨ ∃ names : List String, third = .sequence (names.map .text) := by
  constructor
  · rintro ⟨path, fields, rows, h⟩
    cases h with
    | unnamed => exact ⟨⟨path, rfl⟩, ⟨rows, rfl⟩, nofun⟩
    | absent =>
      exact ⟨⟨path, rfl⟩, ⟨rows, rfl⟩, fun _ h => Or.inl (Option.some.inj h).symm⟩
    | named =>
      exact ⟨⟨path, rfl⟩, ⟨rows, rfl⟩, fun _ h => Or.inr ⟨fields, (Option.some.inj h).symm⟩⟩
  · rintro ⟨⟨path, hpath⟩, ⟨rows, hrows⟩, hthird⟩
    match arguments, hpath, hrows with
    | [_, _], rfl, rfl => exact ⟨_, _, _, .unnamed path rows⟩
    | _ :: _ :: third :: rest, rfl, rfl =>
      rcases hthird third rfl with rfl | ⟨names, rfl⟩
      · exact ⟨_, _, _, .absent path rows rest⟩
      · exact ⟨_, _, _, .named path rows names rest⟩

/-! ## 2. How a call ends -/

/-- How a call of `write_csv` can end. -/
inductive WriteFate where
  | refused | written | reported
  deriving DecidableEq, Repr

/-- **What an end means.**  A call that is refused ends in an error of its arguments, and has done
nothing to the files and recorded no error and no cell.  A call that has written leaves exactly the
rendered table in its file, all other files as they were, and no record of an error.  A call that has
reported leaves all files as they were, and one record of an error. -/
def WriteFate.Holds (arguments : List Value) (st : State) (outcome : Outcome Value) :
    WriteFate → Prop
  | .refused => ∃ error st', outcome = .failed error st' ∧
      (error.kind = .arityMismatch ∨ error.kind = .typeError) ∧ st'.files = st.files ∧
      st'.errors = st.errors ∧ st'.cellWarnings = st.cellWarnings
  | .written => ∃ st' path fields rows, outcome = .done .absence st' ∧
      Asks arguments path fields rows ∧
      st.files.Replaced st'.files path (Table.render fields rows) ∧ st'.errors = st.errors
  | .reported => ∃ st' record, outcome = .done .absence st' ∧ st'.files = st.files ∧
      st'.errors = st.errors ++ [record]

/-- A call whose arguments ask for a table makes one access, which succeeds or is reported. -/
theorem call_of_asks (h : Asks arguments path fields rows) (st : State) :
    WriteFate.written.Holds arguments st (writeTable.call arguments st) ∨
      WriteFate.reported.Holds arguments st (writeTable.call arguments st) := by
  obtain ⟨rest, rfl, hfields⟩ := asks_iff.mp h
  obtain ⟨st', hcall, hfiles, herrors⟩ := call_writeTable_access path rows rest hfields st
  cases hwrite : (Access.write path (Table.render fields rows)).perform st.files with
  | ok files =>
    rw [Access.after_of_ok hwrite] at hfiles
    rw [Access.report_of_ok hwrite, List.append_nil] at herrors
    refine Or.inl ⟨st', path, fields, rows, hcall, h, ?_, herrors⟩
    rw [hfiles]
    exact Files.replaced_of_write hwrite
  | error failure =>
    rw [Access.after_of_error hwrite] at hfiles
    rw [Access.report_of_error hwrite] at herrors
    exact Or.inr ⟨st', _, hcall, hfiles, herrors⟩

/-- A call whose arguments ask for no table is refused: the first argument that does not fit ends
it. -/
theorem call_of_not_asks (h : ¬ ∃ path fields rows, Asks arguments path fields rows) (st : State) :
    WriteFate.refused.Holds arguments st (writeTable.call arguments st) := by
  match arguments with
  | [] => exact ⟨_, st, rfl, Or.inl rfl, rfl, rfl, rfl⟩
  | [_] => exact ⟨_, st, rfl, Or.inl rfl, rfl, rfl, rfl⟩
  | first :: second :: rest =>
    have henough : writeTable.arity.1 ≤ (first :: second :: rest).length := by simp [arity]
    obtain ⟨checked, hcheck, hkept⟩ := checkArity_enough writeTable henough st
    have hcall := call_writeTable_checked hcheck
    cases hpath : pathOf first with
    | error error =>
      rw [hpath] at hcall
      exact ⟨error, checked, hcall, Or.inr (kind_of_pathOf hpath), hkept⟩
    | ok path =>
      cases hrows : rowsOf second with
      | error error =>
        rw [hpath, hrows] at hcall
        exact ⟨error, checked, hcall, Or.inr (kind_of_rowsOf hrows), hkept⟩
      | ok rows =>
        cases hfields : headerOf rest.head? rows with
        | error error =>
          rw [hpath, hrows] at hcall
          simp only [Action.ofResult, Action.bind_apply, hfields] at hcall
          exact ⟨error, checked, hcall, Or.inr (kind_of_headerOf hfields), hkept⟩
        | ok fields =>
          obtain rfl := pathOf_eq_ok hpath
          obtain rfl := rowsOf_eq_ok hrows
          exact absurd ⟨path, fields, rows, asks_iff.mpr ⟨rest, rfl, hfields⟩⟩ h

/-- The end that an outcome can only be. -/
def WriteFate.ofOutcome (st : State) : Outcome Value → WriteFate
  | .done _ st' => if st'.errors = st.errors then .written else .reported
  | .failed _ _ => .refused
  | .exhausted => .refused

theorem WriteFate.eq_of_holds {st : State} {outcome : Outcome Value} {fate : WriteFate}
    (h : fate.Holds arguments st outcome) : fate = .ofOutcome st outcome := by
  cases fate with
  | refused =>
    obtain ⟨error, st', rfl, -⟩ := h
    rfl
  | written =>
    obtain ⟨st', path, fields, rows, rfl, -, -, herrors⟩ := h
    rw [ofOutcome, if_pos herrors]
  | reported =>
    obtain ⟨st', record, rfl, -, herrors⟩ := h
    have hmore : st'.errors ≠ st.errors := by simp [herrors]
    rw [ofOutcome, if_neg hmore]

theorem failed_iff_not_asks (arguments : List Value) (st : State) :
    (∃ error st', writeTable.call arguments st = .failed error st') ↔
      ¬ ∃ path fields rows, Asks arguments path fields rows := by
  constructor
  · rintro ⟨error, st', hfailed⟩ ⟨path, fields, rows, hasks⟩
    obtain ⟨later, _, _, _, hdone, -⟩ | ⟨later, _, hdone, -⟩ := call_of_asks hasks st
    · rw [hfailed] at hdone
      cases hdone
    · rw [hfailed] at hdone
      cases hdone
  · intro h
    obtain ⟨error, st', hfailed, -⟩ := call_of_not_asks h st
    exact ⟨error, st', hfailed⟩

/-- **A table is written whole or not at all.**  Every call of `write_csv` has one of three ends: it is
refused, it has written, or it has reported.  It is refused if there are fewer than two arguments, if
the path is no text, if the rows are no sequence of mappings, or if a third argument is neither
absence nor a sequence of texts; and otherwise it is not. -/
theorem writeTable_fate (arguments : List Value) (st : State) :
    (∃! fate : WriteFate, fate.Holds arguments st (writeTable.call arguments st)) ∧
      ((∃ error st', writeTable.call arguments st = .failed error st') ↔
        arguments.length < 2 ∨ (∀ path, arguments[0]? ≠ some (Value.text path)) ∨
        (∀ rows : List (List (String × Value)),
          arguments[1]? ≠ some (Value.sequence (rows.map .mapping))) ∨
        ∃ third : Value, arguments[2]? = some third ∧ third ≠ .absence ∧
          ∀ names : List String, third ≠ .sequence (names.map .text)) := by
  refine ⟨?_, ?_⟩
  · have hunique : ∀ fate : WriteFate, fate.Holds arguments st (writeTable.call arguments st) →
        ∃! fate : WriteFate, fate.Holds arguments st (writeTable.call arguments st) :=
      fun fate h => ⟨fate, h, fun _ h' =>
        (WriteFate.eq_of_holds h').trans (WriteFate.eq_of_holds h).symm⟩
    by_cases hasks : ∃ path fields rows, Asks arguments path fields rows
    · obtain ⟨path, fields, rows, hasks⟩ := hasks
      exact (call_of_asks hasks st).elim (hunique .written) (hunique .reported)
    · exact hunique .refused (call_of_not_asks hasks st)
  · rw [failed_iff_not_asks, exists_asks_iff]
    constructor
    · intro h
      by_contra hfits
      push Not at hfits
      obtain ⟨-, hpath, hrows, hthird⟩ := hfits
      exact h ⟨hpath, hrows, fun third hgiven => or_iff_not_imp_left.mpr (hthird third hgiven)⟩
    · rintro hmisfit ⟨⟨path, hpath⟩, ⟨rows, hrows⟩, hthird⟩
      rcases hmisfit with hfew | hnotext | hnorows | ⟨third, hgiven, habsent, hnames⟩
      · obtain ⟨hlt, -⟩ := List.getElem?_eq_some_iff.mp hrows
        omega
      · exact hnotext path hpath
      · exact hnorows rows hrows
      · rcases hthird third hgiven with heq | ⟨names, heq⟩
        · exact habsent heq
        · exact hnames names heq

/-- A path from the root is written like any other. -/
example : writeTable.call [.text "/t.csv", .sequence []] {} =
    .done .absence { files := Files.put {} ["t.csv"] (.file (Table.render [] []).toUTF8) } := rfl

/-- A row that is no mapping refuses the call, however many rows before it could be written. -/
example (path : String) (st : State) :
    writeTable.call [.text path, .sequence [.mapping [("a", .absence)], .boolean true]] st =
      .failed (.typeError "mapping row" "boolean") st := rfl

end Builtin

end TreeScript
