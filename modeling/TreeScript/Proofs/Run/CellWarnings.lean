import TreeScript.Proofs.Run.Writing

/-!
# The warning of cells that will not read back

Before `write_csv` writes a table it counts the values that have a comma or a line feed, and notes
how many there are.  What it counts are the entries of the rows; what it writes are the cells under
the fields of the header.  The two go together as far as the header reaches: a cell that is written
is empty or the text of an entry.  An entry whose key is not in the header is written nowhere, and
still it is counted.  So a table with a spoiled cell is never written without the warning, but the
warning can also be about a value that is not in the table (`writeTable_cellWarnings`).
-/

namespace TreeScript

/-! ## 1. Cells and entries -/

namespace Table

variable {fields : List String} {rows : List (List (String × Value))}
  {entries : List (String × Value)}

/-- **A cell that is written** has a comma or a line feed. -/
def Spoiled (fields : List String) (rows : List (List (String × Value))) : Prop :=
  ∃ entries ∈ rows, ∃ field ∈ fields, ¬ IsPlain (cell entries field)

/-- **A value that is not written**, because the header lacks its key, has a comma or a line
feed. -/
def SpoiledOutside (fields : List String) (rows : List (List (String × Value))) : Prop :=
  ∃ entries ∈ rows, ∃ entry ∈ entries, entry.1 ∉ fields ∧ ¬ IsPlain (cellText entry.2)

/-- The text of an entry is the cell under its key. -/
theorem cell_of_mem (hdistinct : Entries.Distinct entries) {entry : String × Value}
    (h : entry ∈ entries) : cell entries entry.1 = cellText entry.2 := by
  rw [cell, Entries.get?_of_mem hdistinct h]

/-- **What is counted** is in a cell that is written, or outside of the header. -/
theorem countUnfaithful_pos_iff_spoiled (fields : List String)
    (hdistinct : ∀ entries ∈ rows, Entries.Distinct entries) :
    0 < countUnfaithful rows ↔ Spoiled fields rows ∨ SpoiledOutside fields rows := by
  rw [countUnfaithful_pos_iff]
  constructor
  · rintro ⟨entries, hentries, entry, hentry, hspoiled⟩
    by_cases hfield : entry.1 ∈ fields
    · refine Or.inl ⟨entries, hentries, entry.1, hfield, ?_⟩
      rwa [cell_of_mem (hdistinct entries hentries) hentry]
    · exact Or.inr ⟨entries, hentries, entry, hentry, hfield, hspoiled⟩
  · rintro (⟨entries, hentries, field, -, hspoiled⟩ |
      ⟨entries, hentries, entry, hentry, -, hspoiled⟩)
    · exact ⟨entries, hentries, exists_entry_of_cell hspoiled⟩
    · exact ⟨entries, hentries, entry, hentry, hspoiled⟩

/-- Nothing is outside of a header that has the keys of all rows. -/
theorem not_spoiledOutside (h : ∀ entries ∈ rows, Entries.keys entries ⊆ fields) :
    ¬ SpoiledOutside fields rows := by
  rintro ⟨entries, hentries, entry, hentry, houtside, -⟩
  exact houtside (h entries hentries (Entries.mem_keys_of_mem hentry))

end Table

/-! ## 2. Calls -/

namespace Builtin

open Table

variable {arguments : List Value} {path : String} {fields : List String}
  {rows : List (List (String × Value))}

/-- A write notes what it has counted, whether it finds its file or not. -/
theorem writeRows_cellWarnings (path : String) (fields : List String)
    (rows : List (List (String × Value))) (st : State) :
    ∃ st', writeRows path fields rows st = .done .absence st' ∧
      st'.cellWarnings = st.cellWarnings ++ if 0 < countUnfaithful rows then
        [.unfaithfulCells path (countUnfaithful rows)] else [] := by
  unfold writeRows
  dsimp only
  obtain ⟨noted, hnoted, hwarnings⟩ : ∃ noted,
      (if 0 < countUnfaithful rows then
        st.note (.unfaithfulCells path (countUnfaithful rows)) else st) = noted ∧
      noted.cellWarnings = st.cellWarnings ++ if 0 < countUnfaithful rows then
        [.unfaithfulCells path (countUnfaithful rows)] else [] := by
    split
    · exact ⟨_, rfl, by simp [State.cellWarnings, State.records, State.note, Record.isCellWarning]⟩
    · exact ⟨st, rfl, (List.append_nil _).symm⟩
  rw [hnoted, ← hwarnings]
  cases noted.files.write path (render fields rows) with
  | ok files => exact ⟨_, rfl, rfl⟩
  | error failure => exact ⟨_, rfl, State.cellWarnings_note rfl⟩

/-- **What a call of `write_csv` warns of.**  A call whose arguments ask for a table notes that
cells will not be read back if a cell that it writes has a comma or a line feed, and also if a value
has one whose key is not in the header; otherwise it notes nothing of the kind.  So if the header
has the keys of all rows, the warning is about the cells that are written. -/
theorem writeTable_cellWarnings (h : Asks arguments path fields rows)
    (hdistinct : ∀ entries ∈ rows, Entries.Distinct entries) (st : State) :
    ∃ st', writeTable.call arguments st = .done .absence st' ∧
      (Spoiled fields rows ∨ SpoiledOutside fields rows →
        st'.cellWarnings = st.cellWarnings ++ [.unfaithfulCells path (countUnfaithful rows)]) ∧
      (¬ (Spoiled fields rows ∨ SpoiledOutside fields rows) →
        st'.cellWarnings = st.cellWarnings) ∧
      ((∀ entries ∈ rows, Entries.keys entries ⊆ fields) →
        (st'.cellWarnings ≠ st.cellWarnings ↔ Spoiled fields rows)) := by
  obtain ⟨rest, rfl, hfields⟩ := asks_iff.mp h
  obtain ⟨checked, hcall, -, -, hchecked⟩ := call_writeTable_rows path rows rest hfields st
  obtain ⟨st', hwrite, hwarnings⟩ := writeRows_cellWarnings path fields rows checked
  rw [hchecked] at hwarnings
  have hcounted := countUnfaithful_pos_iff_spoiled fields hdistinct
  refine ⟨st', hcall.trans hwrite, fun hspoiled => ?_, fun hplain => ?_, fun hcovered => ?_⟩
  · rw [hwarnings, if_pos (hcounted.mpr hspoiled)]
  · rw [hwarnings, if_neg (mt hcounted.mp hplain), List.append_nil]
  · have hwritten : 0 < countUnfaithful rows ↔ Spoiled fields rows :=
      hcounted.trans (or_iff_left (not_spoiledOutside hcovered))
    rw [← hwritten, hwarnings]
    by_cases hpos : 0 < countUnfaithful rows <;> simp [hpos]

/-- Rows of which neither has both fields; the text of a nested sequence has a comma. -/
def ragged : List (List (String × Value)) :=
  [[("a", .text "1")], [("b", .sequence [.boolean true, .absence])]]

/-- Under a header that has both fields the comma is written, and so it is warned of. -/
theorem writeTable_cellWarnings_ragged :
    Asks [.text "t.csv", .sequence (ragged.map .mapping), .sequence (["b", "a"].map .text)] "t.csv"
        ["b", "a"] ragged ∧
      (∀ entries ∈ ragged, Entries.Distinct entries) ∧
      (∀ entries ∈ ragged, Entries.keys entries ⊆ ["b", "a"]) ∧ Spoiled ["b", "a"] ragged ∧
      ∃ st', writeTable.call
          [.text "t.csv", .sequence (ragged.map .mapping), .sequence (["b", "a"].map .text)] {} =
        .done .absence st' ∧ st'.cellWarnings = [.unfaithfulCells "t.csv" 1] := by
  have hasks := Asks.named "t.csv" ragged ["b", "a"] []
  have hdistinct : ∀ entries ∈ ragged, Entries.Distinct entries := by
    unfold Entries.Distinct
    decide
  have hcovered : ∀ entries ∈ ragged, Entries.keys entries ⊆ ["b", "a"] := by
    unfold ragged
    simp
  have hspoiled : Spoiled ["b", "a"] ragged :=
    ⟨[("b", .sequence [.boolean true, .absence])], by simp [ragged], "b", by simp,
      by decide +kernel⟩
  obtain ⟨st', hcall, hwarned, -, -⟩ := writeTable_cellWarnings hasks hdistinct {}
  exact ⟨hasks, hdistinct, hcovered, hspoiled, st', hcall, hwarned (Or.inl hspoiled)⟩

/-- **A value that is not written is warned of too**: the table has one column with a plain cell,
and the text with the comma is not in the file. -/
theorem writeTable_cellWarnings_outside :
    ¬ Spoiled ["a"] [[("a", .text "1"), ("b", .text "x,y")]] ∧
      Table.render ["a"] [[("a", .text "1"), ("b", .text "x,y")]] = "a\n1\n" ∧
      ∃ st', writeTable.call [.text "t.csv",
          .sequence [.mapping [("a", .text "1"), ("b", .text "x,y")]],
          .sequence [.text "a"]] {} = .done .absence st' ∧
        st'.cellWarnings = [.unfaithfulCells "t.csv" 1] := by
  refine ⟨?_, by decide +kernel, _, rfl, rfl⟩
  simp only [Spoiled, List.mem_singleton, exists_eq_left]
  decide +kernel

end Builtin

end TreeScript
