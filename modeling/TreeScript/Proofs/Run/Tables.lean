import TreeScript.Proofs.Files
import TreeScript.Proofs.Table.Faithful
import TreeScript.Run.Builtin

/-!
# Tables that a program writes and reads back

`write_csv` notes beforehand how many cells have a comma or a line feed.  So a write without a
record has found its file, and every cell of the table is plain; but nothing was asked about the
field names, nor about what a line ends in.  Of the tables of texts that are written without a record,
exactly those come back whose header can be read back and whose last cells have no carriage return
at the end (`readTable_writeTable_iff`).
-/

namespace TreeScript

/-! ## 1. Cells that are counted -/

namespace Table

variable {entries : List (String × Value)} {rows : List (List (String × Value))}

theorem isUnfaithful_iff (v : Value) : isUnfaithful v = true ↔ ¬ IsPlain (cellText v) := by
  simp only [isUnfaithful, IsPlain, Bool.or_eq_true, List.contains_iff_mem, not_and_or, not_not]

/-- Some value is counted if a value of a row has a comma or a line feed. -/
theorem countUnfaithful_pos_iff :
    0 < countUnfaithful rows ↔
      ∃ entries ∈ rows, ∃ entry ∈ entries, ¬ IsPlain (cellText entry.2) := by
  unfold countUnfaithful
  rw [List.length_pos_iff_exists_mem]
  simp only [List.mem_flatMap, List.mem_filter, isUnfaithful_iff]
  constructor
  · rintro ⟨entry, entries, hentries, hentry, hspoiled⟩
    exact ⟨entries, hentries, entry, hentry, hspoiled⟩
  · rintro ⟨entries, hentries, entry, hentry, hspoiled⟩
    exact ⟨entry, entries, hentries, hentry, hspoiled⟩

/-- A cell that is not plain is the text of an entry. -/
theorem exists_entry_of_cell {field : String} (h : ¬ IsPlain (cell entries field)) :
    ∃ entry ∈ entries, ¬ IsPlain (cellText entry.2) := by
  unfold cell at h
  split at h
  · rename_i v hv
    exact ⟨(field, v), Entries.mem_of_get?_eq_some hv, h⟩
  · exact absurd (by decide) h

/-- If no value is counted, every cell is plain, whatever the header is. -/
theorem isPlain_cell_of_countUnfaithful (h : countUnfaithful rows = 0) (hentries : entries ∈ rows)
    (field : String) : IsPlain (cell entries field) := by
  by_contra hspoiled
  have hpos : 0 < countUnfaithful rows :=
    countUnfaithful_pos_iff.mpr ⟨entries, hentries, exists_entry_of_cell hspoiled⟩
  omega

end Table

/-! ## 2. What the calls do -/

namespace Builtin

variable {path : String} {fields : List String} {rows : List (List (String × Value))}
  {st st' : State}

theorem mappingsOf_map : ∀ rows : List (List (String × Value)),
    mappingsOf (rows.map .mapping) = .ok rows
  | [] => rfl
  | entries :: rest => by
    rw [List.map_cons, mappingsOf, mappingsOf_map rest]
    rfl

/-- Without field names the header is made of the keys of the first row. -/
theorem call_writeTable (path : String) (rows : List (List (String × Value))) (st : State) :
    writeTable.call [.text path, .sequence (rows.map .mapping)] st =
      writeRows path (Entries.keys (rows.headD [])) rows st := by
  have hrows : rowsOf (.sequence (rows.map .mapping)) = .ok rows := mappingsOf_map rows
  have hcall : writeTable.call [.text path, .sequence (rows.map .mapping)] st =
      (do
        let rows ← Action.ofResult (rowsOf (.sequence (rows.map .mapping)))
        writeRows path (Entries.keys (rows.headD [])) rows : Action Value) st := rfl
  rw [hcall, hrows]
  rfl

theorem call_readTable (path : String) (st : State) :
    readTable.call [.text path] st = readRows path st := rfl

/-- A write without a record has counted no cell and found its file. -/
theorem writeRows_silent (hwrite : writeRows path fields rows st = .done .absence st')
    (hsilent : st'.log = st.log) :
    Table.countUnfaithful rows = 0 ∧
      st.files.write path (Table.render fields rows) = .ok st'.files := by
  unfold writeRows at hwrite
  rcases Nat.eq_zero_or_pos (Table.countUnfaithful rows) with hzero | hpos
  · rw [hzero] at hwrite
    simp only [Nat.lt_irrefl, if_false] at hwrite
    split at hwrite
    · rename_i files hfiles
      cases hwrite
      exact ⟨hzero, hfiles⟩
    · cases hwrite
      exact absurd hsilent (List.cons_ne_self _ _)
  · simp only [if_pos hpos] at hwrite
    split at hwrite
    · cases hwrite
      exact absurd hsilent (List.cons_ne_self _ _)
    · cases hwrite
      have hlength : st.log.length + 2 = st.log.length := congrArg List.length hsilent
      omega

/-- After a write that found its file, the table that was written is read. -/
theorem readRows_of_write
    (h : st.files.write path (Table.render fields rows) = .ok st'.files) :
    readRows path st' =
      .done (.sequence ((Table.parse (Table.render fields rows)).map .mapping)) st' := by
  rw [readRows, Files.read_of_write h]

/-- **What a write without a record keeps.**  Rows of texts with the same keys come back from a
file to which they were written without a record exactly if their header can be read back and no
cell of the last column ends in a carriage return. -/
theorem readTable_writeTable_iff (path : String) (keys : List String)
    (rows : List (List (String × Value))) (st st' : State) (hrows : rows ≠ [])
    (hkeys : ∀ entries ∈ rows, Entries.keys entries = keys) (hdistinct : keys.Nodup)
    (htext : ∀ entries ∈ rows, ∀ entry ∈ entries, ∃ s, entry.2 = .text s)
    (hwrite : writeTable.call [.text path, .sequence (rows.map .mapping)] st =
      .done .absence st')
    (hsilent : st'.log = st.log) :
    readTable.call [.text path] st' = .done (.sequence (rows.map .mapping)) st' ↔
      Table.ReadableHeader keys ∧ ∀ entries ∈ rows, ∀ field ∈ keys.getLast?,
        (Table.cell entries field).getLast? ≠ some '\r' := by
  have hheader : Entries.keys (rows.headD []) = keys := by
    obtain ⟨first, rest, rfl⟩ := List.exists_cons_of_ne_nil hrows
    exact hkeys first List.mem_cons_self
  rw [call_writeTable, hheader] at hwrite
  obtain ⟨hcells, hfiles⟩ := writeRows_silent hwrite hsilent
  have hback : rows.map (Table.readBack keys) = rows := by
    refine (List.map_congr_left fun entries hentries => ?_).trans (List.map_id rows)
    have hown := hkeys entries hentries
    subst hown
    exact Table.readBack_eq_self hdistinct (htext entries hentries)
  have hread : readTable.call [.text path] st' = .done (.sequence (rows.map .mapping)) st' ↔
      Table.parse (Table.render keys rows) = rows := by
    rw [call_readTable, readRows_of_write hfiles]
    simp [List.map_inj_right]
  have hiff := Table.parse_render_iff hdistinct hrows
  rw [hback] at hiff
  rw [hread, hiff]
  constructor
  · intro h
    exact ⟨h.toReadableHeader, h.no_return_cell⟩
  · rintro ⟨h, hreturn⟩
    exact
      { h with
        plain_cell := fun entries hentries field _ =>
          Table.isPlain_cell_of_countUnfaithful hcells hentries field
        no_return_cell := hreturn }

/-- A table whose blank cells and interior carriage return come back. -/
def kept : List (List (String × Value)) :=
  [[("name", .text "a\rb"), ("note", .text "")], [("name", .text " "), ("note", .text " ")]]

/-- A table whose only cell ends in a carriage return. -/
def cut : List (List (String × Value)) := [[("note", .text "x\r")]]

/-- The state after rows were written to `t.csv` in the working directory of a fresh state. -/
def written (rows : List (List (String × Value))) : State :=
  { files := Files.put {} ["work", "t.csv"]
      (.file (Table.render (Entries.keys (rows.headD [])) rows).toUTF8) }

/-- The first table is written without a record, to a path from the root, and so it is read as it was
written. -/
theorem readTable_writeTable_iff_kept :
    writeTable.call [.text "/work/t.csv", .sequence (kept.map .mapping)] {} =
        .done .absence (written kept) ∧
      readTable.call [.text "/work/t.csv"] (written kept) =
        .done (.sequence (kept.map .mapping)) (written kept) := by
  have hheader : Table.ReadableHeader ["name", "note"] :=
    { nonempty := by decide
      distinct := by decide
      plain_field := by decide
      no_mark := by decide
      no_return_field := by decide
      visible := fun _ h => by cases h }
  have htext : ∀ entries ∈ kept, ∀ entry ∈ entries, ∃ s, entry.2 = .text s := by
    simp [kept, -Prod.forall]
  exact ⟨rfl, (readTable_writeTable_iff "/work/t.csv" ["name", "note"] kept {} (written kept)
    (by decide) (by decide) (by decide) htext rfl rfl).mpr ⟨hheader, by decide⟩⟩

/-- The second is written without a record too, and is read with another cell. -/
theorem readTable_writeTable_cut :
    writeTable.call [.text "t.csv", .sequence (cut.map .mapping)] {} =
        .done .absence (written cut) ∧
      (written cut).log = ({} : State).log ∧
      readTable.call [.text "t.csv"] (written cut) =
        .done (.sequence [.mapping [("note", .text "x")]]) (written cut) := by
  have hfiles : ({} : Files).write "t.csv" (Table.render ["note"] cut) =
      .ok (written cut).files := rfl
  refine ⟨rfl, rfl, ?_⟩
  rw [call_readTable, readRows, Files.read_of_write hfiles]
  rfl

end Builtin

end TreeScript
