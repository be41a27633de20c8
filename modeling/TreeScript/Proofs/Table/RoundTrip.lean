import TreeScript.Proofs.Entries
import TreeScript.Proofs.Text.Lines
import TreeScript.Table

/-!
# Tables that are written and read back

A table that was written is a list of lines, and reading takes lines apart that it finds in a text.
On the way it may drop a mark at the front, carriage returns at the ends of lines, blank lines and
cells beyond the header.  `Readable` says of a header and rows that there is nothing of that kind
to drop, and nothing that would cut a cell or a line in two; then every row comes back, with the
texts of its cells under the fields (`parse_render`).
-/

namespace TreeScript.Table

/-! ## 1. Rows -/

theorem pairCells_map {α : Type} (name : α → String) (text : α → List Char) :
    ∀ items : List α, pairCells (items.map fun a => (name a).toList) (items.map text) =
      items.map fun a => (name a, .text (String.ofList (text a)))
  | [] => rfl
  | a :: rest => by
    rw [List.map_cons, List.map_cons, pairCells, pairCells_map name text rest, List.map_cons,
      String.ofList_toList]

/-- What a row is read back as: under every field, in their order, the text of its cell. -/
def readBack (fields : List String) (entries : List (String × Value)) : List (String × Value) :=
  fields.map fun field => (field, .text (String.ofList (cell entries field)))

theorem keys_readBack (fields : List String) (entries : List (String × Value)) :
    Entries.keys (readBack fields entries) = fields := by
  unfold Entries.keys readBack
  rw [List.map_map]
  exact List.map_id fields

/-- A row of texts is read back as itself, under its own keys. -/
theorem readBack_eq_self {entries : List (String × Value)}
    (hdistinct : (Entries.keys entries).Nodup)
    (htext : ∀ entry ∈ entries, ∃ s, entry.2 = .text s) :
    readBack (Entries.keys entries) entries = entries := by
  unfold readBack Entries.keys
  rw [List.map_map]
  refine (List.map_congr_left fun entry hentry => ?_).trans (List.map_id entries)
  obtain ⟨field, value⟩ := entry
  obtain ⟨s, rfl⟩ := htext _ hentry
  have hcell : cell entries field = s.toList := by
    rw [cell, Entries.get?_of_mem hdistinct hentry]
    rfl
  simp only [Function.comp_apply, hcell, String.ofList_toList, id_eq]

/-- The row of a line whose cells are those of a row, under distinct fields. -/
theorem row_of_cells {fields : List String} {line : List Char} {entries : List (String × Value)}
    (hdistinct : fields.Nodup) (hcells : Text.splitOn ',' line = fields.map (cell entries)) :
    row (fields.map String.toList) line = readBack fields entries := by
  have hdistinct' : Entries.Distinct (readBack fields entries) := by
    unfold Entries.Distinct
    rw [keys_readBack]
    exact hdistinct
  have hpairs : pairCells (fields.map String.toList) (fields.map (cell entries)) =
      readBack fields entries := pairCells_map id (cell entries) fields
  rw [row, hcells, hpairs, Entries.ofPairs_eq_self hdistinct']

/-! ## 2. The lines of a table -/

/-- The header as a line. -/
def headerLine (fields : List String) : List Char := Text.join ',' (fields.map String.toList)

/-- A row as a line. -/
def rowLine (fields : List String) (entries : List (String × Value)) : List Char :=
  Text.join ',' (fields.map (cell entries))

theorem renderChars_eq_unlines (fields : List String) (rows : List (List (String × Value))) :
    renderChars fields rows =
      Text.unlines (headerLine fields :: rows.map (rowLine fields)) := by
  rw [Text.unlines_cons]
  unfold renderChars Text.unlines
  rw [List.flatMap_map]
  rfl

/-- The rows of a text that is given as its lines. -/
def ofLines (ls : List (List Char)) : List (List (String × Value)) :=
  match ls.dropWhile Text.isBlankText with
  | [] => []
  | header :: body => rows (Text.splitOn ',' header) body

theorem ofLines_cons {header : List Char} (h : Text.isBlankText header = false)
    (body : List (List Char)) :
    ofLines (header :: body) = rows (Text.splitOn ',' header) body := by
  simp only [ofLines, List.dropWhile_cons, h, Bool.false_eq_true, if_false]

/-- Reading a table that was written, line by line. -/
theorem parse_render_eq_ofLines {fields : List String} {rows : List (List (String × Value))}
    (hheader : '\n' ∉ headerLine fields) (hrows : ∀ entries ∈ rows, '\n' ∉ rowLine fields entries) :
    parse (render fields rows) =
      ofLines (Text.dropReturn (Text.dropMark (headerLine fields)) ::
        rows.map fun entries => Text.dropReturn (rowLine fields entries)) := by
  have hmark : '\n' ∉ Text.dropMark (headerLine fields) := fun h =>
    hheader (Text.mem_of_mem_dropMark h)
  have hlines : ∀ line ∈ Text.dropMark (headerLine fields) :: rows.map (rowLine fields),
      '\n' ∉ line := by
    intro line hline
    rcases List.mem_cons.mp hline with rfl | hline
    · exact hmark
    · obtain ⟨entries, hentries, rfl⟩ := List.mem_map.mp hline
      exact hrows entries hentries
  have hparse : parse (render fields rows) =
      ofLines (Text.lines (Text.dropMark (renderChars fields rows))) := by
    unfold parse render
    rw [String.toList_ofList]
    rfl
  rw [hparse, renderChars_eq_unlines, Text.dropMark_unlines_cons, Text.lines_unlines hlines,
    List.map_cons, List.map_map]
  rfl

/-! ## 3. What can be read back -/

/-- A text without a comma and without a line feed. -/
def IsPlain (cs : List Char) : Prop := ',' ∉ cs ∧ '\n' ∉ cs

instance (cs : List Char) : Decidable (IsPlain cs) := inferInstanceAs (Decidable (_ ∧ _))

/-- A header in which there is nothing for the reader to drop or to cut. -/
structure ReadableHeader (fields : List String) : Prop where
  nonempty : fields ≠ []
  distinct : fields.Nodup
  plain_field : ∀ field ∈ fields, IsPlain field.toList
  no_mark : ∀ field ∈ fields.head?, field.toList.head? ≠ some Text.mark
  no_return_field : ∀ field ∈ fields.getLast?, field.toList.getLast? ≠ some '\r'
  visible : ∀ field, fields = [field] → Text.isBlankText field.toList = false

/-- A header and rows in which there is nothing for the reader to drop or to cut. -/
structure Readable (fields : List String) (rows : List (List (String × Value))) : Prop
    extends ReadableHeader fields where
  plain_cell : ∀ entries ∈ rows, ∀ field ∈ fields, IsPlain (cell entries field)
  no_return_cell : ∀ entries ∈ rows, ∀ field ∈ fields.getLast?,
    (cell entries field).getLast? ≠ some '\r'

section Lines

variable {fields : List String}

theorem newline_not_mem_headerLine (h : ∀ field ∈ fields, IsPlain field.toList) :
    '\n' ∉ headerLine fields := by
  refine Text.not_mem_join (by decide) fun piece hpiece => ?_
  obtain ⟨field, hfield, rfl⟩ := List.mem_map.mp hpiece
  exact (h field hfield).2

theorem newline_not_mem_rowLine {entries : List (String × Value)}
    (h : ∀ field ∈ fields, IsPlain (cell entries field)) : '\n' ∉ rowLine fields entries := by
  refine Text.not_mem_join (by decide) fun piece hpiece => ?_
  obtain ⟨field, hfield, rfl⟩ := List.mem_map.mp hpiece
  exact (h field hfield).2

theorem splitOn_headerLine (hne : fields ≠ []) (h : ∀ field ∈ fields, IsPlain field.toList) :
    Text.splitOn ',' (headerLine fields) = fields.map String.toList := by
  refine Text.splitOn_join (by simpa using hne) fun piece hpiece => ?_
  obtain ⟨field, hfield, rfl⟩ := List.mem_map.mp hpiece
  exact (h field hfield).1

theorem splitOn_rowLine {entries : List (String × Value)} (hne : fields ≠ [])
    (h : ∀ field ∈ fields, IsPlain (cell entries field)) :
    Text.splitOn ',' (rowLine fields entries) = fields.map (cell entries) := by
  refine Text.splitOn_join (by simpa using hne) fun piece hpiece => ?_
  obtain ⟨field, hfield, rfl⟩ := List.mem_map.mp hpiece
  exact (h field hfield).1

/-- The header begins as its first field does. -/
theorem dropMark_headerLine_iff (hne : fields ≠ []) :
    Text.dropMark (headerLine fields) = headerLine fields ↔
      ∀ field ∈ fields.head?, field.toList.head? ≠ some Text.mark := by
  obtain ⟨field, rest, rfl⟩ := List.exists_cons_of_ne_nil hne
  have hhead : (headerLine (field :: rest)).head? = some Text.mark ↔
      field.toList.head? = some Text.mark := Text.head?_join_cons (by decide) _ _
  rw [Text.dropMark_eq_self_iff, Ne, hhead]
  simp

/-- A joined line ends as its last piece does. -/
theorem dropReturn_join_iff (text : String → List Char) (hne : fields ≠ []) :
    Text.dropReturn (Text.join ',' (fields.map text)) = Text.join ',' (fields.map text) ↔
      ∀ field ∈ fields.getLast?, (text field).getLast? ≠ some '\r' := by
  obtain ⟨front, last, rfl⟩ : ∃ front last, fields = front ++ [last] :=
    ⟨_, _, (List.dropLast_concat_getLast hne).symm⟩
  rw [Text.dropReturn_eq_self_iff, List.map_append, List.map_singleton, Ne,
    Text.getLast?_join_concat (by decide)]
  simp

/-- A line of several cells is not blank, for it has a comma. -/
theorem isBlankText_join {pieces : List (List Char)} (h : 1 < pieces.length) :
    Text.isBlankText (Text.join ',' pieces) = false :=
  Text.isBlankText_eq_false (Text.mem_join h) (by decide)

end Lines

/-- No line is left out: with one column blank lines are rows, with more there is none. -/
theorem rows_eq_map {fields : List String} {lines : List (List Char)} (hne : fields ≠ [])
    (h : ∀ line ∈ lines, 1 < fields.length → Text.isBlankText line = false) :
    rows (fields.map String.toList) lines = lines.map (row (fields.map String.toList)) := by
  have hkept : (lines.filter fun line =>
      (fields.map String.toList).length == 1 || !Text.isBlankText line) = lines := by
    refine List.filter_eq_self.mpr fun line hline => ?_
    have hpos : 0 < fields.length := List.length_pos_iff.mpr hne
    rcases Nat.lt_or_ge 1 fields.length with hmany | hone
    · rw [h line hline hmany]
      simp
    · have hlength : fields.length = 1 := by omega
      simp [hlength]
  rw [rows, hkept]

namespace Readable

variable {fields : List String} {rows : List (List (String × Value))}

/-- The header of a table that can be read back is not blank. -/
theorem headerLine_not_blank (h : Readable fields rows) :
    Text.isBlankText (headerLine fields) = false := by
  match hfields : fields with
  | [] => exact absurd rfl h.nonempty
  | [field] => exact h.visible field rfl
  | first :: next :: rest => exact isBlankText_join (by simp)

/-- Nothing is dropped from the lines of a table that can be read back. -/
theorem parse_eq_ofLines (h : Readable fields rows) :
    parse (render fields rows) = ofLines (headerLine fields :: rows.map (rowLine fields)) := by
  have hmark : Text.dropMark (headerLine fields) = headerLine fields :=
    (dropMark_headerLine_iff h.nonempty).mpr h.no_mark
  have hheader : Text.dropReturn (headerLine fields) = headerLine fields :=
    (dropReturn_join_iff String.toList h.nonempty).mpr h.no_return_field
  have hrow : ∀ entries ∈ rows,
      Text.dropReturn (rowLine fields entries) = rowLine fields entries := fun entries hentries =>
    (dropReturn_join_iff (cell entries) h.nonempty).mpr (h.no_return_cell entries hentries)
  rw [parse_render_eq_ofLines (newline_not_mem_headerLine h.plain_field)
      fun entries hentries => newline_not_mem_rowLine (h.plain_cell entries hentries),
    hmark, hheader, List.map_congr_left hrow]

/-- The lines of a table that can be read back give its rows. -/
theorem ofLines_eq (h : Readable fields rows) :
    ofLines (headerLine fields :: rows.map (rowLine fields)) = rows.map (readBack fields) := by
  have hvisible : ∀ line ∈ rows.map (rowLine fields), 1 < fields.length →
      Text.isBlankText line = false := by
    intro line hline hmany
    obtain ⟨entries, -, rfl⟩ := List.mem_map.mp hline
    exact isBlankText_join (by simpa using hmany)
  rw [ofLines_cons h.headerLine_not_blank, splitOn_headerLine h.nonempty h.plain_field,
    rows_eq_map h.nonempty hvisible, List.map_map]
  refine List.map_congr_left fun entries hentries => ?_
  exact row_of_cells h.distinct (splitOn_rowLine h.nonempty (h.plain_cell entries hentries))

end Readable

/-- **Reading undoes writing.**  If a header and rows can be read back, reading what was written
gives one row for each, in their order: the mapping from the fields, in their order, to the texts
of the row's cells, which are empty where the row lacks the field. -/
theorem parse_render (fields : List String) (rows : List (List (String × Value)))
    (h : Readable fields rows) :
    parse (render fields rows) = rows.map fun entries =>
      fields.map fun field => (field, .text (String.ofList (cell entries field))) := by
  rw [h.parse_eq_ofLines, h.ofLines_eq]
  rfl

/-- Rows that lack a field, have another one, and have values that are no texts; one cell has a
carriage return that is not at its end. -/
def uneven : List (List (String × Value)) :=
  [[("a", .text "x\ry"), ("c", .text "1,2\n")], [("b", .boolean true), ("a", .text " ")],
    [("a", .absence)]]

/-- They come back under two fields, and under one of them, where a blank line is a row. -/
theorem parse_render_uneven :
    Readable ["a", "b"] uneven ∧
      parse (render ["a", "b"] uneven) =
        [[("a", .text "x\ry"), ("b", .text "")], [("a", .text " "), ("b", .text "true")],
          [("a", .text ""), ("b", .text "")]] ∧
      Readable ["b"] uneven ∧
      parse (render ["b"] uneven) =
        [[("b", .text "")], [("b", .text "true")], [("b", .text "")]] := by
  have htwo : Readable ["a", "b"] uneven :=
    { nonempty := by decide
      distinct := by decide
      plain_field := by decide
      plain_cell := by decide
      no_mark := by decide
      no_return_field := by decide
      no_return_cell := by decide
      visible := fun _ h => by cases h }
  have hone : Readable ["b"] uneven :=
    { nonempty := by decide
      distinct := by decide
      plain_field := by decide
      plain_cell := by decide
      no_mark := by decide
      no_return_field := by decide
      no_return_cell := by decide
      visible := fun _ h => by
        cases h
        rfl }
  exact ⟨htwo, parse_render ["a", "b"] uneven htwo, hone, parse_render ["b"] uneven hone⟩

end TreeScript.Table
