import TreeScript.Proofs.Table.RoundTrip

/-!
# Only what is readable comes back

A table that was written and is read back with all of its rows is `Readable`: what the reader drops
or cuts is not made up for elsewhere.  So it is known exactly which tables survive
(`parse_render_iff`).

What is read never has a comma or a line feed in a field or in a cell (`isPlain_of_mem_parse`).
A mark or a carriage return that was dropped leaves the number of commas as it was, so the header
and the lines still have as many pieces as they were written with, and each piece has to be the one
that was written.
-/

namespace TreeScript.Table

/-! ## 1. What is read is plain -/

/-- A cell of a line is a piece of it, or missing and then empty: it has no more in it. -/
theorem not_mem_of_mem_cells {c : Char} {line cell : List Char} (hc : c ∉ line)
    (h : cell ∈ [] :: Text.splitOn ',' line) : c ∉ cell := by
  rcases List.mem_cons.mp h with rfl | h
  · exact List.not_mem_nil
  · exact fun hmem => hc (Text.mem_of_mem_splitOn h hmem)

theorem isPlain_of_mem_cells {line cell : List Char} (hline : '\n' ∉ line)
    (h : cell ∈ [] :: Text.splitOn ',' line) : IsPlain cell := by
  refine ⟨?_, not_mem_of_mem_cells hline h⟩
  rcases List.mem_cons.mp h with rfl | h
  · exact List.not_mem_nil
  · exact Text.not_mem_of_mem_splitOn h

/-- A pair has one of the fields, and one of the cells or nothing. -/
theorem mem_pairCells {entry : String × Value} : ∀ {fields cells : List (List Char)},
    entry ∈ pairCells fields cells →
      ∃ field ∈ fields, ∃ cell ∈ [] :: cells,
        entry = (String.ofList field, .text (String.ofList cell))
  | field :: fields, [], h => by
    rcases List.mem_cons.mp h with rfl | h
    · exact ⟨field, List.mem_cons_self, [], List.mem_cons_self, rfl⟩
    · obtain ⟨field', hfield, cell, hcell, heq⟩ := mem_pairCells h
      exact ⟨field', List.mem_cons_of_mem _ hfield, cell, hcell, heq⟩
  | field :: fields, cell :: cells, h => by
    rcases List.mem_cons.mp h with rfl | h
    · exact ⟨field, List.mem_cons_self, cell, by simp, rfl⟩
    · obtain ⟨field', hfield, cell', hcell, heq⟩ := mem_pairCells h
      refine ⟨field', List.mem_cons_of_mem _ hfield, cell', ?_, heq⟩
      rcases List.mem_cons.mp hcell with rfl | hcell
      · exact List.mem_cons_self
      · exact List.mem_cons_of_mem _ (List.mem_cons_of_mem _ hcell)

/-- A row that is read comes from the header and from a line. -/
theorem mem_ofLines {ls : List (List Char)} {entries : List (String × Value)}
    (h : entries ∈ ofLines ls) :
    ∃ header ∈ ls, ∃ line ∈ ls, entries = row (Text.splitOn ',' header) line := by
  unfold ofLines at h
  have hsubset : ls.dropWhile Text.isBlankText ⊆ ls := (List.dropWhile_suffix _).subset
  split at h
  · cases h
  · rename_i header body heq
    rw [heq] at hsubset
    obtain ⟨line, hline, rfl⟩ := List.mem_map.mp h
    have hbody : line ∈ body := (List.mem_filter.mp hline).1
    exact ⟨header, hsubset List.mem_cons_self, line,
      hsubset (List.mem_cons_of_mem _ hbody), rfl⟩

/-- **No field and no cell that is read has a comma or a line feed.** -/
theorem isPlain_of_mem_parse {text field s : String} {entries : List (String × Value)}
    (hentries : entries ∈ parse text) (h : (field, .text s) ∈ entries) :
    IsPlain field.toList ∧ IsPlain s.toList := by
  obtain ⟨header, hheader, line, hline, rfl⟩ := mem_ofLines hentries
  obtain ⟨field', hfield, cell, hcell, heq⟩ := mem_pairCells (Entries.mem_of_mem_ofPairs h)
  cases heq
  rw [String.toList_ofList, String.toList_ofList]
  exact ⟨isPlain_of_mem_cells (Text.newline_not_mem_of_mem_lines hheader)
      (List.mem_cons_of_mem _ hfield),
    isPlain_of_mem_cells (Text.newline_not_mem_of_mem_lines hline) hcell⟩

/-! ## 2. What a row tells of its header and its line -/

theorem keys_pairCells : ∀ fields cells : List (List Char),
    Entries.keys (pairCells fields cells) = fields.map String.ofList
  | [], _ => rfl
  | field :: fields, [] => by
    rw [pairCells, Entries.keys_cons, keys_pairCells fields [], List.map_cons]
  | field :: fields, cell :: cells => by
    rw [pairCells, Entries.keys_cons, keys_pairCells fields cells, List.map_cons]

theorem cells_eq_of_pairCells : ∀ {fields cells cells' : List (List Char)},
    cells.length = fields.length → cells'.length = fields.length →
      pairCells fields cells = pairCells fields cells' → cells = cells'
  | [], [], [], _, _, _ => rfl
  | field :: fields, cell :: cells, cell' :: cells', hlength, hlength', h => by
    rw [pairCells, pairCells] at h
    obtain ⟨hhead, htail⟩ := List.cons.inj h
    have hcell : String.ofList cell = String.ofList cell' := Value.text.inj (Prod.mk.inj hhead).2
    have hcells : cells = cells' := cells_eq_of_pairCells (Nat.succ.inj hlength)
      (Nat.succ.inj hlength') htail
    rw [String.ofList_injective hcell, hcells]

/-- A row with as many entries as the header has fields was built from these pairs alone. -/
theorem row_eq_pairCells {fields : List (List Char)} {line : List Char}
    {entries : List (String × Value)} (hrow : row fields line = entries)
    (hlength : entries.length = fields.length) :
    pairCells fields (Text.splitOn ',' line) = entries := by
  have hpairs : (pairCells fields (Text.splitOn ',' line)).length = fields.length := by
    have hkeys := congrArg List.length (keys_pairCells fields (Text.splitOn ',' line))
    simpa [Entries.keys] using hkeys
  rw [← hrow, row, Entries.ofPairs_eq_self]
  refine Entries.distinct_of_length_le ?_
  rw [hpairs, ← hlength, ← hrow]
  exact Nat.le_refl _

/-! ## 3. Tables that come back -/

section ComesBack

variable {fields : List String} {rows : List (List (String × Value))}

/-- A blank header takes a line away from the rows. -/
theorem length_ofLines_lt {header : List Char} {body : List (List Char)}
    (h : Text.isBlankText header = true) (hbody : body ≠ []) :
    (ofLines (header :: body)).length < body.length := by
  have hpos : 0 < body.length := List.length_pos_iff.mpr hbody
  have hdrop : (header :: body).dropWhile Text.isBlankText =
      body.dropWhile Text.isBlankText := by
    rw [List.dropWhile_cons, if_pos h]
  have hle : (body.dropWhile Text.isBlankText).length ≤ body.length :=
    (List.dropWhile_sublist _).length_le
  unfold ofLines
  rw [hdrop]
  split
  · exact hpos
  · rename_i first rest heq
    rw [heq, List.length_cons] at hle
    have hkept := List.length_filter_le
      (fun line => (Text.splitOn ',' first).length == 1 || !Text.isBlankText line) rest
    rw [Table.rows, List.length_map]
    omega

/-- If every line gave a row, none was left out. -/
theorem rows_eq_map_of_length {header : List (List Char)} {body : List (List Char)}
    (h : (Table.rows header body).length = body.length) :
    Table.rows header body = body.map (row header) := by
  unfold Table.rows at h ⊢
  rw [List.length_map, List.length_filter_eq_length_iff] at h
  rw [List.filter_eq_self.mpr h]

/-- If every line comes back as a row, the header is not blank. -/
theorem not_blank_of_ofLines {header : List Char} {line : List (String × Value) → List Char}
    (hrows : rows ≠ []) (h : ofLines (header :: rows.map line) = rows.map (readBack fields)) :
    Text.isBlankText header = false := by
  by_contra hblank
  rw [Bool.not_eq_false] at hblank
  have hbody : rows.map line ≠ [] := by simpa using hrows
  have hlt := length_ofLines_lt hblank hbody
  rw [h, List.length_map, List.length_map] at hlt
  exact Nat.lt_irrefl _ hlt

/-- If every line comes back as a row of as many entries as the header has pieces, the pieces of
the header and of the line are paired in it. -/
theorem pairCells_of_ofLines {header : List Char} {line : List (String × Value) → List Char}
    (hvisible : Text.isBlankText header = false)
    (h : ofLines (header :: rows.map line) = rows.map (readBack fields))
    (hlength : (Text.splitOn ',' header).length = fields.length) :
    ∀ entries ∈ rows, pairCells (Text.splitOn ',' header) (Text.splitOn ',' (line entries)) =
      readBack fields entries := by
  rw [ofLines_cons hvisible] at h
  have hall : (Table.rows (Text.splitOn ',' header) (rows.map line)).length =
      (rows.map line).length := by
    rw [h, List.length_map, List.length_map]
  rw [rows_eq_map_of_length hall, List.map_map, List.map_inj_left] at h
  intro entries hentries
  refine row_eq_pairCells (h entries hentries) ?_
  rw [readBack, List.length_map, hlength]

/-- The pieces that are paired in a row that comes back are the fields and the cells. -/
theorem eq_of_pairCells_eq_readBack {header cells : List (List Char)}
    {entries : List (String × Value)} (h : pairCells header cells = readBack fields entries)
    (hlength : cells.length = fields.length) :
    header = fields.map String.toList ∧ cells = fields.map (cell entries) := by
  have hheader : header = fields.map String.toList := by
    have hkeys := congrArg Entries.keys h
    rw [keys_pairCells, keys_readBack] at hkeys
    rw [← hkeys, List.map_map]
    simp
  subst hheader
  have hwritten : pairCells (fields.map String.toList) (fields.map (cell entries)) =
      readBack fields entries := pairCells_map id (cell entries) fields
  refine ⟨rfl, cells_eq_of_pairCells ?_ ?_ (h.trans hwritten.symm)⟩
  · rw [hlength, List.length_map]
  · rw [List.length_map, List.length_map]

/-- Every field and every cell of a table that comes back is read, so it is plain. -/
theorem isPlain_of_parse_render (h : parse (render fields rows) = rows.map (readBack fields))
    {entries : List (String × Value)} (hentries : entries ∈ rows) {field : String}
    (hfield : field ∈ fields) : IsPlain field.toList ∧ IsPlain (cell entries field) := by
  have hread : readBack fields entries ∈ parse (render fields rows) := by
    rw [h]
    exact List.mem_map_of_mem hentries
  have hmem : (field, Value.text (String.ofList (cell entries field))) ∈
      readBack fields entries := List.mem_map.mpr ⟨field, hfield, rfl⟩
  have hboth := isPlain_of_mem_parse hread hmem
  rw [String.toList_ofList] at hboth
  exact hboth

/-- Dropping a mark at the front and a carriage return at the end changes no number of commas. -/
theorem length_splitOn_drop (line : List Char) :
    (Text.splitOn ',' (Text.dropReturn line)).length = (Text.splitOn ',' line).length ∧
      (Text.splitOn ',' (Text.dropReturn (Text.dropMark line))).length =
        (Text.splitOn ',' line).length := by
  simp only [Text.length_splitOn, Text.count_dropReturn (by decide : ',' ≠ '\r'),
    Text.count_dropMark (by decide : ',' ≠ Text.mark), and_self]

/-- A line from which both may be dropped without a change has neither. -/
theorem drop_eq_self {line : List Char}
    (h : Text.dropReturn (Text.dropMark line) = line) :
    Text.dropMark line = line ∧ Text.dropReturn line = line := by
  have hle := Text.length_dropReturn_le (Text.dropMark line)
  rw [h] at hle
  have hmark : Text.dropMark line = line := Text.dropMark_eq_self_of_length_le hle
  exact ⟨hmark, by rwa [hmark] at h⟩

/-- **A table whose rows all come back is readable.** -/
theorem readable_of_parse_render (hdistinct : fields.Nodup) (hrows : rows ≠ [])
    (h : parse (render fields rows) = rows.map (readBack fields)) : Readable fields rows := by
  obtain ⟨first, hfirst⟩ := List.exists_mem_of_ne_nil rows hrows
  have hfields : ∀ field ∈ fields, IsPlain field.toList := fun field hfield =>
    (isPlain_of_parse_render h hfirst hfield).1
  have hcells : ∀ entries ∈ rows, ∀ field ∈ fields, IsPlain (cell entries field) :=
    fun entries hentries field hfield => (isPlain_of_parse_render h hentries hfield).2
  rw [parse_render_eq_ofLines (newline_not_mem_headerLine hfields)
    fun entries hentries => newline_not_mem_rowLine (hcells entries hentries)] at h
  have hvisible := not_blank_of_ofLines hrows h
  have hne : fields ≠ [] := by
    rintro rfl
    cases hvisible
  -- what was dropped has no comma, so there are as many pieces as were written
  have hheaderLength :
      (Text.splitOn ',' (Text.dropReturn (Text.dropMark (headerLine fields)))).length =
        fields.length := by
    rw [(length_splitOn_drop _).2, splitOn_headerLine hne hfields, List.length_map]
  have hlineLength : ∀ entries ∈ rows,
      (Text.splitOn ',' (Text.dropReturn (rowLine fields entries))).length = fields.length := by
    intro entries hentries
    rw [(length_splitOn_drop _).1, splitOn_rowLine hne (hcells entries hentries),
      List.length_map]
  have hpieces := fun entries hentries => eq_of_pairCells_eq_readBack
    (pairCells_of_ofLines hvisible h hheaderLength entries hentries)
    (hlineLength entries hentries)
  -- so the header and the lines are those that were written
  have hheader : Text.dropReturn (Text.dropMark (headerLine fields)) = headerLine fields := by
    rw [← Text.join_splitOn ',' (Text.dropReturn _), (hpieces first hfirst).1]
    rfl
  have hline : ∀ entries ∈ rows,
      Text.dropReturn (rowLine fields entries) = rowLine fields entries := by
    intro entries hentries
    rw [← Text.join_splitOn ',' (Text.dropReturn _), (hpieces entries hentries).2]
    rfl
  obtain ⟨hmark, hreturn⟩ := drop_eq_self hheader
  exact
    { nonempty := hne
      distinct := hdistinct
      plain_field := hfields
      no_mark := (dropMark_headerLine_iff hne).mp hmark
      no_return_field := (dropReturn_join_iff String.toList hne).mp hreturn
      visible := by
        rintro field rfl
        rw [hheader] at hvisible
        exact hvisible
      plain_cell := hcells
      no_return_cell := fun entries hentries =>
        (dropReturn_join_iff (cell entries) hne).mp (hline entries hentries) }

/-- **Exactly the readable tables come back**, of those with distinct fields and some row. -/
theorem parse_render_iff (hdistinct : fields.Nodup) (hrows : rows ≠ []) :
    parse (render fields rows) = rows.map (readBack fields) ↔ Readable fields rows :=
  ⟨readable_of_parse_render hdistinct hrows, fun h => h.parse_eq_ofLines.trans h.ofLines_eq⟩

end ComesBack

end TreeScript.Table
