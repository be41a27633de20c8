import TreeScript.Proofs.Table.Faithful

/-!
# Tables that are read, written and read again

Reading brings a ragged text into order: blank lines are gone where they are no rows, every row has
a cell for every field, and cells beyond the header are dropped.  What is left has nothing for a
second reading to change.  If the header has distinct names and the text has neither carriage
returns nor a mark behind its front, the rows that were read are `Readable` under that header: all
that they hold are pieces of the lines of the text.  So they come back from what is written of them,
and writing them once more gives the same text (`parse_render_parse`).
-/

namespace TreeScript.Table

/-! ## 1. The header of a text -/

/-- **The header line of a text**: the first line that is not blank, once a mark at the front is
dropped. -/
def header? (s : String) : Option (List Char) :=
  (Text.lines (Text.dropMark s.toList)).find? fun line => !Text.isBlankText line

/-- The names in a header line. -/
def fieldsOf (header : List Char) : List String := (Text.splitOn ',' header).map String.ofList

theorem toList_fieldsOf (header : List Char) :
    (fieldsOf header).map String.toList = Text.splitOn ',' header := by
  simp [fieldsOf]

/-- A field of a header line is a piece of it. -/
theorem toList_mem_splitOn_of_mem_fieldsOf {header : List Char} {field : String}
    (h : field ∈ fieldsOf header) : field.toList ∈ Text.splitOn ',' header := by
  rw [← toList_fieldsOf]
  exact List.mem_map_of_mem h

/-- The lines before the header line are blank, so that reading begins at it. -/
theorem parse_of_header? {s : String} {header : List Char} (h : header? s = some header) :
    Text.isBlankText header = false ∧ header ∈ Text.lines (Text.dropMark s.toList) ∧
      ∃ body ⊆ Text.lines (Text.dropMark s.toList),
        parse s = rows (Text.splitOn ',' header) body := by
  obtain ⟨hvisible, before, body, hlines, hbefore⟩ := List.find?_eq_some_iff_append.mp h
  rw [Bool.not_eq_true'] at hvisible
  have hblank : ∀ line ∈ before, Text.isBlankText line = true := by
    simpa using hbefore
  have hparse : parse s = ofLines (before ++ header :: body) := by
    rw [← hlines]
    rfl
  have hdrop : ofLines (before ++ header :: body) = ofLines (header :: body) := by
    unfold ofLines
    rw [List.dropWhile_append_of_pos hblank]
  refine ⟨hvisible, ?_, body, ?_, ?_⟩
  · rw [hlines]
    simp
  · rw [hlines]
    exact fun line hline => List.mem_append_right _ (List.mem_cons_of_mem _ hline)
  · rw [hparse, hdrop, ofLines_cons hvisible]

/-- Without a mark behind the front there is none in what is read. -/
theorem mark_not_mem_dropMark {cs : List Char} (h : Text.mark ∉ cs.tail) :
    Text.mark ∉ Text.dropMark cs := by
  cases cs with
  | nil => exact List.not_mem_nil
  | cons c rest =>
    by_cases hc : c = Text.mark
    · rw [Text.dropMark, if_pos hc]
      exact h
    · simp only [Text.dropMark, hc, if_false, List.mem_cons, not_or]
      exact ⟨fun heq => hc heq.symm, h⟩

/-! ## 2. The rows that are read -/

/-- The rows that are read have the fields of the header as keys, if those are distinct. -/
theorem keys_row {header : List Char} (hdistinct : (fieldsOf header).Nodup) (line : List Char) :
    Entries.keys (row (Text.splitOn ',' header) line) = fieldsOf header := by
  have hkeys := keys_pairCells (Text.splitOn ',' header) (Text.splitOn ',' line)
  have hpairs : Entries.Distinct (pairCells (Text.splitOn ',' header) (Text.splitOn ',' line)) := by
    unfold Entries.Distinct
    rw [hkeys]
    exact hdistinct
  rw [row, Entries.ofPairs_eq_self hpairs, hkeys]
  rfl

/-- Every value of a row that is read is a text. -/
theorem exists_text_of_mem_row {fields : List (List Char)} {line : List Char}
    {entry : String × Value} (h : entry ∈ row fields line) : ∃ s, entry.2 = .text s := by
  obtain ⟨_, _, cell, _, rfl⟩ := mem_pairCells (Entries.mem_of_mem_ofPairs h)
  exact ⟨String.ofList cell, rfl⟩

/-- Whatever field is asked for, the cell of a row that is read is a piece of its line, or empty. -/
theorem cell_row (fields : List (List Char)) (line : List Char) (field : String) :
    cell (row fields line) field ∈ [] :: Text.splitOn ',' line := by
  unfold cell
  split
  · rename_i value hvalue
    obtain ⟨_, _, piece, hpiece, heq⟩ :=
      mem_pairCells (Entries.mem_of_mem_ofPairs (Entries.mem_of_get?_eq_some hvalue))
    obtain ⟨-, rfl⟩ := Prod.mk.inj heq
    have htext : cellText (.text (String.ofList piece)) = piece := String.toList_ofList
    rw [htext]
    exact hpiece
  · exact List.mem_cons_self

/-- A row that is read is written as it was read, under its own header. -/
theorem readBack_row {header : List Char} (hdistinct : (fieldsOf header).Nodup)
    (line : List Char) :
    readBack (fieldsOf header) (row (Text.splitOn ',' header) line) =
      row (Text.splitOn ',' header) line := by
  have hkeys := keys_row hdistinct line
  have hown : Entries.Distinct (row (Text.splitOn ',' header) line) := Entries.distinct_ofPairs _
  have hback := readBack_eq_self hown fun _ => exists_text_of_mem_row
  rwa [hkeys] at hback

/-! ## 3. Reading again -/

section Again

variable {header : List Char} {body : List (List Char)}

/-- **Rows that are read can be read back**, if their lines are free of carriage returns and the
header is free of marks. -/
theorem readable_rows (hvisible : Text.isBlankText header = false)
    (hlines : ∀ line ∈ header :: body, '\n' ∉ line) (hreturn : ∀ line ∈ header :: body, '\r' ∉ line)
    (hmark : Text.mark ∉ header) (hdistinct : (fieldsOf header).Nodup) :
    Readable (fieldsOf header) (rows (Text.splitOn ',' header) body) := by
  have hcell : ∀ entries ∈ rows (Text.splitOn ',' header) body, ∀ field,
      ∃ line ∈ header :: body, cell entries field ∈ [] :: Text.splitOn ',' line := by
    intro entries hentries field
    obtain ⟨line, hline, rfl⟩ := List.mem_map.mp hentries
    exact ⟨line, List.mem_cons_of_mem _ (List.mem_filter.mp hline).1, cell_row _ _ _⟩
  have hfield : ∀ field ∈ fieldsOf header, field.toList ∈ [] :: Text.splitOn ',' header :=
    fun field h => List.mem_cons_of_mem _ (toList_mem_splitOn_of_mem_fieldsOf h)
  exact
    { nonempty := by simpa [fieldsOf] using Text.splitOn_ne_nil ',' header
      distinct := hdistinct
      plain_field := fun field h =>
        isPlain_of_mem_cells (hlines header List.mem_cons_self) (hfield field h)
      no_mark := fun field h heq => by
        have hmem := hfield field (List.mem_of_mem_head? h)
        exact not_mem_of_mem_cells hmark hmem (List.mem_of_mem_head? heq)
      no_return_field := fun field h heq => by
        have hmem := hfield field (List.mem_of_mem_getLast? h)
        exact not_mem_of_mem_cells (hreturn header List.mem_cons_self) hmem
          (List.mem_of_mem_getLast? heq)
      visible := by
        rintro field hone
        have hpieces : Text.splitOn ',' header = [field.toList] := by
          rw [← toList_fieldsOf, hone]
          rfl
        have hjoin := Text.join_splitOn ',' header
        rw [hpieces] at hjoin
        exact (congrArg Text.isBlankText hjoin).trans hvisible
      plain_cell := fun entries hentries field _ => by
        obtain ⟨line, hline, hmem⟩ := hcell entries hentries field
        exact isPlain_of_mem_cells (hlines line hline) hmem
      no_return_cell := fun entries hentries field _ heq => by
        obtain ⟨line, hline, hmem⟩ := hcell entries hentries field
        exact not_mem_of_mem_cells (hreturn line hline) hmem (List.mem_of_mem_getLast? heq) }

end Again

/-- **Reading, writing and reading again.**  Take a text with a line that is not blank, without a
carriage return and without a mark behind its front, whose header line has distinct names.  The rows
that are read from it, written under that header, are read again as the same rows, with the same
keys in the same order; and these are written as the same text.  Short, long and blank lines of the
text make no difference. -/
theorem parse_render_parse (s : String) (header : List Char) (hheader : header? s = some header)
    (hreturn : '\r' ∉ s.toList) (hmark : Text.mark ∉ s.toList.tail)
    (hdistinct : (fieldsOf header).Nodup) :
    parse (render (fieldsOf header) (parse s)) = parse s ∧
      render (fieldsOf header) (parse (render (fieldsOf header) (parse s))) =
        render (fieldsOf header) (parse s) := by
  obtain ⟨hvisible, hfirst, body, hbody, hparse⟩ := parse_of_header? hheader
  have hlines : ∀ line ∈ header :: body, line ∈ Text.lines (Text.dropMark s.toList) := by
    intro line hline
    rcases List.mem_cons.mp hline with rfl | hline
    · exact hfirst
    · exact hbody hline
  have hreadable : Readable (fieldsOf header) (rows (Text.splitOn ',' header) body) := by
    refine readable_rows hvisible (fun line hline => ?_) (fun line hline hin => ?_)
      (fun hin => ?_) hdistinct
    · exact Text.newline_not_mem_of_mem_lines (hlines line hline)
    · exact hreturn (Text.mem_of_mem_dropMark (Text.mem_of_mem_lines (hlines line hline) hin))
    · exact mark_not_mem_dropMark hmark (Text.mem_of_mem_lines hfirst hin)
  have hback : (rows (Text.splitOn ',' header) body).map (readBack (fieldsOf header)) =
      rows (Text.splitOn ',' header) body := by
    refine (List.map_congr_left fun entries hentries => ?_).trans (List.map_id _)
    obtain ⟨line, -, rfl⟩ := List.mem_map.mp hentries
    exact readBack_row hdistinct line
  have hagain : parse (render (fieldsOf header) (parse s)) = parse s := by
    rw [hparse, hreadable.parse_eq_ofLines, hreadable.ofLines_eq, hback]
  exact ⟨hagain, congrArg (render (fieldsOf header)) hagain⟩

/-- A text with a mark, a blank line before the header and one between the rows, a row that is
short, one that is too long, and no line feed at its end. -/
def ragged : String := "\ufeff \nname,note\n a\n\n\nb,,c\n , "

/-- It is brought into order by the first reading, and after that it stays as it is; so does the
table of the single column `name`, in which blank lines are rows. -/
theorem parse_render_parse_ragged :
    parse ragged = [[("name", .text " a"), ("note", .text "")],
        [("name", .text "b"), ("note", .text "")], [("name", .text " "), ("note", .text " ")]] ∧
      parse (render ["name", "note"] (parse ragged)) = parse ragged ∧
      parse "name\n\n x,y\n" = [[("name", .text "")], [("name", .text " x")]] ∧
      parse (render ["name"] (parse "name\n\n x,y\n")) = parse "name\n\n x,y\n" := by
  have htwo := parse_render_parse ragged "name,note".toList (by decide +kernel) (by decide)
    (by decide) (by decide)
  have hone := parse_render_parse "name\n\n x,y\n" "name".toList (by decide +kernel) (by decide)
    (by decide) (by decide)
  exact ⟨rfl, htwo.1, rfl, hone.1⟩

end TreeScript.Table
