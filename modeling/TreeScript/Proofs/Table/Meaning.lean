import TreeScript.Proofs.Entries.History
import TreeScript.Proofs.Table.Faithful
import TreeScript.Proofs.Text.Endings

/-!
# What the text of a table means

`Means` says of a text which table it is, without reading it: which lines it has, which of them are
the header and the rows, and what stands in a row under each name.  Names may be repeated in a header
and lines may be shorter or longer than it.  A repeated name has the place of its first column and the
cells of its last one.

Every text means one table, and that is the table that is read (`parse_eq_iff`).  What a row holds is
told by the history of the pairs that it was built from (`Entries.keys_ofPairs`,
`Entries.get?_ofPairs`).
-/

namespace TreeScript.Table

/-! ## 1. Texts and tables -/

/-- **A row** under the names of a header, on a line with these cells.  Its keys are the names, each
once, in the order in which they first come.  Under a name stands the cell at the last place of that
name in the header, and an empty one if the line has no such cell. -/
structure IsRow (names cells : List (List Char)) (entries : List (String × Value)) : Prop where
  keys_eq : Entries.keys entries = (names.map String.ofList).eraseDups
  cell_eq : ∀ before name after, names = before ++ name :: after → name ∉ after →
    Entries.get? entries (String.ofList name) =
      some (.text (String.ofList (cells[before.length]?.getD [])))

/-- The lines behind a header that are rows: those that are not blank if it has several columns,
and all of them if it has one.  A repeated name is a column of its own. -/
def rowLines (names body : List (List Char)) : List (List Char) :=
  if 2 ≤ names.length then body.filter fun line => !Text.isBlankText line else body

/-- **A table** on lines of which the first, if there is one, is the header. -/
inductive IsTable : List (List Char) → List (List (String × Value)) → Prop where
  | empty : IsTable [] []
  | rows {header : List Char} {names body : List (List Char)}
      {table : List (List (String × Value))} (hnames : Text.HasPieces ',' header names)
      (hrows : List.Forall₂ (fun line entries =>
        ∃ cells, Text.HasPieces ',' line cells ∧ IsRow names cells entries)
        (rowLines names body) table) : IsTable (header :: body) table

/-- **A text means a table**: its lines, without a mark at the front and without the blank lines that
come first, are the table's. -/
def Means (text : String) (table : List (List (String × Value))) : Prop :=
  ∃ blanks ls, Text.HasLines (Text.dropMark text.toList) (blanks ++ ls) ∧
    (∀ line ∈ blanks, Text.isBlankText line = true) ∧
    (∀ line ∈ ls.head?, Text.isBlankText line = false) ∧ IsTable ls table

/-! ## 2. Rows -/

theorem pairCells_append_cons (before : List (List Char)) (name : List Char)
    (after cells : List (List Char)) :
    pairCells (before ++ name :: after) cells =
      pairCells before cells ++
        (String.ofList name, .text (String.ofList (cells[before.length]?.getD []))) ::
          pairCells after (cells.drop (before.length + 1)) := by
  induction before generalizing cells with
  | nil => cases cells <;> rfl
  | cons first before ih =>
    cases cells with
    | nil => simpa [pairCells] using ih []
    | cons cell cells => simpa [pairCells] using ih cells

/-- A name has a last place in a list. -/
theorem exists_last_place {name : List Char} {names : List (List Char)} (h : name ∈ names) :
    ∃ before after, names = before ++ name :: after ∧ name ∉ after := by
  obtain ⟨after, before, heq, hafter⟩ := List.eq_append_cons_of_mem (List.mem_reverse.mpr h)
  refine ⟨before.reverse, after.reverse, ?_, by simpa using hafter⟩
  have hrev := congrArg List.reverse heq
  simpa using hrev

theorem isRow_ofPairs (names cells : List (List Char)) :
    IsRow names cells (Entries.ofPairs (pairCells names cells)) where
  keys_eq := by rw [Entries.keys_ofPairs, keys_pairCells]
  cell_eq := by
    rintro before name after rfl hafter
    have hkeys : String.ofList name ∉ Entries.keys
        (pairCells after (cells.drop (before.length + 1))) := by
      rw [keys_pairCells, List.mem_map_of_injective fun _ _ => String.ofList_injective]
      exact hafter
    rw [Entries.get?_ofPairs, pairCells_append_cons, Entries.latest?_append_cons _ _ hkeys]

/-- **A line has one row**, the one that is built from its cells under the names. -/
theorem isRow_iff {names cells : List (List Char)} {entries : List (String × Value)} :
    IsRow names cells entries ↔ Entries.ofPairs (pairCells names cells) = entries := by
  constructor
  · intro h
    have hown := isRow_ofPairs names cells
    refine Entries.eq_of_get? (Entries.distinct_ofPairs _) (hown.keys_eq.trans h.keys_eq.symm) ?_
    intro key hkey
    rw [hown.keys_eq, List.mem_eraseDups] at hkey
    obtain ⟨name, hname, rfl⟩ := List.mem_map.mp hkey
    obtain ⟨before, after, heq, hafter⟩ := exists_last_place hname
    rw [hown.cell_eq before name after heq hafter, h.cell_eq before name after heq hafter]
  · rintro rfl
    exact isRow_ofPairs names cells

theorem rows_eq_map_rowLines {names : List (List Char)} (hne : names ≠ [])
    (body : List (List Char)) : Table.rows names body = (rowLines names body).map (row names) := by
  have hpos : 0 < names.length := List.length_pos_iff.mpr hne
  unfold Table.rows rowLines
  split
  · rename_i hmany
    have hone : (names.length == 1) = false := by simpa using Nat.ne_of_gt hmany
    simp only [hone, Bool.false_or]
  · have hone : (names.length == 1) = true := by
      rw [beq_iff_eq]
      omega
    simp [hone]

/-! ## 3. Lines and tables -/

theorem forall₂_isRow_iff {names ls : List (List Char)} {table : List (List (String × Value))} :
    List.Forall₂ (fun line entries =>
        ∃ cells, Text.HasPieces ',' line cells ∧ IsRow names cells entries) ls table ↔
      ls.map (row names) = table := by
  have hrow : ∀ line entries, (∃ cells, Text.HasPieces ',' line cells ∧ IsRow names cells entries) ↔
      row names line = entries := by
    intro line entries
    simp only [Text.hasPieces_iff, isRow_iff, exists_eq_left', row]
  simp only [hrow, ← List.forall₂_map_left_iff, List.forall₂_eq_eq_eq]

/-- Blank lines before the others say nothing. -/
theorem ofLines_append {blanks : List (List Char)}
    (h : ∀ line ∈ blanks, Text.isBlankText line = true) (ls : List (List Char)) :
    ofLines (blanks ++ ls) = ofLines ls := by
  unfold ofLines
  rw [List.dropWhile_append_of_pos h]

theorem isTable_iff {ls : List (List Char)} {table : List (List (String × Value))}
    (h : ∀ line ∈ ls.head?, Text.isBlankText line = false) :
    IsTable ls table ↔ ofLines ls = table := by
  cases ls with
  | nil =>
    refine ⟨fun htable => ?_, ?_⟩
    · cases htable
      rfl
    · rintro rfl
      exact .empty
  | cons header body =>
    rw [ofLines_cons (h header rfl), rows_eq_map_rowLines (Text.splitOn_ne_nil ',' header),
      ← forall₂_isRow_iff]
    constructor
    · rintro (_ | ⟨hnames, hrows⟩)
      rwa [Text.hasPieces_iff.mp hnames]
    · exact fun hrows => .rows (Text.hasPieces_iff.mpr rfl) hrows

theorem parse_eq_ofLines (text : String) :
    parse text = ofLines (Text.lines (Text.dropMark text.toList)) := rfl

/-- Reading begins at the first line that is not blank. -/
theorem parse_of_hasLines {text : String} {blanks ls : List (List Char)}
    (hlines : Text.HasLines (Text.dropMark text.toList) (blanks ++ ls))
    (hblanks : ∀ line ∈ blanks, Text.isBlankText line = true) : parse text = ofLines ls := by
  rw [parse_eq_ofLines, Text.hasLines_iff.mp hlines, ofLines_append hblanks]

theorem means_parse (text : String) : Means text (parse text) := by
  have hlines := Text.hasLines_lines (Text.dropMark text.toList)
  generalize Text.lines (Text.dropMark text.toList) = ls at hlines
  have hsplit : ls.takeWhile Text.isBlankText ++ ls.dropWhile Text.isBlankText = ls :=
    List.takeWhile_append_dropWhile
  rw [← hsplit] at hlines
  have hblanks : ∀ line ∈ ls.takeWhile Text.isBlankText, Text.isBlankText line = true :=
    List.all_eq_true.mp List.all_takeWhile
  have hfirst : ∀ line ∈ (ls.dropWhile Text.isBlankText).head?, Text.isBlankText line = false := by
    intro line hline
    have hnot := List.head?_dropWhile_not Text.isBlankText ls
    rwa [Option.mem_def.mp hline] at hnot
  exact ⟨_, _, hlines, hblanks, hfirst,
    (isTable_iff hfirst).mpr (parse_of_hasLines hlines hblanks).symm⟩

/-- **What is read.**  A text means one table, the one that is read from it, and no key and no cell
of that table has a comma or a line feed. -/
theorem parse_eq_iff (text : String) :
    (∀ table, parse text = table ↔ Means text table) ∧
      ∀ entries ∈ parse text, ∀ entry ∈ entries, IsPlain entry.1.toList ∧
        ∃ cell, entry.2 = .text cell ∧ IsPlain cell.toList := by
  refine ⟨fun table => ⟨?_, ?_⟩, fun entries hentries entry hentry => ?_⟩
  · rintro rfl
    exact means_parse text
  · rintro ⟨blanks, ls, hlines, hblanks, hfirst, htable⟩
    rw [parse_of_hasLines hlines hblanks]
    exact (isTable_iff hfirst).mp htable
  · obtain ⟨header, -, line, -, rfl⟩ := mem_ofLines hentries
    obtain ⟨field, -, cell, -, rfl⟩ := mem_pairCells (Entries.mem_of_mem_ofPairs hentry)
    obtain ⟨hfield, hcell⟩ := isPlain_of_mem_parse hentries hentry
    exact ⟨hfield, _, rfl, hcell⟩

/-- A text with a mark, a blank line before the header and one behind it, carriage returns at some
ends, a name that is repeated, and lines of four cells, of one and of three. -/
def repeated : String := "\ufeff \r\na,b,a\r\n1,2,3,4\n\n5\r\n,6,7"

/-- The repeated name is the first key and has the cells of the last column. -/
theorem parse_eq_iff_repeated :
    Means repeated [[("a", .text "3"), ("b", .text "2")], [("a", .text ""), ("b", .text "")],
        [("a", .text "7"), ("b", .text "6")]] ∧
      [("a", .text "7"), ("b", .text "6")] ∈ parse repeated ∧
      IsPlain "b".toList ∧ ∃ cell, Value.text "6" = .text cell ∧ IsPlain cell.toList := by
  have hrow : [("a", .text "7"), ("b", .text "6")] ∈ parse repeated :=
    .tail _ (.tail _ (.head _))
  have hentry : ("b", .text "6") ∈ [("a", Value.text "7"), ("b", .text "6")] := .tail _ (.head _)
  exact ⟨((parse_eq_iff repeated).1 _).mp rfl, hrow, (parse_eq_iff repeated).2 _ hrow _ hentry⟩

end TreeScript.Table
