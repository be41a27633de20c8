import TreeScript.Proofs.Table.Meaning

/-!
# Conventions of text files

Text files differ by platform and by editor in what says nothing: a mark at the front, blank lines
before the first one, a carriage return before every line feed, a line feed at the end.  A table is
read the same with them and without (`parse_conventions`).

All but the blank lines stand at the front of a text or at the ends of its lines, and leave the lines
as they are; and blank lines are dropped before the header is looked for.  Behind the header nothing
is dropped from a table of one column, where a blank line is a row.
-/

namespace TreeScript.Table

open Text (mark dropMark lines unlines isBlankText withReturns)

/-! ## 1. Blank lines at the front -/

/-- Of a blank line nothing is read, also if it is itself made of several lines. -/
theorem ofLines_blank_feed {line : List Char} (h : isBlankText line = true) (rest : List Char) :
    ofLines (lines (line ++ '\n' :: rest)) = ofLines (lines rest) := by
  have hdrop : ∀ {first more : List Char}, '\n' ∉ first → isBlankText first = true →
      ofLines (lines (first ++ '\n' :: more)) = ofLines (lines more) := by
    intro first more hfirst hblank
    have hall : ∀ l ∈ [Text.dropReturn first], isBlankText l = true := by
      intro l hl
      obtain rfl := List.mem_singleton.mp hl
      exact List.all_eq_true.mpr fun c hc =>
        List.all_eq_true.mp hblank c (Text.mem_of_mem_dropReturn hc)
    rw [Text.lines_append_feed hfirst]
    exact ofLines_append hall (lines more)
  by_cases hfeed : '\n' ∈ line
  · obtain ⟨first, more, heq, hfirst⟩ := List.eq_append_cons_of_mem hfeed
    have hshorter : more.length < line.length := by
      rw [heq, List.length_append, List.length_cons]
      omega
    have hparts : isBlankText first = true ∧ isBlankText more = true := by
      rw [heq] at h
      simp only [isBlankText, List.all_append, List.all_cons, Bool.and_eq_true] at h ⊢
      exact ⟨h.1, h.2.2⟩
    rw [heq, List.append_assoc, List.cons_append, hdrop hfirst hparts.1]
    exact ofLines_blank_feed hparts.2 rest
  · exact hdrop hfeed h
termination_by line.length

theorem ofLines_unlines_append {blanks : List (List Char)}
    (h : ∀ line ∈ blanks, isBlankText line = true) (rest : List Char) :
    ofLines (lines (unlines blanks ++ rest)) = ofLines (lines rest) := by
  induction blanks with
  | nil => rfl
  | cons line blanks ih =>
    rw [Text.unlines_cons, List.append_assoc, List.cons_append,
      ofLines_blank_feed (h line List.mem_cons_self)]
    exact ih fun l hl => h l (List.mem_cons_of_mem _ hl)

/-- Before blank lines there is no mark. -/
theorem head?_unlines_append_ne {blanks : List (List Char)}
    (h : ∀ line ∈ blanks, isBlankText line = true) {rest : List Char}
    (hrest : rest.head? ≠ some mark) : (unlines blanks ++ rest).head? ≠ some mark := by
  cases blanks with
  | nil => exact hrest
  | cons line blanks =>
    rw [Text.unlines_cons]
    cases line with
    | nil => simp [mark]
    | cons c line =>
      have hblank : Text.isBlank c = true :=
        List.all_eq_true.mp (h _ List.mem_cons_self) c List.mem_cons_self
      intro heq
      obtain rfl : c = mark := Option.some.inj heq
      exact absurd hblank (by decide)

/-! ## 2. One column -/

/-- In a table of one column a line is a row of one cell, up to its first comma. -/
theorem row_singleton (name line : List Char) :
    row [name] line =
      [(String.ofList name, .text (String.ofList (line.takeWhile (· ≠ ','))))] := by
  obtain ⟨piece, pieces, hpieces⟩ := List.exists_cons_of_ne_nil (Text.splitOn_ne_nil ',' line)
  have hhead := Text.head?_splitOn ',' line
  rw [hpieces, List.head?_cons] at hhead
  rw [row, hpieces, ← Option.some.inj hhead]
  rfl

/-- **Reading ignores the conventions of text files.**  A text without carriage returns is read the
same with one before every line feed.  A text that does not start with a mark is read the same behind
one, and behind any blank lines.  A text that ends in some character but a line feed or a carriage
return is read the same with a line feed at its end.  This is so with any number of columns; and where
there is only one, all lines behind the header are rows, the blank ones too. -/
theorem parse_conventions (text : String) :
    ('\r' ∉ text.toList → parse (String.ofList (withReturns text.toList)) = parse text) ∧
    (text.toList.head? ≠ some mark →
      parse ("\ufeff" ++ text) = parse text ∧
      ∀ blanks : List (List Char), (∀ line ∈ blanks, isBlankText line = true) →
        parse (String.ofList (unlines blanks) ++ text) = parse text) ∧
    (∀ last ∈ text.toList.getLast?, last ≠ '\n' → last ≠ '\r' →
      parse (text ++ "\n") = parse text) ∧
    ∀ blanks header body, Text.HasLines (dropMark text.toList) (blanks ++ header :: body) →
      (∀ line ∈ blanks, isBlankText line = true) → isBlankText header = false → ',' ∉ header →
        parse text = body.map fun line =>
          [(String.ofList header, .text (String.ofList (line.takeWhile (· ≠ ','))))] := by
  simp only [parse_eq_ofLines, String.toList_append, String.toList_ofList]
  refine ⟨fun hreturn => ?_, fun hmark => ?_, fun last hlast hfeed hreturn => ?_, ?_⟩
  · rw [Text.dropMark_withReturns,
      Text.lines_withReturns fun hmem => hreturn (Text.mem_of_mem_dropMark hmem)]
  · have hself : dropMark text.toList = text.toList := Text.dropMark_eq_self_iff.mpr hmark
    refine ⟨?_, fun blanks hblanks => ?_⟩
    · rw [hself]
      exact congrArg (fun cs => ofLines (lines cs)) (Text.dropMark_mark_cons text.toList)
    · rw [Text.dropMark_eq_self_iff.mpr (head?_unlines_append_ne hblanks hmark), hself,
        ofLines_unlines_append hblanks]
  · have hne : text.toList ≠ [] := fun hnil => by simp [hnil] at hlast
    have hend : "\n".toList = ['\n'] := rfl
    rw [hend, Text.dropMark_concat hne]
    by_cases hempty : dropMark text.toList = []
    · rw [hempty]
      rfl
    · rw [Text.lines_concat_feed ((Text.getLast?_dropMark hempty).trans hlast) hfeed hreturn]
  · intro blanks header body hlines hblanks hvisible hcomma
    rw [Text.hasLines_iff.mp hlines, ofLines_append hblanks, ofLines_cons hvisible,
      Text.splitOn_of_not_mem hcomma, rows_eq_map_rowLines (List.cons_ne_nil _ _)]
    exact List.map_congr_left fun line _ => row_singleton header line

/-- A table of one column with blank lines behind the header, and no line feed at its end. -/
def notes : String := "note\n\n  \nx,y"

/-- Its blank lines are rows, and with other ends and another front it is the same table. -/
theorem parse_conventions_notes :
    parse notes = [[("note", .text "")], [("note", .text "  ")], [("note", .text "x")]] ∧
      parse (String.ofList "note\r\n\r\n  \r\nx,y".toList) = parse notes ∧
      parse ("\ufeff" ++ notes) = parse notes ∧
      parse (String.ofList "\t\n\n \r\n".toList ++ notes) = parse notes ∧
      parse (notes ++ "\n") = parse notes := by
  obtain ⟨hreturns, hfront, hend, hrows⟩ := parse_conventions notes
  obtain ⟨hmark, hblanks⟩ := hfront (by decide)
  have hlines : Text.HasLines (dropMark notes.toList)
      ([] ++ "note".toList :: [[], "  ".toList, "x,y".toList]) := Text.hasLines_iff.mpr rfl
  exact ⟨hrows [] _ _ hlines (by simp) rfl (by decide), hreturns (by decide), hmark,
    hblanks ["\t".toList, [], " \r".toList] (by decide), hend 'y' rfl (by decide) (by decide)⟩

end TreeScript.Table
