import TreeScript.Text.Blank
import TreeScript.Text.Pieces

/-!
# Lines and pieces, written and read

`unlines` ends every line with a line feed, and `lines` undoes it but for the carriage return that
it takes off the end of a line (`lines_unlines`).  A text that was joined begins as its first piece
begins and ends as its last piece ends, except where that piece is empty; so a mark at its front or
a carriage return at its end is one of the piece.
-/

namespace TreeScript.Text

/-! ## 1. Lines -/

/-- The text of lines that each end with a line feed. -/
def unlines (ls : List (List Char)) : List Char := ls.flatMap fun line => line ++ ['\n']

theorem unlines_cons (line : List Char) (ls : List (List Char)) :
    unlines (line :: ls) = line ++ '\n' :: unlines ls := by
  simp [unlines]

theorem splitOn_unlines : ∀ {ls : List (List Char)}, (∀ line ∈ ls, '\n' ∉ line) →
    splitOn '\n' (unlines ls) = ls ++ [[]]
  | [], _ => rfl
  | line :: ls, h => by
    have hline : '\n' ∉ line := h line (by simp)
    have hls : ∀ l ∈ ls, '\n' ∉ l := fun l hl => h l (by simp [hl])
    rw [unlines_cons, splitOn_append_separator _ hline, splitOn_unlines hls, List.cons_append]

/-- Lines that were written are read, each without the carriage return at its end. -/
theorem lines_unlines {ls : List (List Char)} (h : ∀ line ∈ ls, '\n' ∉ line) :
    lines (unlines ls) = ls.map dropReturn := by
  simp only [lines, splitOn_unlines h, List.dropLast_concat, List.getLastD_concat,
    List.isEmpty_nil, if_true, List.append_nil]

theorem dropReturn_eq_self_iff {line : List Char} :
    dropReturn line = line ↔ line.getLast? ≠ some '\r' := by
  unfold dropReturn
  split
  · rename_i hlast
    have hne : line ≠ [] := by
      rintro rfl
      cases hlast
    have hlt : line.dropLast.length < line.length := by
      rw [List.length_dropLast]
      have := List.length_pos_iff.mpr hne
      omega
    constructor
    · intro heq
      rw [heq] at hlt
      exact absurd hlt (Nat.lt_irrefl _)
    · exact fun hnot => absurd hlast hnot
  · rename_i hlast
    exact ⟨fun _ => hlast, fun _ => rfl⟩

theorem mem_of_mem_dropReturn {d : Char} {line : List Char} (h : d ∈ dropReturn line) :
    d ∈ line := by
  unfold dropReturn at h
  split at h
  · exact List.dropLast_subset _ h
  · exact h

theorem length_dropReturn_le (line : List Char) : (dropReturn line).length ≤ line.length := by
  unfold dropReturn
  split
  · exact List.length_dropLast ▸ Nat.sub_le _ _
  · exact Nat.le_refl _

/-- Only a carriage return is taken off. -/
theorem count_dropReturn {c : Char} (hc : c ≠ '\r') (line : List Char) :
    (dropReturn line).count c = line.count c := by
  unfold dropReturn
  split
  · rename_i hlast
    obtain ⟨front, hfront⟩ := List.getLast?_eq_some_iff.mp hlast
    have hne : ¬ '\r' = c := fun h => hc h.symm
    rw [hfront, List.dropLast_concat, List.count_append]
    simp [hne]
  · rfl

/-- A line that is read is a piece between line feeds, or what is left of one without the carriage
return at its end. -/
theorem exists_piece_of_mem_lines {cs line : List Char} (h : line ∈ lines cs) :
    ∃ piece ∈ splitOn '\n' cs, line = piece ∨ line = dropReturn piece := by
  unfold lines at h
  rcases List.mem_append.mp h with h | h
  · obtain ⟨piece, hpiece, rfl⟩ := List.mem_map.mp h
    exact ⟨piece, List.dropLast_subset _ hpiece, Or.inr rfl⟩
  · split at h
    · cases h
    · obtain rfl := List.mem_singleton.mp h
      have hlast : (splitOn '\n' cs).getLastD [] ∈ splitOn '\n' cs := by
        rw [List.getLastD_eq_getLast?, List.getLast?_eq_some_getLast (splitOn_ne_nil _ _)]
        exact List.getLast_mem _
      exact ⟨_, hlast, Or.inl rfl⟩

/-- No line that is read has a line feed. -/
theorem newline_not_mem_of_mem_lines {cs line : List Char} (h : line ∈ lines cs) :
    '\n' ∉ line := by
  obtain ⟨piece, hpiece, rfl | rfl⟩ := exists_piece_of_mem_lines h
  · exact not_mem_of_mem_splitOn hpiece
  · exact fun hmem => not_mem_of_mem_splitOn hpiece (mem_of_mem_dropReturn hmem)

/-! ## 2. The mark at the front -/

theorem dropMark_eq_self_iff {cs : List Char} : dropMark cs = cs ↔ cs.head? ≠ some mark := by
  cases cs with
  | nil => simp [dropMark]
  | cons c rest =>
    by_cases h : c = mark
    · simp [dropMark, h]
    · simp [dropMark, h]

theorem dropMark_mark_cons (cs : List Char) : dropMark (mark :: cs) = cs := by
  rw [dropMark, if_pos rfl]

theorem dropMark_concat {cs : List Char} (h : cs ≠ []) (c : Char) :
    dropMark (cs ++ [c]) = dropMark cs ++ [c] := by
  obtain ⟨d, cs, rfl⟩ := List.exists_cons_of_ne_nil h
  by_cases hmark : d = mark <;> simp [dropMark, hmark]

theorem getLast?_dropMark {cs : List Char} (h : dropMark cs ≠ []) :
    (dropMark cs).getLast? = cs.getLast? := by
  cases cs with
  | nil => rfl
  | cons c cs =>
    by_cases hmark : c = mark
    · rw [hmark, dropMark_mark_cons] at h ⊢
      rw [List.getLast?_cons, List.getLast?_eq_some_getLast h, Option.getD_some]
    · simp only [dropMark, hmark, if_false]

theorem mem_of_mem_dropMark {d : Char} {cs : List Char} (h : d ∈ dropMark cs) : d ∈ cs := by
  cases cs with
  | nil => exact h
  | cons c rest =>
    by_cases hc : c = mark
    · simp only [dropMark, hc, if_true] at h
      exact List.mem_cons_of_mem _ h
    · simpa only [dropMark, hc, if_false] using h

/-- A text that is no shorter without the mark has none. -/
theorem dropMark_eq_self_of_length_le {cs : List Char} (h : cs.length ≤ (dropMark cs).length) :
    dropMark cs = cs := by
  cases cs with
  | nil => rfl
  | cons c rest =>
    by_cases hc : c = mark
    · simp only [dropMark, hc, if_true, List.length_cons] at h
      omega
    · simp only [dropMark, hc, if_false]

theorem count_dropMark {d : Char} (hd : d ≠ mark) (cs : List Char) :
    (dropMark cs).count d = cs.count d := by
  cases cs with
  | nil => rfl
  | cons c rest =>
    by_cases hc : c = mark
    · have hne : ¬ mark = d := fun h => hd h.symm
      simp [dropMark, hc, hne]
    · simp only [dropMark, hc, if_false]

/-- The mark can only stand on the first line. -/
theorem dropMark_unlines_cons (line : List Char) (ls : List (List Char)) :
    dropMark (unlines (line :: ls)) = unlines (dropMark line :: ls) := by
  cases line with
  | nil =>
    have hne : '\n' ≠ mark := by decide
    simp [unlines, dropMark, hne]
  | cons c rest =>
    by_cases h : c = mark
    · simp [unlines, dropMark, h]
    · simp [unlines, dropMark, h]

/-! ## 3. Joined pieces -/

variable {separator c : Char}

theorem not_mem_join (hc : c ≠ separator) :
    ∀ {pieces : List (List Char)}, (∀ piece ∈ pieces, c ∉ piece) → c ∉ join separator pieces
  | [], _ => List.not_mem_nil
  | [piece], h => h piece (by simp)
  | piece :: next :: rest, h => by
    rw [join_cons_cons, List.mem_append, List.mem_cons]
    rintro (hpiece | hsep | hrest)
    · exact h piece (by simp) hpiece
    · exact hc hsep
    · exact not_mem_join hc (fun p hp => h p (List.mem_cons_of_mem _ hp)) hrest

theorem mem_join_of_mem {piece : List Char} (hc : c ∈ piece) :
    ∀ {pieces : List (List Char)}, piece ∈ pieces → c ∈ join separator pieces
  | [first], h => by
    obtain rfl := List.mem_singleton.mp h
    exact hc
  | first :: next :: rest, h => by
    rw [join_cons_cons]
    rcases List.mem_cons.mp h with rfl | h
    · exact List.mem_append_left _ hc
    · exact List.mem_append_right _ (List.mem_cons_of_mem _ (mem_join_of_mem hc h))

/-- What is in a piece is in the text. -/
theorem mem_of_mem_splitOn {cs piece : List Char} (hpiece : piece ∈ splitOn separator cs)
    (hc : c ∈ piece) : c ∈ cs := by
  rw [← join_splitOn separator cs]
  exact mem_join_of_mem hc hpiece

/-- What is in a line is in the text. -/
theorem mem_of_mem_lines {cs line : List Char} (hline : line ∈ lines cs) (hc : c ∈ line) :
    c ∈ cs := by
  obtain ⟨piece, hpiece, rfl | rfl⟩ := exists_piece_of_mem_lines hline
  · exact mem_of_mem_splitOn hpiece hc
  · exact mem_of_mem_splitOn hpiece (mem_of_mem_dropReturn hc)

/-- Between two pieces there is a separator. -/
theorem mem_join {pieces : List (List Char)} (h : 1 < pieces.length) :
    separator ∈ join separator pieces := by
  match pieces, h with
  | piece :: next :: rest, _ =>
    rw [join_cons_cons]
    exact List.mem_append_right _ List.mem_cons_self

theorem head?_join_cons (hc : c ≠ separator) (piece : List Char) (rest : List (List Char)) :
    (join separator (piece :: rest)).head? = some c ↔ piece.head? = some c := by
  cases rest with
  | nil => exact Iff.rfl
  | cons next rest =>
    cases piece with
    | nil => simpa [join] using fun h => hc h.symm
    | cons d ds => simp [join]

theorem join_concat (piece : List Char) :
    ∀ {pieces : List (List Char)}, pieces ≠ [] →
      join separator (pieces ++ [piece]) = join separator pieces ++ separator :: piece
  | [first], _ => rfl
  | first :: next :: rest, _ => by
    have ih : join separator (next :: rest ++ [piece]) =
        join separator (next :: rest) ++ separator :: piece :=
      join_concat piece (List.cons_ne_nil next rest)
    rw [List.cons_append, List.cons_append, join_cons_cons, join_cons_cons, ← List.cons_append, ih,
      List.append_assoc, List.cons_append]

theorem getLast?_join_concat (hc : c ≠ separator) (pieces : List (List Char))
    (piece : List Char) :
    (join separator (pieces ++ [piece])).getLast? = some c ↔ piece.getLast? = some c := by
  cases pieces with
  | nil => exact Iff.rfl
  | cons first rest =>
    rw [join_concat piece (List.cons_ne_nil first rest)]
    rcases List.eq_nil_or_concat piece with rfl | ⟨front, last, rfl⟩
    · simpa using fun h => hc h.symm
    · have hassoc : join separator (first :: rest) ++ separator :: front.concat last =
          (join separator (first :: rest) ++ separator :: front).concat last := by simp
      rw [hassoc, List.concat_eq_append, List.concat_eq_append, List.getLast?_concat,
        List.getLast?_concat]

/-- The first piece ends before the first separator. -/
theorem head?_splitOn (separator : Char) (cs : List Char) :
    (splitOn separator cs).head? = some (cs.takeWhile (· ≠ separator)) := by
  induction cs with
  | nil => rfl
  | cons c cs ih =>
    obtain ⟨piece, pieces, hpieces⟩ :=
      List.exists_cons_of_ne_nil (splitOn_ne_nil separator cs)
    rw [hpieces] at ih
    by_cases hc : c = separator
    · simp [splitOn, hc]
    · rw [splitOn_cons_of_ne hc hpieces]
      simpa [hc] using ih

/-- There is one piece more than there are separators. -/
theorem length_splitOn (separator : Char) (cs : List Char) :
    (splitOn separator cs).length = cs.count separator + 1 := by
  induction cs with
  | nil => rfl
  | cons c rest ih =>
    cases hr : splitOn separator rest with
    | nil => exact absurd hr (splitOn_ne_nil separator rest)
    | cons piece pieces =>
      rw [hr] at ih
      by_cases hc : c = separator
      · rw [hc, List.count_cons_self, splitOn, if_pos rfl, hr, List.length_cons, ih]
      · rw [splitOn_cons_of_ne hc hr, List.count_cons_of_ne hc]
        exact ih

/-! ## 4. Blank texts -/

theorem isBlankText_eq_false {cs : List Char} (hc : c ∈ cs) (hblank : isBlank c = false) :
    isBlankText cs = false := by
  unfold isBlankText
  rw [List.all_eq_false]
  exact ⟨c, hc, by simp [hblank]⟩

/-- Nothing is taken off a text without blank characters. -/
theorem trim_eq_self {cs : List Char} (h : ∀ c ∈ cs, isBlank c = false) : trim cs = cs := by
  have hkeep : ∀ ds : List Char, (∀ c ∈ ds, isBlank c = false) → ds.dropWhile isBlank = ds := by
    intro ds hds
    cases ds with
    | nil => rfl
    | cons d ds => exact List.dropWhile_cons_of_neg (by simp [hds d List.mem_cons_self])
  unfold trim
  rw [hkeep cs h, hkeep cs.reverse fun c hc => h c (List.mem_reverse.mp hc), List.reverse_reverse]

end TreeScript.Text
