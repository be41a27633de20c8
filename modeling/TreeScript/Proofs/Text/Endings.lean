import TreeScript.Proofs.Text.Lines

/-!
# The lines of a text, told by their endings

`HasLines` says of a text what its lines are, by what stands at their ends: a line feed, a carriage
return and a line feed, or the end of the text.  Every text has its lines and no others
(`hasLines_iff`), and so it has its pieces between separators (`hasPieces_iff`).

What is changed at the ends alone leaves the lines as they are.  That is so of a carriage return
before every line feed (`lines_withReturns`) and of a line feed at the end of a text that has none
(`lines_concat_feed`).
-/

namespace TreeScript.Text

/-! ## 1. Pieces and lines as relations -/

/-- A text has these pieces: there is a separator between any two of them, and none in them. -/
structure HasPieces (separator : Char) (cs : List Char) (pieces : List (List Char)) : Prop where
  nonempty : pieces ≠ []
  not_mem : ∀ piece ∈ pieces, separator ∉ piece
  join_eq : join separator pieces = cs

theorem hasPieces_iff {separator : Char} {cs : List Char} {pieces : List (List Char)} :
    HasPieces separator cs pieces ↔ splitOn separator cs = pieces := by
  constructor
  · rintro ⟨hne, hpieces, rfl⟩
    exact splitOn_join hne hpieces
  · rintro rfl
    exact ⟨splitOn_ne_nil _ _, fun _ => not_mem_of_mem_splitOn, join_splitOn _ _⟩

/-- **A text has these lines.**  A line feed ends a line, and so does a carriage return with a line
feed; behind the last of these there may be one more line, which is not empty. -/
inductive HasLines : List Char → List (List Char) → Prop where
  | nil : HasLines [] []
  | last {line : List Char} (hne : line ≠ []) (hline : '\n' ∉ line) : HasLines line [line]
  | feed {line rest : List Char} {ls : List (List Char)} (hline : '\n' ∉ line)
      (hreturn : line.getLast? ≠ some '\r') (hrest : HasLines rest ls) :
      HasLines (line ++ '\n' :: rest) (line :: ls)
  | returnFeed {line rest : List Char} {ls : List (List Char)} (hline : '\n' ∉ line)
      (hrest : HasLines rest ls) : HasLines (line ++ '\r' :: '\n' :: rest) (line :: ls)

theorem lines_of_not_mem {cs : List Char} (h : '\n' ∉ cs) :
    lines cs = if cs.isEmpty then [] else [cs] := by
  simp [lines, splitOn_of_not_mem h]

theorem lines_append_feed {line : List Char} (h : '\n' ∉ line) (rest : List Char) :
    lines (line ++ '\n' :: rest) = dropReturn line :: lines rest := by
  obtain ⟨piece, pieces, hpieces⟩ := List.exists_cons_of_ne_nil (splitOn_ne_nil '\n' rest)
  simp only [lines, splitOn_append_separator _ h, hpieces, List.dropLast_cons_cons, List.map_cons,
    List.getLastD_cons, List.cons_append]

theorem dropReturn_concat (line : List Char) : dropReturn (line ++ ['\r']) = line := by
  rw [dropReturn, if_pos List.getLast?_concat, List.dropLast_concat]

theorem hasLines_lines (cs : List Char) : HasLines cs (lines cs) := by
  by_cases hfeed : '\n' ∈ cs
  · obtain ⟨line, rest, heq, hline⟩ := List.eq_append_cons_of_mem hfeed
    have hshorter : rest.length < cs.length := by
      rw [heq, List.length_append, List.length_cons]
      omega
    have ih : HasLines rest (lines rest) := hasLines_lines rest
    rw [heq, lines_append_feed hline]
    by_cases hreturn : line.getLast? = some '\r'
    · obtain ⟨front, rfl⟩ := List.getLast?_eq_some_iff.mp hreturn
      have hfront : '\n' ∉ front := fun h => hline (List.mem_append_left _ h)
      rw [dropReturn_concat, List.append_assoc, List.singleton_append]
      exact .returnFeed hfront ih
    · rw [dropReturn_eq_self_iff.mpr hreturn]
      exact .feed hline hreturn ih
  · rw [lines_of_not_mem hfeed]
    cases cs with
    | nil => exact .nil
    | cons c cs => exact .last (List.cons_ne_nil c cs) hfeed
termination_by cs.length

/-- **Every text has its lines, and no others.** -/
theorem hasLines_iff {cs : List Char} {ls : List (List Char)} :
    HasLines cs ls ↔ lines cs = ls := by
  constructor
  · intro h
    induction h with
    | nil => rfl
    | last hne hline => simp [lines_of_not_mem hline, hne]
    | feed hline hreturn _ ih =>
      rw [lines_append_feed hline, dropReturn_eq_self_iff.mpr hreturn, ih]
    | @returnFeed line rest ls hline _ ih =>
      have hreturned : '\n' ∉ line ++ ['\r'] := by simp [hline]
      have hassoc : line ++ '\r' :: '\n' :: rest = line ++ ['\r'] ++ '\n' :: rest := by simp
      rw [hassoc, lines_append_feed hreturned, dropReturn_concat, ih]
  · rintro rfl
    exact hasLines_lines cs

/-! ## 2. Other ends for the same lines -/

/-- A text with a carriage return before every line feed. -/
def withReturns (cs : List Char) : List Char :=
  cs.flatMap fun c => if c = '\n' then ['\r', '\n'] else [c]

theorem withReturns_append (cs more : List Char) :
    withReturns (cs ++ more) = withReturns cs ++ withReturns more := List.flatMap_append

theorem withReturns_of_not_mem {cs : List Char} (h : '\n' ∉ cs) : withReturns cs = cs := by
  induction cs with
  | nil => rfl
  | cons c cs ih =>
    rw [List.mem_cons, not_or] at h
    have hc : ¬ c = '\n' := fun heq => h.1 heq.symm
    rw [withReturns, List.flatMap_cons, if_neg hc, List.singleton_append]
    exact congrArg _ (ih h.2)

/-- A mark stays at the front. -/
theorem dropMark_withReturns (cs : List Char) :
    dropMark (withReturns cs) = withReturns (dropMark cs) := by
  cases cs with
  | nil => rfl
  | cons c cs =>
    have hne : '\n' ≠ mark ∧ '\r' ≠ mark := by decide
    by_cases hfeed : c = '\n'
    · simp [withReturns, dropMark, hfeed, hne]
    · by_cases hmark : c = mark <;> simp [withReturns, dropMark, hfeed, hmark, hne.1.symm]

/-- Where there was no carriage return, one before every line feed belongs to the ends. -/
theorem lines_withReturns {cs : List Char} (h : '\r' ∉ cs) : lines (withReturns cs) = lines cs := by
  have hlines : ∀ {ls : List (List Char)}, HasLines cs ls → HasLines (withReturns cs) ls := by
    intro ls hls
    induction hls with
    | nil => exact .nil
    | last hne hline =>
      rw [withReturns_of_not_mem hline]
      exact .last hne hline
    | @feed line rest ls hline hreturn hrest ih =>
      have hreturned : withReturns (line ++ '\n' :: rest) =
          line ++ '\r' :: '\n' :: withReturns rest := by
        rw [withReturns_append, withReturns_of_not_mem hline]
        rfl
      rw [hreturned]
      exact .returnFeed hline (ih fun hmem => h (by simp [hmem]))
    | returnFeed => exact absurd (by simp) h
  exact hasLines_iff.mp (hlines (hasLines_lines cs))

theorem getLast?_of_append_cons {cs rest : List Char} {c d : Char}
    (h : (cs ++ d :: rest).getLast? = some c) (hne : c ≠ d) : rest.getLast? = some c := by
  rw [List.getLast?_append, List.getLast?_cons, Option.some_or] at h
  cases hrest : rest.getLast? with
  | none =>
    rw [hrest] at h
    exact absurd (Option.some.inj h).symm hne
  | some e =>
    rw [hrest] at h
    exact h

/-- A line feed at the end only ends the last line, where that was not ended. -/
theorem lines_concat_feed {cs : List Char} {c : Char} (hlast : cs.getLast? = some c)
    (hfeed : c ≠ '\n') (hreturn : c ≠ '\r') : lines (cs ++ ['\n']) = lines cs := by
  have hlines : ∀ {ls : List (List Char)}, HasLines cs ls → HasLines (cs ++ ['\n']) ls := by
    intro ls hls
    induction hls with
    | nil => cases hlast
    | last hne hline =>
      refine .feed hline ?_ .nil
      rw [hlast]
      exact fun heq => hreturn (Option.some.inj heq)
    | feed hline hno _ ih =>
      rw [List.append_assoc, List.cons_append]
      exact .feed hline hno (ih (getLast?_of_append_cons hlast hfeed))
    | @returnFeed line rest _ hline _ ih =>
      have hrest : rest.getLast? = some c := by
        rw [List.append_cons] at hlast
        exact getLast?_of_append_cons hlast hfeed
      rw [List.append_assoc, List.cons_append, List.cons_append]
      exact .returnFeed hline (ih hrest)
  exact hasLines_iff.mp (hlines (hasLines_lines cs))

end TreeScript.Text
