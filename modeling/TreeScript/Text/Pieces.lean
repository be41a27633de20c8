/-
# Pieces and lines of a text

A text is cut into pieces at a separator; there is always at least one piece, and joining the
pieces with the separator gives the text back (`join_splitOn`).  Cutting what was joined gives the
pieces back as long as none of them has the separator (`splitOn_join`).

Lines are pieces at line feeds, read the way text files are: a carriage return before a line feed
belongs to the end of the line, and a line feed at the very end starts no further line.
-/

namespace TreeScript.Text

/-! ## 1. Pieces -/

/-- The pieces of a text between separators. -/
def splitOn (separator : Char) : List Char → List (List Char)
  | [] => [[]]
  | c :: rest =>
    if c = separator then [] :: splitOn separator rest
    else match splitOn separator rest with
      | [] => [[c]]
      | piece :: pieces => (c :: piece) :: pieces

/-- The pieces with a separator between them. -/
def join (separator : Char) : List (List Char) → List Char
  | [] => []
  | [piece] => piece
  | piece :: rest => piece ++ separator :: join separator rest

theorem join_cons_cons (separator : Char) (piece next : List Char) (rest : List (List Char)) :
    join separator (piece :: next :: rest) = piece ++ separator :: join separator (next :: rest) :=
  rfl

theorem splitOn_ne_nil (separator : Char) (cs : List Char) : splitOn separator cs ≠ [] := by
  cases cs with
  | nil => simp [splitOn]
  | cons c rest =>
    simp only [splitOn]
    split
    · simp
    · split <;> simp

/-- The first piece goes up to the first separator. -/
theorem splitOn_cons_of_ne {separator c : Char} (h : c ≠ separator) {rest piece : List Char}
    {pieces : List (List Char)} (hr : splitOn separator rest = piece :: pieces) :
    splitOn separator (c :: rest) = (c :: piece) :: pieces := by
  simp [splitOn, h, hr]

/-- Joining the pieces gives the text back. -/
@[simp] theorem join_splitOn (separator : Char) (cs : List Char) :
    join separator (splitOn separator cs) = cs := by
  induction cs with
  | nil => rfl
  | cons c rest ih =>
    cases hr : splitOn separator rest with
    | nil => exact absurd hr (splitOn_ne_nil separator rest)
    | cons piece pieces =>
      rw [hr] at ih
      by_cases h : c = separator
      · simp [splitOn, h, hr, join_cons_cons, ih]
      · rw [splitOn_cons_of_ne h hr]
        cases pieces with
        | nil => simpa [join] using ih
        | cons next more =>
          rw [join_cons_cons] at ih ⊢
          rw [List.cons_append, ih]

/-- No piece has the separator. -/
theorem not_mem_of_mem_splitOn {separator : Char} {cs piece : List Char}
    (h : piece ∈ splitOn separator cs) : separator ∉ piece := by
  induction cs generalizing piece with
  | nil => simp_all [splitOn]
  | cons c rest ih =>
    cases hr : splitOn separator rest with
    | nil => exact absurd hr (splitOn_ne_nil separator rest)
    | cons first pieces =>
      rw [hr] at ih
      by_cases hc : c = separator
      · simp only [splitOn, hc, if_true, hr, List.mem_cons] at h
        rcases h with rfl | h
        · simp
        · exact ih (List.mem_cons.2 h)
      · rw [splitOn_cons_of_ne hc hr, List.mem_cons] at h
        rcases h with rfl | h
        · have := ih (List.mem_cons_self ..)
          simp only [List.mem_cons, not_or]
          exact ⟨fun e => hc e.symm, this⟩
        · exact ih (List.mem_cons_of_mem _ h)

theorem splitOn_of_not_mem {separator : Char} {cs : List Char} (h : separator ∉ cs) :
    splitOn separator cs = [cs] := by
  induction cs with
  | nil => rfl
  | cons c rest ih =>
    simp only [List.mem_cons, not_or] at h
    exact splitOn_cons_of_ne (fun e => h.1 e.symm) (ih h.2)

theorem splitOn_append_separator {separator : Char} {cs : List Char} (rest : List Char)
    (h : separator ∉ cs) : splitOn separator (cs ++ separator :: rest) =
      cs :: splitOn separator rest := by
  induction cs with
  | nil => simp [splitOn]
  | cons c more ih =>
    simp only [List.mem_cons, not_or] at h
    exact splitOn_cons_of_ne (fun e => h.1 e.symm) (ih h.2)

/-- Cutting what was joined gives the pieces back. -/
theorem splitOn_join {separator : Char} : ∀ {pieces : List (List Char)}, pieces ≠ [] →
    (∀ piece ∈ pieces, separator ∉ piece) → splitOn separator (join separator pieces) = pieces
  | [], h, _ => absurd rfl h
  | [piece], _, h => splitOn_of_not_mem (h piece (by simp))
  | piece :: next :: rest, _, h => by
    rw [join_cons_cons, splitOn_append_separator _ (h piece (by simp)),
      splitOn_join (by simp) fun p hp => h p (List.mem_cons_of_mem _ hp)]

/-! ## 2. Lines -/

/-- A line without the carriage return at its end. -/
def dropReturn (line : List Char) : List Char :=
  if line.getLast? = some '\r' then line.dropLast else line

/-- The lines of a text. -/
def lines (cs : List Char) : List (List Char) :=
  let pieces := splitOn '\n' cs
  let last := pieces.getLastD []
  pieces.dropLast.map dropReturn ++ (if last.isEmpty then [] else [last])

/-- The byte-order mark. -/
def mark : Char := '\ufeff'

/-- A text without the byte-order mark at its front. -/
def dropMark : List Char → List Char
  | [] => []
  | c :: rest => if c = mark then rest else c :: rest

end TreeScript.Text
