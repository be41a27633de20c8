import Mathlib.Tactic.SplitIfs
import TreeScript.Json.Printer
import TreeScript.Json.Reader

/-!
# Texts are read however they are spelled

Between quotes a character can stand for itself, and it can be escaped: with a letter, with its
number, or with the numbers of the two halves of a pair.  `CharSpelledBy` says which texts are a
character's, apart from how they are read.  One step of the reader finds the character in each of
them, `readText_spelled`, and so a text is read up to its closing quote, `readString_inner`.

What is written for a character is one of its spellings, `charSpelledBy_escapeChar`, and so a text
is read as it was written.
-/

namespace TreeScript.Json

variable {inner piece : List Char}

/-! ## 1. Spellings -/

/-- The letters that may stand after a backslash, each with the character that is meant. -/
def escapes : List (Char × Char) :=
  [('"', '"'), ('\\', '\\'), ('/', '/'), ('b', '\x08'), ('f', '\x0c'), ('n', '\n'), ('r', '\r'),
   ('t', '\t')]

/-- The texts that spell one character between quotes: the character itself, a letter after a
backslash, its number, or the numbers of the two halves of a pair. -/
inductive CharSpelledBy : Char → List Char → Prop where
  | plain {c : Char} (hcontrol : 0x20 ≤ c.toNat) (hquote : c ≠ '"') (hslash : c ≠ '\\') :
      CharSpelledBy c [c]
  | letter {c letter : Char} (h : (letter, c) ∈ escapes) : CharSpelledBy c ['\\', letter]
  | code {c d₁ d₂ d₃ d₄ : Char} (h : hexFour? d₁ d₂ d₃ d₄ = some c.toNat) :
      CharSpelledBy c ['\\', 'u', d₁, d₂, d₃, d₄]
  | pair {c d₁ d₂ d₃ d₄ e₁ e₂ e₃ e₄ : Char} (hlarge : 0x10000 ≤ c.toNat)
      (hhigh : hexFour? d₁ d₂ d₃ d₄ = some (0xd800 + (c.toNat - 0x10000) / 0x400))
      (hlow : hexFour? e₁ e₂ e₃ e₄ = some (0xdc00 + (c.toNat - 0x10000) % 0x400)) :
      CharSpelledBy c ['\\', 'u', d₁, d₂, d₃, d₄, '\\', 'u', e₁, e₂, e₃, e₄]

/-- The texts that spell characters one after the other. -/
inductive CharsSpelledBy : List Char → List Char → Prop where
  | nil : CharsSpelledBy [] []
  | cons {c : Char} {cs piece rest : List Char} (h : CharSpelledBy c piece)
      (hrest : CharsSpelledBy cs rest) : CharsSpelledBy (c :: cs) (piece ++ rest)

/-- A text with a quote before and after it. -/
def quote (inner : List Char) : List Char := '"' :: (inner ++ ['"'])

/-! ## 2. One character -/

theorem unescapeLetter?_of_mem {c letter : Char} (h : (letter, c) ∈ escapes) :
    letter ≠ 'u' ∧ unescapeLetter? letter = some c := by
  revert h
  simp only [escapes, List.mem_cons, Prod.mk.injEq, List.not_mem_nil, or_false]
  rintro (⟨rfl, rfl⟩ | ⟨rfl, rfl⟩ | ⟨rfl, rfl⟩ | ⟨rfl, rfl⟩ | ⟨rfl, rfl⟩ | ⟨rfl, rfl⟩ |
    ⟨rfl, rfl⟩ | ⟨rfl, rfl⟩) <;> decide

/-- The number of a character is no half of a pair. -/
theorem not_isHalf (c : Char) : isLowHalf c.toNat = false ∧ isHighHalf c.toNat = false := by
  have hvalid : c.toNat < 0xd800 ∨ 0xdfff < c.toNat ∧ c.toNat < 0x110000 := c.valid
  unfold isLowHalf isHighHalf
  simp only [Bool.and_eq_false_iff, decide_eq_false_iff_not]
  omega

theorem pairChar_halves {c : Char} (h : 0x10000 ≤ c.toNat) :
    pairChar (0xd800 + (c.toNat - 0x10000) / 0x400) (0xdc00 + (c.toNat - 0x10000) % 0x400) = c := by
  have hcode : (0xd800 + (c.toNat - 0x10000) / 0x400 - 0xd800) * 0x400 +
      (0xdc00 + (c.toNat - 0x10000) % 0x400 - 0xdc00) + 0x10000 = c.toNat := by omega
  unfold pairChar
  rw [hcode, Char.ofNat_toNat]

theorem isHalf_halves (c : Char) :
    isHighHalf (0xd800 + (c.toNat - 0x10000) / 0x400) = true ∧
      isLowHalf (0xd800 + (c.toNat - 0x10000) / 0x400) = false ∧
      isLowHalf (0xdc00 + (c.toNat - 0x10000) % 0x400) = true := by
  have hvalid : c.toNat < 0xd800 ∨ 0xdfff < c.toNat ∧ c.toNat < 0x110000 := c.valid
  unfold isLowHalf isHighHalf
  simp only [Bool.and_eq_true, Bool.and_eq_false_iff, decide_eq_true_eq, decide_eq_false_iff_not]
  omega

/-- **However a character is spelled**, one step of the reader finds it. -/
theorem readText_spelled {c : Char} (h : CharSpelledBy c piece) (rest : List Char) :
    readText (piece ++ rest) = consRead c (readText rest) := by
  cases h with
  | plain hcontrol hquote hslash =>
    rw [List.singleton_append, readText.eq_def]
    simp [hquote, hslash]
    omega
  | letter hmem =>
    obtain ⟨hu, hletter⟩ := unescapeLetter?_of_mem hmem
    rw [readText.eq_def]
    simp [hu, hletter]
  | code hcode =>
    obtain ⟨hlow, hhigh⟩ := not_isHalf c
    rw [readText.eq_def]
    simp [hcode, hlow, hhigh]
  | pair hlarge hcode hcode' =>
    obtain ⟨hhigh, hnot, hlow⟩ := isHalf_halves c
    rw [readText.eq_def]
    simp [hcode, hcode', hhigh, hlow, hnot, pairChar_halves hlarge]

/-! ## 3. A whole text -/

theorem readText_inner {cs : List Char} (h : CharsSpelledBy cs inner) (rest : List Char) :
    readText (inner ++ '"' :: rest) = .ok (cs, rest) := by
  induction h with
  | nil =>
    rw [List.nil_append, readText.eq_def]
    rfl
  | cons hchar _ ih =>
    rw [List.append_assoc, readText_spelled hchar, ih]
    rfl

/-- **However a text is spelled**, it is read up to its closing quote. -/
theorem readString_inner {s : String} (h : CharsSpelledBy s.toList inner) (rest : List Char) :
    readString (inner ++ '"' :: rest) = .ok (s, rest) := by
  unfold readString
  rw [readText_inner h]
  exact congrArg (fun t => Except.ok (t, rest)) String.ofList_toList

/-! ## 4. The spelling that is written -/

theorem mem_escapes {c letter : Char} (h : escapeLetter? c = some letter) :
    (letter, c) ∈ escapes := by
  unfold escapeLetter? at h
  split_ifs at h with hc hc hc hc hc hc hc
  all_goals
    cases h
    rw [hc]
    decide

theorem hexDigit?_digitChar : ∀ d < 16, hexDigit? (Nat.digitChar d) = some d := by decide

/-- The code of a control character is read from its last two digits. -/
theorem hexFour?_of_lt {n : Nat} (h : n < 0x20) :
    hexFour? '0' '0' (Nat.digitChar (n / 16)) (Nat.digitChar (n % 16)) = some n := by
  have hzero : hexDigit? '0' = some 0 := rfl
  have hhigh := hexDigit?_digitChar (n / 16) (by omega)
  have hlow := hexDigit?_digitChar (n % 16) (by omega)
  unfold hexFour?
  rw [hzero, hhigh, hlow]
  simp
  omega

theorem ne_of_escapeLetter?_eq_none {c : Char} (h : escapeLetter? c = none) :
    c ≠ '"' ∧ c ≠ '\\' := by
  constructor
  · rintro rfl
    exact absurd h (by decide)
  · rintro rfl
    exact absurd h (by decide)

/-- **What is written for a character is one of its spellings.** -/
theorem charSpelledBy_escapeChar (c : Char) : CharSpelledBy c (escapeChar c) := by
  unfold escapeChar
  cases hletter : escapeLetter? c with
  | some letter => exact .letter (mem_escapes hletter)
  | none =>
    obtain ⟨hquote, hslash⟩ := ne_of_escapeLetter?_eq_none hletter
    dsimp only
    split
    · rename_i hcode
      exact .code (hexFour?_of_lt hcode)
    · rename_i hcode
      exact .plain (Nat.le_of_not_lt hcode) hquote hslash

theorem charsSpelledBy_write : ∀ cs : List Char, CharsSpelledBy cs (cs.flatMap escapeChar)
  | [] => .nil
  | c :: cs => .cons (charSpelledBy_escapeChar c) (charsSpelledBy_write cs)

/-- **A text is read as it was written.** -/
theorem readString_write (s : String) (rest : List Char) :
    readString (s.toList.flatMap escapeChar ++ '"' :: rest) = .ok (s, rest) :=
  readString_inner (charsSpelledBy_write s.toList) rest

end TreeScript.Json
