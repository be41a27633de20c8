import Mathlib
import TreeScript.Text.Quoted

/-!
# Quoted texts are read back uniquely

Between quotes every character is written in one of three ways (`Escaped`), and from what is written
the character and the end of what is written for it are known, whatever follows (`Escaped.unique`).
A quote that is part of the text never stands by itself, so that the first quote that does is the
closing one.  So two quoted texts, each with something behind it, are only the same characters if
the texts are the same and so is what is behind them: `quote_append_inj`.
-/

namespace TreeScript.Text

/-! ## 1. Where a text ends -/

/-- **A text that goes up to the first of certain characters** is known from what it begins, and so
is what follows. -/
theorem append_inj_of_ends {isEnd : Char → Prop} {cs ds rest rest' : List Char}
    (hcs : ∀ c ∈ cs, ¬ isEnd c) (hds : ∀ c ∈ ds, ¬ isEnd c) (hrest : ∀ c ∈ rest.head?, isEnd c)
    (hrest' : ∀ c ∈ rest'.head?, isEnd c) (h : cs ++ rest = ds ++ rest') :
    cs = ds ∧ rest = rest' := by
  induction cs generalizing ds with
  | nil =>
    cases ds with
    | nil => exact ⟨rfl, h⟩
    | cons d ds =>
      obtain rfl : rest = d :: (ds ++ rest') := h
      exact absurd (hrest d rfl) (hds d (List.mem_cons_self ..))
  | cons c cs ih =>
    cases ds with
    | nil =>
      obtain rfl : c :: (cs ++ rest) = rest' := h
      exact absurd (hrest' c rfl) (hcs c (List.mem_cons_self ..))
    | cons d ds =>
      obtain ⟨rfl, hmore⟩ := List.cons.inj h
      rw [List.forall_mem_cons] at hcs hds
      obtain ⟨rfl, hrests⟩ := ih hcs.2 hds.2 hmore
      exact ⟨rfl, hrests⟩

/-! ## 2. Codes in hexadecimal -/

theorem digitChar_inj : ∀ a < 16, ∀ b < 16, Nat.digitChar a = Nat.digitChar b → a = b := by decide

theorem digitChar_ne_brace : ∀ a < 16, Nat.digitChar a ≠ '\x7d' := by decide

/-- A number is known from its hexadecimal digits. -/
theorem toDigits_inj {m n : Nat} (h : Nat.toDigits 16 m = Nat.toDigits 16 n) : m = n := by
  induction m using Nat.strong_induction_on generalizing n with
  | _ m ih =>
    have hbase : 1 < 16 := by decide
    rw [Nat.toDigits_eq_if hbase, Nat.toDigits_eq_if (n := n) hbase] at h
    split at h <;> split at h
    · rename_i hm hn
      exact digitChar_inj m hm n hn (List.singleton_inj.mp h)
    · exact absurd (List.append_eq_singleton_iff.mp h.symm) (by simp [Nat.toDigits_ne_nil])
    · exact absurd (List.append_eq_singleton_iff.mp h) (by simp [Nat.toDigits_ne_nil])
    · rename_i hm hn
      obtain ⟨hinit, hlast⟩ := List.append_inj' h rfl
      have hdiv : m / 16 = n / 16 := ih (m / 16) (by omega) hinit
      have hmod : m % 16 = n % 16 := digitChar_inj _ (Nat.mod_lt m (by decide)) _
        (Nat.mod_lt n (by decide)) (List.singleton_inj.mp hlast)
      omega

/-- No hexadecimal digit is a closing brace. -/
theorem ne_brace_of_mem_hexCode (c : Char) : ∀ e ∈ hexCode c, ¬ e = '\x7d' := by
  unfold hexCode
  generalize c.toNat = n
  induction n using Nat.strong_induction_on with
  | _ n ih =>
    rcases Nat.lt_or_ge n 16 with hlt | hge
    · rw [Nat.toDigits_of_lt_base hlt, List.forall_mem_singleton]
      exact digitChar_ne_brace n hlt
    · rw [Nat.toDigits_of_base_le (by decide) hge, List.forall_mem_append,
        List.forall_mem_singleton]
      exact ⟨ih (n / 16) (by omega), digitChar_ne_brace _ (Nat.mod_lt n (by decide))⟩

theorem hexCode_inj {c d : Char} (h : hexCode c = hexCode d) : c = d :=
  Char.toNat_inj.mp (toDigits_inj h)

/-! ## 3. One character -/

/-- The characters that are written as a backslash and a letter. -/
def letters : List (Char × Char) :=
  [('\x00', '0'), ('\t', 't'), ('\r', 'r'), ('\n', 'n'), ('"', '"'), ('\\', '\\')]

theorem letters_inj : ∀ e ∈ letters, ∀ e' ∈ letters, e.2 = e'.2 → e.1 = e'.1 := by decide

theorem letters_ne : ∀ e ∈ letters, e.2 ≠ 'u' := by decide

/-- **How a character is written between quotes**: by a letter, by itself, or by its code. -/
inductive Escaped (c : Char) : List Char → Prop where
  | letter {l : Char} (h : (c, l) ∈ letters) : Escaped c ['\\', l]
  | shown (hslash : c ≠ '\\') (hquote : c ≠ '"') : Escaped c [c]
  | coded : Escaped c ('\\' :: 'u' :: '\x7b' :: (hexCode c ++ ['\x7d']))

theorem escaped_escape (c : Char) : Escaped c (escape c) := by
  unfold escape
  split_ifs with hnull htab hreturn hfeed hquote hslash hshown
  · exact .letter (by simp [letters, hnull])
  · exact .letter (by simp [letters, htab])
  · exact .letter (by simp [letters, hreturn])
  · exact .letter (by simp [letters, hfeed])
  · exact .letter (by simp [letters, hquote])
  · exact .letter (by simp [letters, hslash])
  · exact .shown hslash hquote
  · exact .coded

namespace Escaped

variable {c d : Char} {cs ds rest rest' : List Char}

/-- What is written for a character does not begin with a quote. -/
theorem exists_cons (h : Escaped c cs) : ∃ first more, cs = first :: more ∧ first ≠ '"' := by
  cases h with
  | letter h => exact ⟨_, _, rfl, by decide⟩
  | shown hslash hquote => exact ⟨_, _, rfl, hquote⟩
  | coded => exact ⟨_, _, rfl, by decide⟩

/-- **A character is known from what is written for it**, and so is what follows. -/
theorem unique (h : Escaped c cs) (h' : Escaped d ds) (heq : cs ++ rest = ds ++ rest') :
    c = d ∧ rest = rest' := by
  cases h with
  | letter h =>
    cases h' with
    | letter h' =>
      obtain ⟨hletter, hrest⟩ := List.cons.inj (List.cons.inj heq).2
      exact ⟨letters_inj _ h _ h' hletter, hrest⟩
    | shown hslash _ => exact absurd (List.cons.inj heq).1.symm hslash
    | coded => exact absurd (List.cons.inj (List.cons.inj heq).2).1 (letters_ne _ h)
  | shown hslash _ =>
    cases h' with
    | shown _ _ => exact List.cons.inj heq
    | letter _ => exact absurd (List.cons.inj heq).1 hslash
    | coded => exact absurd (List.cons.inj heq).1 hslash
  | coded =>
    cases h' with
    | letter h' => exact absurd (List.cons.inj (List.cons.inj heq).2).1.symm (letters_ne _ h')
    | shown hslash _ => exact absurd (List.cons.inj heq).1.symm hslash
    | coded =>
      have hcode : hexCode c ++ '\x7d' :: rest = hexCode d ++ '\x7d' :: rest' := by
        simpa using heq
      obtain ⟨hsame, hrest⟩ := append_inj_of_ends (ne_brace_of_mem_hexCode c)
        (ne_brace_of_mem_hexCode d) (by simp) (by simp) hcode
      exact ⟨hexCode_inj hsame, (List.cons.inj hrest).2⟩

end Escaped

/-! ## 4. A text -/

/-- What is between the quotes ends at the first quote that stands by itself. -/
theorem flatMap_escape_inj {rest rest' : List Char} : ∀ {cs ds : List Char},
    cs.flatMap escape ++ '"' :: rest = ds.flatMap escape ++ '"' :: rest' → cs = ds ∧ rest = rest'
  | [], [], h => ⟨rfl, (List.cons.inj h).2⟩
  | [], d :: ds, h => by
    obtain ⟨first, more, hd, hquote⟩ := (escaped_escape d).exists_cons
    rw [List.flatMap_cons, hd] at h
    exact absurd (List.cons.inj h).1.symm hquote
  | c :: cs, [], h => by
    obtain ⟨first, more, hc, hquote⟩ := (escaped_escape c).exists_cons
    rw [List.flatMap_cons, hc] at h
    exact absurd (List.cons.inj h).1 hquote
  | c :: cs, d :: ds, h => by
    rw [List.flatMap_cons, List.flatMap_cons, List.append_assoc, List.append_assoc] at h
    obtain ⟨rfl, hmore⟩ := (escaped_escape c).unique (escaped_escape d) h
    obtain ⟨rfl, hrest⟩ := flatMap_escape_inj hmore
    exact ⟨rfl, hrest⟩

/-- **A quoted text is known from the characters that begin with it**, and so is what follows. -/
theorem quote_append_inj {cs ds rest rest' : List Char}
    (h : quote cs ++ rest = quote ds ++ rest') : cs = ds ∧ rest = rest' := by
  unfold quote at h
  exact flatMap_escape_inj (by simpa using h)

end TreeScript.Text
