import Mathlib.Data.String.Basic
import Mathlib.Tactic.SplitIfs

/-!
# The order of texts

Texts are ordered like lists of the codes of their characters, `codes`, the first difference
deciding: `lt_iff_codes`.  A machine compares the bytes of their UTF-8 form, `bytes`, and this is
the same order (`lt_iff_bytes`).

The reason is in the form of one character.  The first byte of a longer form is above that of a
shorter one, and forms of the same length hold the pieces of their codes from the highest to the
lowest.  So of two characters the one with the smaller code has the smaller byte where the forms
first differ, and they do differ before one of them ends: `Below`.
-/

namespace TreeScript.Text

/-- The codes of the characters of a text. -/
def codes (s : String) : List Nat := s.toList.map Char.toNat

/-- The bytes of a text in UTF-8. -/
def bytes (s : String) : List UInt8 := s.toUTF8.data.toList

/-! ## 1. Codes -/

theorem map_toNat_lt_iff : ∀ cs ds : List Char,
    cs.map Char.toNat < ds.map Char.toNat ↔ cs < ds
  | [], [] => by simp
  | [], d :: ds => by simp
  | c :: cs, [] => by simp
  | c :: cs, d :: ds => by
    rw [List.map_cons, List.map_cons, List.cons_lt_cons_iff, List.cons_lt_cons_iff,
      map_toNat_lt_iff cs ds, Char.toNat_inj]
    rfl

/-- **Texts are ordered by the codes of their characters.** -/
theorem lt_iff_codes (s t : String) : s < t ↔ codes s < codes t := by
  rw [String.lt_iff_toList_lt, codes, codes, map_toNat_lt_iff]

/-! ## 2. Bytes that differ -/

/-- The first list has the smaller byte where the two first differ, and neither ends before that. -/
inductive Below : List UInt8 → List UInt8 → Prop where
  | here {x y : UInt8} {l m : List UInt8} (h : x < y) : Below (x :: l) (y :: m)
  | later {x : UInt8} {l m : List UInt8} (h : Below l m) : Below (x :: l) (x :: m)

/-- What follows after a difference does not matter. -/
theorem Below.append_lt {l m : List UInt8} (h : Below l m) (l' m' : List UInt8) :
    l ++ l' < m ++ m' := by
  induction h with
  | here h => exact List.cons_lt_cons_iff.mpr (Or.inl h)
  | later _ ih => exact List.cons_lt_cons_iff.mpr (Or.inr ⟨rfl, ih⟩)

theorem not_below_nil (l : List UInt8) : ¬ Below l [] := nofun

theorem below_cons_iff {a b : Nat} (ha : a < 256) (hb : b < 256) {l m : List UInt8} :
    Below (UInt8.ofNat a :: l) (UInt8.ofNat b :: m) ↔ a < b ∨ a = b ∧ Below l m := by
  have hlt : UInt8.ofNat a < UInt8.ofNat b ↔ a < b := by
    rw [UInt8.lt_iff_toNat_lt, UInt8.toNat_ofNat', UInt8.toNat_ofNat', Nat.mod_eq_of_lt ha,
      Nat.mod_eq_of_lt hb]
  have heq : UInt8.ofNat a = UInt8.ofNat b ↔ a = b := by
    rw [← UInt8.toNat_inj, UInt8.toNat_ofNat', UInt8.toNat_ofNat', Nat.mod_eq_of_lt ha,
      Nat.mod_eq_of_lt hb]
  constructor
  · intro h
    generalize hx : UInt8.ofNat a = x at h
    generalize hy : UInt8.ofNat b = y at h
    cases h with
    | here h => exact Or.inl (hlt.mp (hx ▸ hy ▸ h))
    | later h => exact Or.inr ⟨heq.mp (hx.trans hy.symm), h⟩
  · rintro (h | ⟨rfl, h⟩)
    · exact .here (hlt.mpr h)
    · exact .later h

/-! ## 3. The form of one character -/

/-- A code is put together again from its pieces of six bits. -/
theorem pieces_eq (n : Nat) :
    n = 262144 * (n / 262144) + 4096 * (n / 4096 % 64) + 64 * (n / 64 % 64) + n % 64 := by
  have h : n / 64 / 64 = n / 4096 := Nat.div_div_eq_div_mul n 64 64
  have h' : n / 4096 / 64 = n / 262144 := Nat.div_div_eq_div_mul n 4096 64
  omega

/-- Codes are compared by their pieces of six bits, from the highest to the lowest. -/
theorem pieces_lt {a b : Nat} (h : a < b) :
    a / 262144 < b / 262144 ∨ a / 262144 = b / 262144 ∧
      (a / 4096 % 64 < b / 4096 % 64 ∨ a / 4096 % 64 = b / 4096 % 64 ∧
        (a / 64 % 64 < b / 64 % 64 ∨ a / 64 % 64 = b / 64 % 64 ∧ a % 64 < b % 64)) := by
  have hpiece (n : Nat) : n / 4096 % 64 < 64 ∧ n / 64 % 64 < 64 ∧ n % 64 < 64 := by omega
  have ha := pieces_eq a
  have hb := pieces_eq b
  have hpa := hpiece a
  have hpb := hpiece b
  -- from here on the pieces are numbers like any others
  generalize a / 262144 = x, a / 4096 % 64 = y, a / 64 % 64 = z, a % 64 = w at *
  generalize b / 262144 = x', b / 4096 % 64 = y', b / 64 % 64 = z', b % 64 = w' at *
  omega

/-- **The form of a smaller character is below that of a greater one.** -/
theorem below_encode {c d : Char} (h : c < d) :
    Below (String.utf8EncodeChar c) (String.utf8EncodeChar d) := by
  have hlt : c.val.toNat < d.val.toNat := h
  have hbound : d.val.toNat < 0x110000 := by
    have hvalid := d.valid
    unfold UInt32.isValidChar Nat.isValidChar at hvalid
    omega
  have hpieces := pieces_lt hlt
  unfold String.utf8EncodeChar
  generalize c.val.toNat = a at *
  generalize d.val.toNat = b at *
  have ha : a / 262144 % 8 = a / 262144 := by omega
  have hb : b / 262144 % 8 = b / 262144 := by omega
  dsimp only
  rw [ha, hb]
  -- one case for each pair of lengths
  split_ifs
  all_goals simp (disch := omega) only [below_cons_iff, not_below_nil, and_false, or_false]
  all_goals omega

/-! ## 4. Texts -/

theorem bytes_eq (s : String) : bytes s = s.toList.flatMap String.utf8EncodeChar := by
  rw [bytes, String.toUTF8_eq_toByteArray, ← String.utf8Encode_toList, List.utf8Encode,
    List.data_toByteArray, List.toList_toArray]

theorem flatMap_encode_lt : ∀ {cs ds : List Char}, cs < ds →
    cs.flatMap String.utf8EncodeChar < ds.flatMap String.utf8EncodeChar
  | [], [], h => absurd h (List.lt_irrefl [])
  | [], d :: ds, _ => by
    obtain ⟨x, l, hd⟩ := List.exists_cons_of_ne_nil (String.utf8EncodeChar_ne_nil (c := d))
    rw [List.flatMap_nil, List.flatMap_cons, hd]
    exact List.nil_lt_cons x _
  | c :: cs, [], h => absurd h (List.not_lt_nil _)
  | c :: cs, d :: ds, h => by
    rw [List.flatMap_cons, List.flatMap_cons]
    rcases List.cons_lt_cons_iff.mp h with h | ⟨rfl, h'⟩
    · exact (below_encode h).append_lt _ _
    · exact List.append_left_lt (flatMap_encode_lt h')

/-- **Texts are ordered by their bytes**: UTF-8 keeps the order of the codes. -/
theorem lt_iff_bytes (s t : String) : s < t ↔ bytes s < bytes t := by
  have hforward : ∀ {s t : String}, s < t → bytes s < bytes t := by
    intro s t h
    rw [bytes_eq, bytes_eq]
    exact flatMap_encode_lt (String.lt_iff_toList_lt.mp h)
  refine ⟨hforward, fun h => ?_⟩
  rcases lt_trichotomy s t with hlt | rfl | hgt
  · exact hlt
  · exact absurd h (List.lt_irrefl _)
  · exact absurd (hforward hgt) (List.lt_asymm h)

end TreeScript.Text
