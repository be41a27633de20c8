import TreeScript.Proofs.Position

/-!
# What an index selects

Indexing a sequence with a number has three ends: an element counted from the front, an element
counted from the back, and an index that is out of bounds.  Which of them it is depends on the
integer that the number truncates to, and on nothing else; a number that is not finite truncates to
none.  `index_sequence` says this of every double, with the truncation as the quotient of its exact
value and one, rounded towards zero.

The place that is found in the integers is the one that the machine finds in the doubles:
`position?_eq_doublePosition?`.
-/

namespace TreeScript

/-! ## 1. Truncation -/

namespace Binary64

/-- **Truncation rounds towards zero**: it is that quotient of the exact value and one. -/
theorem truncated_eq (b : Binary64) : b.truncated = b.value?.map (Int.tdiv · one) := by
  cases b with
  | nan => rfl
  | infinite negative => rfl
  | finite negative m p =>
    refine congrArg some ?_
    cases negative with
    | false => exact Int.ofNat_tdiv _ _
    | true =>
      simp only [signed, if_true]
      rw [Int.neg_tdiv, ← Int.ofNat_tdiv]

theorem value_minus_one : (ofFloat (-1)).value? = some (-(one : Int)) := by
  have hparts : ofFloat (-1) = .finite true (2 ^ 52) 1022 := by decide +kernel
  rw [hparts]
  decide +kernel

/-- What lies between two numbers is finite. -/
theorem exists_value_of_between {x : Float} (hlow : -1 < x) (hhigh : x ≤ 0) :
    ∃ a, (ofFloat x).value? = some a := by
  have hlow' : ((-1 : Float).toModel.compare x.toModel == some .lt) = true :=
    of_decide_eq_true hlow
  have hhigh' : (x.toModel.compare (0 : Float).toModel).any (·.isLE) = true :=
    of_decide_eq_true hhigh
  unfold Float.Model.compare at hlow' hhigh'
  rw [unpack_eq] at hlow' hhigh'
  rw [unpack_eq] at hlow' hhigh'
  have hone : ofFloat (-1) = .finite true (2 ^ 52) 1022 := by decide +kernel
  have hzero : ofFloat 0 = .finite false 0 0 := rfl
  rw [hone] at hlow'
  rw [hzero] at hhigh'
  cases hx : ofFloat x with
  | finite negative m p => exact ⟨_, rfl⟩
  | nan =>
    rw [hx] at hhigh'
    cases hhigh'
  | infinite negative =>
    rw [hx] at hlow' hhigh'
    cases negative with
    | false => cases hhigh'
    | true => cases hlow'

/-- A double between minus one and zero truncates to zero. -/
theorem truncated_of_between {x : Float} (hlow : -1 < x) (hhigh : x ≤ 0) :
    (ofFloat x).truncated = some 0 := by
  obtain ⟨a, ha⟩ := exists_value_of_between hlow hhigh
  have hlow' := (lt_iff value_minus_one ha).mp hlow
  have hhigh' := (le_iff ha Value.value_zero).mp hhigh
  have hquotient : (-a).tdiv one = 0 := Int.tdiv_eq_zero_of_lt (by omega) (by omega)
  rw [Int.neg_tdiv, Int.neg_eq_zero] at hquotient
  rw [truncated_eq, ha, Option.map_some, hquotient]

end Binary64

/-! ## 2. Elements -/

namespace Value

open Binary64

variable {items : List Value} {x : Float} {k : Int}

/-- An index that selects a place gives the element there. -/
theorem index_of_position? {place : Nat} {item : Value}
    (hplace : position? items.length x = some place) (hitem : items[place]? = some item) :
    index (.sequence items) (.number x) = .ok item := by
  unfold index
  dsimp only
  rw [hplace]
  dsimp only
  rw [hitem]

/-- An index that selects no place is out of bounds. -/
theorem index_of_position?_eq_none (hplace : position? items.length x = none) :
    index (.sequence items) (.number x) = .error (.indexOutOfBounds x items.length) := by
  unfold index
  dsimp only
  rw [hplace]

/-- The place that an integer selects, counted from the front or from the back. -/
theorem position?_of_truncated (hk : (ofFloat x).truncated = some k) (length : Nat) :
    position? length x =
      if 0 ≤ k ∧ k < length then some k.toNat
      else if -length ≤ k ∧ k < 0 then some (length + k).toNat else none := by
  unfold position?
  rw [hk]
  dsimp only
  by_cases hneg : k < 0
  · rw [if_pos hneg]
    by_cases hback : -(length : Int) ≤ k
    · rw [if_pos (by omega), if_neg (by omega), if_pos (by omega)]
    · rw [if_neg (by omega), if_neg (by omega), if_neg (by omega)]
  · rw [if_neg hneg]
    by_cases hfront : k < length
    · rw [if_pos (by omega), if_pos (by omega)]
    · rw [if_neg (by omega), if_neg (by omega), if_neg (by omega)]

theorem exists_index_of_position? {place : Nat} (hplace : position? items.length x = some place)
    (hlt : place < items.length) :
    ∃ item, items[place]? = some item ∧ index (.sequence items) (.number x) = .ok item := by
  have hitem : items[place]? = some items[place] := List.getElem?_eq_getElem hlt
  exact ⟨_, hitem, index_of_position? hplace hitem⟩

/-- **Indexing a sequence**, at every double.  With `k` the integer that a finite index truncates
to, it gives the element at `k`, or at `k` counted from the end, or else the index is out of bounds;
so is every index that is not finite.  Between minus one and zero, both zeros included, it gives the
first element.  And the place is the one that is computed in doubles, up to a length of `2^53`. -/
theorem index_sequence (items : List Value) (hlength : items.length < 2 ^ 53) (x : Float) :
    (∀ a k : Int, (ofFloat x).value? = some a → k = a.tdiv one →
      (0 ≤ k → k < items.length → ∃ item, items[k.toNat]? = some item ∧
        index (.sequence items) (.number x) = .ok item) ∧
      (-items.length ≤ k → k < 0 → ∃ item, items[(items.length + k).toNat]? = some item ∧
        index (.sequence items) (.number x) = .ok item) ∧
      (k < -items.length ∨ items.length ≤ k →
        index (.sequence items) (.number x) = .error (.indexOutOfBounds x items.length))) ∧
    (x.isFinite = false →
      index (.sequence items) (.number x) = .error (.indexOutOfBounds x items.length)) ∧
    (∀ first rest, items = first :: rest → -1 < x → x ≤ 0 →
      index (.sequence items) (.number x) = .ok first) ∧
    position? items.length x = doublePosition? items.length x := by
  refine ⟨?_, ?_, ?_, position?_eq_doublePosition? items.length hlength x⟩
  · rintro a k ha rfl
    have hk : (ofFloat x).truncated = some (a.tdiv one) := by rw [truncated_eq, ha, Option.map_some]
    have hplace := position?_of_truncated hk items.length
    refine ⟨fun hlow hhigh => ?_, fun hlow hhigh => ?_, fun hout => ?_⟩
    · rw [if_pos ⟨hlow, hhigh⟩] at hplace
      exact exists_index_of_position? hplace (by omega)
    · rw [if_neg (by omega), if_pos ⟨hlow, hhigh⟩] at hplace
      exact exists_index_of_position? hplace (by omega)
    · rw [if_neg (by omega), if_neg (by omega)] at hplace
      exact index_of_position?_eq_none hplace
  · intro hfinite
    rw [isFinite_eq, Option.isSome_eq_false_iff, Option.isNone_iff_eq_none] at hfinite
    refine index_of_position?_eq_none ?_
    unfold position?
    rw [truncated_eq, hfinite]
    rfl
  · rintro first rest rfl hlow hhigh
    have hplace := position?_of_truncated (truncated_of_between hlow hhigh) (first :: rest).length
    rw [if_pos (by simp only [List.length_cons]; omega)] at hplace
    exact index_of_position? hplace rfl

/-- A list of three elements. -/
def threeTexts : List Value := [.text "a", .text "b", .text "c"]

/-- Of three elements an index of `-2.5` selects the one before the last, `-0.5` the first one,
`-4` none, and neither does infinity. -/
theorem index_sequence_below_zero :
    threeTexts.length < 2 ^ 53 ∧
      index (.sequence threeTexts) (.number (-2.5)) = .ok (.text "b") ∧
      index (.sequence threeTexts) (.number (-0.5)) = .ok (.text "a") ∧
      index (.sequence threeTexts) (.number (-4)) = .error (.indexOutOfBounds (-4) 3) ∧
      index (.sequence threeTexts) (.number (1 / 0)) = .error (.indexOutOfBounds (1 / 0) 3) := by
  have hlength : threeTexts.length < 2 ^ 53 := by decide
  obtain ⟨hback, -, -, -⟩ := index_sequence threeTexts hlength (-2.5)
  obtain ⟨-, -, hfirst, -⟩ := index_sequence threeTexts hlength (-0.5)
  obtain ⟨hout, -, -, -⟩ := index_sequence threeTexts hlength (-4)
  obtain ⟨-, hinfinite, -, -⟩ := index_sequence threeTexts hlength (1 / 0)
  obtain ⟨-, hsecond, -⟩ := hback (-5 * 2 ^ 1073) (-2) (by decide +kernel) (by decide +kernel)
  obtain ⟨-, -, hnone⟩ := hout (-4 * 2 ^ 1074) (-4) (by decide +kernel) (by decide +kernel)
  obtain ⟨item, hitem, hindex⟩ := hsecond (by decide) (by decide)
  obtain rfl : Value.text "b" = item := Option.some.inj hitem
  exact ⟨hlength, hindex, hfirst _ _ rfl (by decide +kernel) (by decide +kernel),
    hnone (Or.inl (by decide)), hinfinite (by decide +kernel)⟩

end Value

end TreeScript
