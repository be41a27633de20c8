import Mathlib.Data.List.Forall2
import TreeScript.Proofs.Binary64.Unpacked
import TreeScript.Proofs.Value.Inside

/-!
# The equality of values

`Value.same` compares two mappings from one side: they have the same length, and every entry of the
first is found in the second.  `Value.Equal` says what that should mean, and says it of both sides
alike: the same keys, bound to equal values.  For values whose mappings have distinct keys the two
are the same thing (`same_iff_equal`), since as many distinct keys that are all among the others are
the others.  So the equality of the language is symmetric and transitive; what it lacks to be an
equivalence is NaN alone, which is not equal to itself.
-/

namespace TreeScript.Value

/-! ## 1. Equal values -/

/-- **Values that are equal**: numbers that are equal as numbers, the same text or truth value, two
absences, sequences of the same length with equal items at every position, and mappings that bind
the same keys to equal values, in whatever order. -/
inductive Equal : Value → Value → Prop where
  | number {x y : Float} (h : (Binary64.ofFloat x).Equal (Binary64.ofFloat y)) :
    Equal (.number x) (.number y)
  | text (s : String) : Equal (.text s) (.text s)
  | boolean (b : Bool) : Equal (.boolean b) (.boolean b)
  | sequence {items others : List Value} (length : items.length = others.length)
    (equal : ∀ (i : Nat) (v w : Value), items[i]? = some v → others[i]? = some w → Equal v w) :
    Equal (.sequence items) (.sequence others)
  | mapping {entries others : List (String × Value)}
    (keys : ∀ key, key ∈ Entries.keys entries ↔ key ∈ Entries.keys others)
    (equal : ∀ (key : String) (v w : Value), Entries.get? entries key = some v →
      Entries.get? others key = some w → Equal v w) :
    Equal (.mapping entries) (.mapping others)
  | absence : Equal .absence .absence

namespace Equal

variable {a b c : Value}

theorem symm (h : a.Equal b) : b.Equal a := by
  induction h with
  | number h => exact .number h.symm
  | text s => exact .text s
  | boolean b => exact .boolean b
  | sequence length _ ih => exact .sequence length.symm fun i v w hv hw => ih i w v hw hv
  | mapping keys _ ih =>
    exact .mapping (fun key => (keys key).symm) fun key v w hv hw => ih key w v hw hv
  | absence => exact .absence

theorem trans (h : a.Equal b) (h' : b.Equal c) : a.Equal c := by
  induction h generalizing c with
  | number h =>
    cases h' with
    | number h' => exact .number (h.trans h')
  | text s => exact h'
  | boolean b => exact h'
  | @sequence items others length _ ih =>
    cases h' with
    | @sequence _ lasts length' equal' =>
      refine .sequence (length.trans length') fun i v w hv hw => ?_
      -- what stands between the two at this position
      obtain ⟨hi, -⟩ := List.getElem?_eq_some_iff.mp hv
      have hu : others[i]? = some others[i] := List.getElem?_eq_getElem (length ▸ hi)
      exact ih i v _ hv hu (equal' i _ w hu hw)
  | @mapping entries others keys _ ih =>
    cases h' with
    | @mapping _ lasts keys' equal' =>
      refine .mapping (fun key => (keys key).trans (keys' key)) fun key v w hv hw => ?_
      obtain ⟨u, hu⟩ : ∃ u, Entries.get? others key = some u := by
        rw [← Entries.mem_keys_iff_exists, ← keys, Entries.mem_keys_iff_exists]
        exact ⟨v, hv⟩
      exact ih key v u hv hu (equal' key u w hu hw)
  | absence => exact h'

end Equal

theorem equal_atom {a b : Value} (h : a.isAtom = true) (hnumber : a.number? = none) :
    a.Equal b ↔ a = b := by
  constructor
  · intro hequal
    cases hequal with
    | number _ => cases hnumber
    | sequence _ _ => cases h
    | mapping _ _ => cases h
    | _ => rfl
  · rintro rfl
    cases a with
    | number x => cases hnumber
    | text s => exact .text s
    | boolean p => exact .boolean p
    | sequence items => cases h
    | mapping entries => cases h
    | absence => exact .absence

/-- **A value is equal to itself unless it holds NaN.** -/
theorem equal_self_iff {a : Value} (ha : a.WellKeyed) : a.Equal a ↔ ¬ a.HoldsNaN := by
  induction a using nested_induction with
  | number x =>
    rw [holdsNaN_number, Binary64.isNaN_iff, ← ne_eq, ← Binary64.equal_self_iff]
    constructor
    · intro h
      cases h with
      | number h => exact h
    · exact .number
  | text s => exact iff_of_true (.text s) (not_holdsNaN_atom rfl rfl)
  | boolean p => exact iff_of_true (.boolean p) (not_holdsNaN_atom rfl rfl)
  | sequence items ih =>
    rw [wellKeyed_sequence] at ha
    rw [holdsNaN_sequence]
    constructor
    · rintro (_ | _ | _ | ⟨-, equal⟩) ⟨v, hv, hnan⟩
      obtain ⟨i, hi⟩ := List.getElem?_of_mem hv
      exact (ih v hv (ha v hv)).mp (equal i v v hi hi) hnan
    · intro hnan
      refine .sequence rfl fun i v w hv hw => ?_
      obtain rfl : v = w := Option.some.inj (hv.symm.trans hw)
      have hmem : v ∈ items := List.mem_of_getElem? hv
      exact (ih v hmem (ha v hmem)).mpr fun h => hnan ⟨v, hmem, h⟩
  | mapping entries ih =>
    rw [wellKeyed_mapping] at ha
    rw [holdsNaN_mapping]
    constructor
    · rintro (_ | _ | _ | _ | ⟨-, equal⟩) ⟨entry, hentry, hnan⟩
      have hget := Entries.get?_of_mem ha.1 hentry
      exact (ih entry hentry (ha.2 entry hentry)).mp (equal _ _ _ hget hget) hnan
    · intro hnan
      refine .mapping (fun _ => Iff.rfl) fun key v w hv hw => ?_
      obtain rfl : v = w := Option.some.inj (hv.symm.trans hw)
      have hmem := Entries.mem_of_get?_eq_some hv
      exact (ih _ hmem (ha.2 _ hmem)).mpr fun h => hnan ⟨_, hmem, h⟩
  | absence => exact iff_of_true .absence (not_holdsNaN_atom rfl rfl)

/-! ## 2. What is compared -/

theorem sameItems_iff : ∀ items others : List Value,
    sameItems items others = true ↔ List.Forall₂ (fun v w => v.same w = true) items others
  | [], [] => by simp [sameItems]
  | [], w :: others => by simp [sameItems]
  | v :: items, [] => by simp [sameItems]
  | v :: items, w :: others => by simp [sameItems, sameItems_iff items others]

theorem sameEntries_iff (others : List (String × Value)) : ∀ entries : List (String × Value),
    sameEntries entries others = true ↔ ∀ entry ∈ entries,
      ∃ w, Entries.get? others entry.1 = some w ∧ w.same entry.2 = true
  | [] => by simp [sameEntries]
  | (key, v) :: entries => by
    rw [sameEntries, Bool.and_eq_true, sameEntries_iff others entries, List.forall_mem_cons]
    refine and_congr_left fun _ => ?_
    split
    · rename_i w hw
      simp [hw]
    · rename_i hnone
      simp [hnone]

/-- Numbers are compared as numbers. -/
theorem same_number_iff {x y : Float} :
    (Value.number x).same (.number y) = true ↔
      (Binary64.ofFloat x).Equal (Binary64.ofFloat y) := by
  rw [same, Binary64.beq_iff]

/-- Values that hold no others, and no numbers, are the same if they are identical. -/
theorem same_atom {a b : Value} (h : a.isAtom = true) (hnumber : a.number? = none) :
    a.same b = true ↔ a = b := by
  cases a with
  | number x => cases hnumber
  | text s => cases b <;> simp [same]
  | boolean p => cases b <;> simp [same]
  | sequence items => cases h
  | mapping entries => cases h
  | absence => cases b <;> simp [same]

/-- Sequences are compared position by position. -/
theorem same_sequence_iff {items others : List Value} :
    (Value.sequence items).same (.sequence others) = true ↔
      items.length = others.length ∧ ∀ (i : Nat) (v w : Value),
        items[i]? = some v → others[i]? = some w → v.same w = true := by
  rw [same, sameItems_iff, List.forall₂_iff_get]
  refine and_congr_right fun _ => ⟨fun h i v w hv hw => ?_, fun h i hi hi' => ?_⟩
  · obtain ⟨hi, rfl⟩ := List.getElem?_eq_some_iff.mp hv
    obtain ⟨hi', rfl⟩ := List.getElem?_eq_some_iff.mp hw
    exact h i hi hi'
  · exact h i _ _ (List.getElem?_eq_getElem hi) (List.getElem?_eq_getElem hi')

/-- **The one-sided comparison of mappings is one of both sides**, if their keys are distinct. -/
theorem same_mapping_iff {entries others : List (String × Value)} (h : Entries.Distinct entries)
    (h' : Entries.Distinct others) :
    (Value.mapping entries).same (.mapping others) = true ↔
      (∀ key, key ∈ Entries.keys entries ↔ key ∈ Entries.keys others) ∧
        ∀ (key : String) (v w : Value), Entries.get? entries key = some v →
          Entries.get? others key = some w → w.same v = true := by
  rw [same, Bool.and_eq_true, beq_iff_eq, sameEntries_iff]
  constructor
  · rintro ⟨hlength, hfound⟩
    have hsubset : Entries.keys entries ⊆ Entries.keys others := by
      intro key hkey
      obtain ⟨v, hv⟩ := Entries.mem_keys_iff_exists.mp hkey
      obtain ⟨w, hw, -⟩ := hfound _ (Entries.mem_of_get?_eq_some hv)
      exact Entries.mem_keys_iff_exists.mpr ⟨w, hw⟩
    refine ⟨Entries.mem_keys_iff_of_length_le h hsubset hlength.ge, fun key v w hv hw => ?_⟩
    obtain ⟨u, hu, hsame⟩ := hfound _ (Entries.mem_of_get?_eq_some hv)
    obtain rfl : u = w := Option.some.inj (hu.symm.trans hw)
    exact hsame
  · rintro ⟨hkeys, hequal⟩
    refine ⟨Entries.length_eq_of_mem_keys_iff h h' hkeys, fun entry hentry => ?_⟩
    obtain ⟨w, hw⟩ :=
      Entries.mem_keys_iff_exists.mp ((hkeys _).mp (Entries.mem_keys_of_mem hentry))
    exact ⟨w, hw, hequal _ _ _ (Entries.get?_of_mem h hentry) hw⟩

/-! ## 3. The equality of the language -/

/-- **The equality of the language is the equality of values.**  The induction is on the size of both,
because the values in mappings are compared the other way round than the mappings. -/
theorem same_iff_equal {a b : Value} (ha : a.WellKeyed) (hb : b.WellKeyed) :
    a.same b = true ↔ a.Equal b := by
  induction hsize : sizeOf a + sizeOf b using Nat.strong_induction_on generalizing a b with
  | _ size ih =>
  cases a with
  | number x =>
    constructor
    · intro h
      cases b with
      | number y => exact .number (same_number_iff.mp h)
      | _ => simp [same] at h
    · rintro ⟨h⟩
      exact same_number_iff.mpr h
  | text s => rw [same_atom rfl rfl, equal_atom rfl rfl]
  | boolean p => rw [same_atom rfl rfl, equal_atom rfl rfl]
  | sequence items =>
    rw [wellKeyed_sequence] at ha
    cases b with
    | sequence others =>
      rw [wellKeyed_sequence] at hb
      have hitem : ∀ {i : Nat} {v w : Value}, items[i]? = some v → others[i]? = some w →
          (v.same w = true ↔ v.Equal w) := by
        intro i v w hv hw
        have hmem := List.mem_of_getElem? hv
        have hmem' := List.mem_of_getElem? hw
        have hlt := List.sizeOf_lt_of_mem hmem
        have hlt' := List.sizeOf_lt_of_mem hmem'
        rw [sequence.sizeOf_spec, sequence.sizeOf_spec] at hsize
        exact ih _ (by omega) (ha v hmem) (hb w hmem') rfl
      rw [same_sequence_iff]
      constructor
      · rintro ⟨hlength, hsame⟩
        exact .sequence hlength fun i v w hv hw => (hitem hv hw).mp (hsame i v w hv hw)
      · rintro (_ | _ | _ | ⟨hlength, hequal⟩)
        exact ⟨hlength, fun i v w hv hw => (hitem hv hw).mpr (hequal i v w hv hw)⟩
    | _ => exact iff_of_false (by simp [same]) (by rintro ⟨⟩)
  | mapping entries =>
    rw [wellKeyed_mapping] at ha
    cases b with
    | mapping others =>
      rw [wellKeyed_mapping] at hb
      have hentry : ∀ {key : String} {v w : Value}, Entries.get? entries key = some v →
          Entries.get? others key = some w → (w.same v = true ↔ v.Equal w) := by
        intro key v w hv hw
        have hlt := Entries.sizeOf_lt_of_get? hv
        have hlt' := Entries.sizeOf_lt_of_get? hw
        rw [mapping.sizeOf_spec, mapping.sizeOf_spec] at hsize
        have hswapped : w.same v = true ↔ w.Equal v :=
          ih _ (by omega) (hb.2 _ (Entries.mem_of_get?_eq_some hw))
            (ha.2 _ (Entries.mem_of_get?_eq_some hv)) rfl
        exact hswapped.trans ⟨Equal.symm, Equal.symm⟩
      rw [same_mapping_iff ha.1 hb.1]
      constructor
      · rintro ⟨hkeys, hsame⟩
        exact .mapping hkeys fun key v w hv hw => (hentry hv hw).mp (hsame key v w hv hw)
      · rintro (_ | _ | _ | _ | ⟨hkeys, hequal⟩)
        exact ⟨hkeys, fun key v w hv hw => (hentry hv hw).mpr (hequal key v w hv hw)⟩
    | _ => exact iff_of_false (by simp [same]) (by rintro ⟨⟩)
  | absence => rw [same_atom rfl rfl, equal_atom rfl rfl]

/-- **The equality of the language is a partial equivalence.**  On values whose mappings have
distinct keys it is symmetric and transitive, a value is the same as itself unless NaN is somewhere
inside it, and it holds of equal values and of no others. -/
theorem same_partial_equivalence {a b c : Value} (ha : a.WellKeyed) (hb : b.WellKeyed)
    (hc : c.WellKeyed) :
    (a.same b = true ↔ b.same a = true) ∧
    (a.same b = true → b.same c = true → a.same c = true) ∧
    (a.same a = true ↔ ¬ a.HoldsNaN) ∧
    (a.same b = true ↔ a.Equal b) := by
  rw [same_iff_equal ha hb, same_iff_equal hb ha, same_iff_equal hb hc, same_iff_equal ha hc,
    same_iff_equal ha ha]
  exact ⟨⟨Equal.symm, Equal.symm⟩, Equal.trans, equal_self_iff ha, Iff.rfl⟩

/-- A mapping that binds a number and a list, in this order or the other. -/
def numberAndList (x : Float) (isFlipped : Bool) : Value :=
  .mapping (if isFlipped then [("list", .sequence [.text "t"]), ("zero", .number x)]
    else [("zero", .number x), ("list", .sequence [.text "t"])])

theorem wellKeyed_numberAndList (x : Float) (isFlipped : Bool) :
    (numberAndList x isFlipped).WellKeyed := by
  have hnumber : (Value.number x).WellKeyed := wellKeyed_atom rfl
  have htext : (Value.text "t").WellKeyed := wellKeyed_atom rfl
  cases isFlipped <;>
    simp [numberAndList, wellKeyed_mapping, wellKeyed_sequence, Entries.Distinct, hnumber, htext]

/-- The two zeros, bound in mappings of different orders. -/
theorem same_partial_equivalence_zeros :
    (numberAndList 0 false).WellKeyed ∧ (numberAndList (-0) true).WellKeyed ∧
      (numberAndList 0 false).same (numberAndList (-0) true) = true ∧
      (numberAndList (-0) true).same (numberAndList 0 false) = true ∧
      (numberAndList 0 false).Equal (numberAndList (-0) true) ∧
      ¬ (numberAndList 0 false).HoldsNaN := by
  have h := wellKeyed_numberAndList 0 false
  have h' := wellKeyed_numberAndList (-0) true
  have hsame : (numberAndList 0 false).same (numberAndList (-0) true) = true := by decide +kernel
  obtain ⟨hsymm, htrans, hself, hequal⟩ := same_partial_equivalence h h' h
  have hback := hsymm.mp hsame
  exact ⟨h, h', hsame, hback, hequal.mp hsame, hself.mp (htrans hsame hback)⟩

end TreeScript.Value
