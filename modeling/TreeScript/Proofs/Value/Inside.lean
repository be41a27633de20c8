import TreeScript.Proofs.Entries
import TreeScript.Value.Basic

/-!
# What lies inside a value

A sequence holds its items, a mapping the values of its entries, and these may hold values again.
`v.Inside w` says that `v` is `w` itself or lies in it at some depth.  Two properties of a value are
about everything inside it: that its mappings have distinct keys (`WellKeyed`), and that one of its
numbers is NaN (`HoldsNaN`).  For each of them there is one rule per kind of values.
-/

namespace TreeScript.Value

/-- **Induction on values**: what a sequence has if its items have it, and a mapping if the values of
its entries have it. -/
@[elab_as_elim]
theorem nested_induction {motive : Value → Prop} (number : ∀ x, motive (.number x))
    (text : ∀ s, motive (.text s)) (boolean : ∀ b, motive (.boolean b))
    (sequence : ∀ items, (∀ v ∈ items, motive v) → motive (.sequence items))
    (mapping : ∀ entries, (∀ entry ∈ entries, motive entry.2) → motive (.mapping entries))
    (absence : motive .absence) (v : Value) : motive v := by
  refine Value.rec (motive_1 := motive) (motive_2 := fun items => ∀ v ∈ items, motive v)
    (motive_3 := fun entries => ∀ entry ∈ entries, motive entry.2)
    (motive_4 := fun entry => motive entry.2) number text boolean sequence mapping absence
    ?_ ?_ ?_ ?_ ?_ v
  · exact fun v hv => absurd hv List.not_mem_nil
  · exact fun v items hv hitems => List.forall_mem_cons.mpr ⟨hv, hitems⟩
  · exact fun entry hentry => absurd hentry List.not_mem_nil
  · exact fun entry entries hentry hentries => List.forall_mem_cons.mpr ⟨hentry, hentries⟩
  · exact fun key v hv => hv

/-! ## 1. Inside -/

/-- The first value is the second one or lies in it, at any depth. -/
inductive Inside (v : Value) : Value → Prop where
  | self : Inside v v
  | item {w : Value} {items : List Value} (h : Inside v w) (hw : w ∈ items) :
    Inside v (.sequence items)
  | entry {entry : String × Value} {entries : List (String × Value)} (h : Inside v entry.2)
    (hentry : entry ∈ entries) : Inside v (.mapping entries)

/-- **All mappings inside a value have distinct keys.** -/
def WellKeyed (w : Value) : Prop :=
  ∀ entries, (Value.mapping entries).Inside w → Entries.Distinct entries

/-- One of the numbers inside a value is NaN. -/
def HoldsNaN (w : Value) : Prop := ∃ x : Float, x.isNaN = true ∧ (Value.number x).Inside w

/-- Whether a value has no values inside it but itself. -/
def isAtom : Value → Bool
  | .sequence _ => false
  | .mapping _ => false
  | _ => true

theorem inside_atom {v w : Value} (h : w.isAtom = true) : v.Inside w ↔ v = w := by
  constructor
  · intro hv
    cases hv with
    | self => rfl
    | item _ _ => cases h
    | entry _ _ => cases h
  · rintro rfl
    exact .self

theorem inside_sequence {v : Value} {items : List Value} :
    v.Inside (.sequence items) ↔ v = .sequence items ∨ ∃ w ∈ items, v.Inside w := by
  constructor
  · intro hv
    cases hv with
    | self => exact Or.inl rfl
    | item h hw => exact Or.inr ⟨_, hw, h⟩
  · rintro (rfl | ⟨w, hw, h⟩)
    · exact .self
    · exact .item h hw

theorem inside_mapping {v : Value} {entries : List (String × Value)} :
    v.Inside (.mapping entries) ↔ v = .mapping entries ∨ ∃ entry ∈ entries, v.Inside entry.2 := by
  constructor
  · intro hv
    cases hv with
    | self => exact Or.inl rfl
    | entry h hentry => exact Or.inr ⟨_, hentry, h⟩
  · rintro (rfl | ⟨entry, hentry, h⟩)
    · exact .self
    · exact .entry h hentry

/-! ## 2. Distinct keys -/

theorem wellKeyed_atom {w : Value} (h : w.isAtom = true) : w.WellKeyed := by
  intro entries hinside
  rw [inside_atom h] at hinside
  subst hinside
  cases h

theorem wellKeyed_sequence {items : List Value} :
    (Value.sequence items).WellKeyed ↔ ∀ v ∈ items, v.WellKeyed := by
  constructor
  · intro h v hv entries hinside
    exact h entries (.item hinside hv)
  · intro h entries hinside
    rw [inside_sequence] at hinside
    rcases hinside with heq | ⟨v, hv, hinside⟩
    · cases heq
    · exact h v hv entries hinside

theorem wellKeyed_mapping {entries : List (String × Value)} :
    (Value.mapping entries).WellKeyed ↔
      Entries.Distinct entries ∧ ∀ entry ∈ entries, entry.2.WellKeyed := by
  constructor
  · intro h
    exact ⟨h entries .self, fun entry hentry es hinside => h es (.entry hinside hentry)⟩
  · rintro ⟨hdistinct, h⟩ es hinside
    rw [inside_mapping] at hinside
    rcases hinside with heq | ⟨entry, hentry, hinside⟩
    · cases heq
      exact hdistinct
    · exact h entry hentry es hinside

/-! ## 3. NaN -/

theorem holdsNaN_number {x : Float} : (Value.number x).HoldsNaN ↔ x.isNaN = true := by
  constructor
  · rintro ⟨y, hy, hinside⟩
    rw [inside_atom rfl] at hinside
    cases hinside
    exact hy
  · intro hx
    exact ⟨x, hx, .self⟩

/-- A value that is neither a number nor holds others holds no NaN. -/
theorem not_holdsNaN_atom {w : Value} (h : w.isAtom = true) (hnumber : w.number? = none) :
    ¬ w.HoldsNaN := by
  rintro ⟨y, -, hinside⟩
  rw [inside_atom h] at hinside
  subst hinside
  cases hnumber

theorem holdsNaN_sequence {items : List Value} :
    (Value.sequence items).HoldsNaN ↔ ∃ v ∈ items, v.HoldsNaN := by
  constructor
  · rintro ⟨x, hx, hinside⟩
    rw [inside_sequence] at hinside
    rcases hinside with heq | ⟨v, hv, hinside⟩
    · cases heq
    · exact ⟨v, hv, x, hx, hinside⟩
  · rintro ⟨v, hv, x, hx, hinside⟩
    exact ⟨x, hx, .item hinside hv⟩

theorem holdsNaN_mapping {entries : List (String × Value)} :
    (Value.mapping entries).HoldsNaN ↔ ∃ entry ∈ entries, entry.2.HoldsNaN := by
  constructor
  · rintro ⟨x, hx, hinside⟩
    rw [inside_mapping] at hinside
    rcases hinside with heq | ⟨entry, hentry, hinside⟩
    · cases heq
    · exact ⟨entry, hentry, x, hx, hinside⟩
  · rintro ⟨entry, hentry, x, hx, hinside⟩
    exact ⟨x, hx, .entry hinside hentry⟩

end TreeScript.Value
