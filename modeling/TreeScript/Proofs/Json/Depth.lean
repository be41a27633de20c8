import TreeScript.Proofs.Json.Number
import TreeScript.Proofs.Json.Text

/-!
# Values that can be written and read

A value can be read back if its numbers are numbers of the format, `Legible`, and its arrays and
objects do not nest too deep.  `limited` is the answer where only so much depth is allowed: it is
closed under reading one thing after another, the deepest of which decides.

Every legible value that is neither an array nor an object is read back by one step,
`readLeaf_write`, and so the first character tells what kind of value follows.
-/

namespace TreeScript.Json

/-! ## 1. Depth -/

mutual

/-- How many arrays and objects are open inside one another in a value. -/
def depth : Json → Nat
  | .array items => depthItems items + 1
  | .object members => depthMembers members + 1
  | _ => 0

/-- How deep the items of an array nest. -/
def depthItems : List Json → Nat
  | [] => 0
  | item :: rest => max item.depth (depthItems rest)

/-- How deep the members of an object nest. -/
def depthMembers : List (String × Json) → Nat
  | [] => 0
  | (_, value) :: rest => max value.depth (depthMembers rest)

end

section Limited

variable {ε α β : Type} (refuse : JsonError → ε)

/-- What is given back for a value of some depth where only so much depth is allowed. -/
def limited (depth limit : Nat) (a : α) : Except ε α :=
  if depth ≤ limit then .ok a else .error (refuse .tooDeep)

theorem limited_zero (limit : Nat) (a : α) : limited refuse 0 limit a = .ok a :=
  if_pos (Nat.zero_le limit)

theorem limited_succ_zero (depth : Nat) (a : α) :
    limited refuse (depth + 1) 0 a = .error (refuse .tooDeep) :=
  if_neg (Nat.not_succ_le_zero depth)

theorem limited_succ (depth limit : Nat) (a : α) :
    limited refuse (depth + 1) (limit + 1) a = limited refuse depth limit a := by
  unfold limited
  simp only [Nat.add_le_add_iff_right]

/-- Of two values one after the other, the deeper one decides. -/
theorem limited_bind {m n limit : Nat} {a : α} {b : β} {f : α → Except ε β}
    (h : f a = limited refuse n limit b) :
    limited refuse m limit a >>= f = limited refuse (max m n) limit b := by
  unfold limited at *
  by_cases hm : m ≤ limit
  · rw [if_pos hm]
    refine h.trans ?_
    simp only [Nat.max_le, hm, true_and]
  · rw [if_neg hm, if_neg fun hmax => hm (Nat.le_trans (Nat.le_max_left m n) hmax)]
    rfl

/-- What follows and succeeds does not change the depth. -/
theorem limited_then {depth limit : Nat} {a : α} {b : β} {f : α → Except ε β} (h : f a = .ok b) :
    limited refuse depth limit a >>= f = limited refuse depth limit b := by
  unfold limited
  split
  · exact h
  · rfl

end Limited

/-! ## 2. Numbers of the format -/

mutual

/-- Whether the numbers in a value are numbers of the format: integers of 64 bits and finite
doubles. -/
def Legible : Json → Prop
  | .integer value => -(Nat.pow 2 63 : Nat) ≤ value ∧ value < UInt64.size
  | .double value => ∃ negative m p, Binary64.ofFloat value = .finite negative m p
  | .array items => LegibleItems items
  | .object members => LegibleMembers members
  | _ => True

/-- Whether the numbers in the items of an array are. -/
def LegibleItems : List Json → Prop
  | [] => True
  | item :: rest => item.Legible ∧ LegibleItems rest

/-- Whether the numbers in the members of an object are. -/
def LegibleMembers : List (String × Json) → Prop
  | [] => True
  | (_, value) :: rest => value.Legible ∧ LegibleMembers rest

end

/-! ## 3. What stands after a value -/

/-- The text of an array after one of its items. -/
def writeMoreItems : List Json → List Char
  | [] => [']']
  | item :: rest => ',' :: (item.write ++ writeMoreItems rest)

/-- The text of an object after one of its members. -/
def writeMoreMembers : List (String × Json) → List Char
  | [] => ['\x7d']
  | (name, value) :: rest =>
    ',' :: (writeText name ++ ':' :: (value.write ++ writeMoreMembers rest))

theorem writeItems_cons (item : Json) : ∀ rest : List Json,
    writeItems (item :: rest) = item.write ++ writeMoreItems rest
  | [] => by simp only [writeItems, writeMoreItems]
  | next :: rest => by
    rw [writeItems, writeItems_cons next rest, writeMoreItems]
    intro h
    cases h

theorem writeMembers_cons (name : String) (value : Json) : ∀ rest : List (String × Json),
    writeMembers ((name, value) :: rest) =
      writeText name ++ ':' :: (value.write ++ writeMoreMembers rest)
  | [] => by simp only [writeMembers, writeMoreMembers]
  | (name', value') :: rest => by
    rw [writeMembers, writeMembers_cons name' value' rest, writeMoreMembers]
    intro h
    cases h

/-- The loop over the items has a turn for each of them, and one for the end. -/
theorem length_writeMoreItems (rest : List Char) : ∀ items : List Json,
    items.length < (writeMoreItems items ++ rest).length
  | [] => by simp [writeMoreItems]
  | item :: items => by
    have h := length_writeMoreItems rest items
    simp only [writeMoreItems, List.length_cons, List.length_append] at h ⊢
    omega

theorem length_writeMoreMembers (rest : List Char) : ∀ members : List (String × Json),
    members.length < (writeMoreMembers members ++ rest).length
  | [] => by simp [writeMoreMembers]
  | (name, value) :: members => by
    have h := length_writeMoreMembers rest members
    simp only [writeMoreMembers, List.length_cons, List.length_append] at h ⊢
    omega

theorem separated_nil : Separated [] := fun _ h => by cases h

theorem separated_writeMoreItems (items : List Json) (rest : List Char) :
    Separated (writeMoreItems items ++ rest) := by
  intro c hc
  cases items <;> cases hc <;> decide

theorem separated_writeMoreMembers (members : List (String × Json)) (rest : List Char) :
    Separated (writeMoreMembers members ++ rest) := by
  intro c hc
  cases members <;> cases hc <;> decide

/-! ## 4. The first character -/

theorem dropSpace_cons {c : Char} (h : isSpace c = false) (cs : List Char) :
    dropSpace (c :: cs) = c :: cs := by
  unfold dropSpace
  rw [List.dropWhile_cons, h]
  rfl

/-- What the text of a value may begin with, as far as an array looks at it. -/
def IsFirst (c : Char) : Prop := isSpace c = false ∧ c ≠ ']'

theorem exists_of_readLeaf {cs : List Char} {r : Json × List Char} (h : readLeaf cs = .ok r) :
    ∃ c tail, cs = c :: tail ∧ IsFirst c ∧ c ≠ '[' ∧ c ≠ '\x7b' := by
  cases cs with
  | nil => cases h
  | cons c tail =>
    refine ⟨c, tail, rfl, ⟨?_, ?_⟩, ?_, ?_⟩
    · by_contra hspace
      unfold isSpace at hspace
      simp only [Bool.not_eq_false, Bool.or_eq_true, decide_eq_true_eq] at hspace
      rcases hspace with ((rfl | rfl) | rfl) | rfl <;> cases h
    · rintro rfl
      cases h
    · rintro rfl
      cases h
    · rintro rfl
      cases h

/-- What is read as a leaf is read as a value at any depth. -/
theorem readValue_of_readLeaf {cs : List Char} {r : Json × List Char} (h : readLeaf cs = .ok r)
    (limit : Nat) : readValue limit cs = .ok r := by
  obtain ⟨c, tail, rfl, ⟨hspace, -⟩, harray, hobject⟩ := exists_of_readLeaf h
  cases limit with
  | zero =>
    unfold readValue
    rw [dropSpace_cons hspace]
    split
    · rename_i heq
      exact absurd (List.cons.inj heq).1 harray
    · rename_i heq
      exact absurd (List.cons.inj heq).1 hobject
    · exact h
  | succ limit =>
    unfold readValue
    rw [dropSpace_cons hspace]
    split
    · rename_i heq
      exact absurd (List.cons.inj heq).1 harray
    · rename_i heq
      exact absurd (List.cons.inj heq).1 hobject
    · exact h

/-! ## 5. Leaves -/

/-- Whether a value is neither an array nor an object. -/
def IsLeaf : Json → Prop
  | .array _ => False
  | .object _ => False
  | _ => True

theorem depth_of_isLeaf {j : Json} (hleaf : j.IsLeaf) : j.depth = 0 := by
  cases j with
  | array items => exact hleaf.elim
  | object members => exact hleaf.elim
  | _ => rfl

/-- **A leaf is read as it was written.** -/
theorem readLeaf_write {j : Json} (hleaf : j.IsLeaf) (hj : j.Legible) {rest : List Char}
    (hrest : Separated rest) : readLeaf (j.write ++ rest) = .ok (j, rest) := by
  cases j with
  | null =>
    simp only [write]
    rfl
  | boolean value =>
    cases value with
    | true =>
      simp only [write]
      rfl
    | false =>
      simp only [write]
      rfl
  | integer value =>
    simp only [write]
    exact readLeaf_writeInteger hj.1 hj.2 hrest
  | double value =>
    obtain ⟨negative, m, p, h⟩ := hj
    simp only [write]
    exact readLeaf_write_double h hrest
  | text value =>
    have hread := readString_write value rest
    simp only [write, writeText, List.cons_append, List.append_assoc, List.nil_append, readLeaf,
      if_pos, hread]
    rfl
  | array items => exact hleaf.elim
  | object members => exact hleaf.elim

/-- The text of a value begins with a value's first character. -/
theorem exists_write {j : Json} (hj : j.Legible) {rest : List Char} (hrest : Separated rest) :
    ∃ c tail, j.write ++ rest = c :: tail ∧ IsFirst c := by
  have hleaf : j.IsLeaf → ∃ c tail, j.write ++ rest = c :: tail ∧ IsFirst c := by
    intro hleaf
    obtain ⟨c, tail, hcs, hfirst, -, -⟩ := exists_of_readLeaf (readLeaf_write hleaf hj hrest)
    exact ⟨c, tail, hcs, hfirst⟩
  cases j with
  | array items =>
    refine ⟨'[', writeItems items ++ rest, ?_, rfl, by decide⟩
    simp only [write, List.cons_append]
  | object members =>
    refine ⟨'\x7b', writeMembers members ++ rest, ?_, rfl, by decide⟩
    simp only [write, List.cons_append]
  | _ => exact hleaf trivial

end TreeScript.Json
