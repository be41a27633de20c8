import TreeScript.Proofs.Json.Canonical
import TreeScript.Proofs.Json.Reading

/-!
# What is read can be written

Every value that the reader gives back is legible and nests no deeper than it was allowed to,
`legible_of_readValue`: numbers that are too large are refused, and a double that was rounded is
finite.  Canonical form keeps both, and puts the names of every object into ascending order, so that
a payload is a value that a literal can hold: `isValue_canonical`.

The loops over items and members keep whatever holds of all items that are read, and of the state
after every member.
-/

namespace TreeScript.Json

/-! ## 1. Numbers -/

/-- What is read as a double is the nearest one, taken apart as every finite double is. -/
theorem isParts_of_toBinary64 {d : Decimal} {negative : Bool} {m p : Nat}
    (h : d.toBinary64 = .finite negative m p) : Binary64.IsParts m p := by
  unfold Decimal.toBinary64 at h
  split at h
  · cases h
    exact ⟨by decide, .inl rfl, by decide⟩
  · split at h
    · cases h
    · split at h
      · cases h
        exact ⟨by decide, .inl rfl, by decide⟩
      · exact (Binary64.eq_of_ofMagnitudeBits h).2.1

theorem legible_of_readDouble {d : Decimal} {cs rest : List Char} {j : Json}
    (h : readDouble d cs = .ok (j, rest)) : j.Legible ∧ j.IsLeaf := by
  unfold readDouble at h
  split at h
  · rename_i negative m p hparts
    cases h
    exact ⟨⟨negative, m, p, Binary64.ofFloat_toFloat (isParts_of_toBinary64 hparts)⟩, trivial⟩
  · cases h

theorem legible_of_readInteger {negative : Bool} {n : Nat} {cs rest : List Char} {j : Json}
    (h : readInteger negative n cs = .ok (j, rest)) : j.Legible ∧ j.IsLeaf := by
  unfold readInteger at h
  split at h
  · rename_i hrange
    cases h
    have hlt : n < UInt64.size := by simp_all
    exact ⟨⟨by omega, by exact_mod_cast hlt⟩, trivial⟩
  · split at h
    · rename_i hrange
      cases h
      have hle : n ≤ Nat.pow 2 63 := by simp_all
      refine ⟨⟨by omega, ?_⟩, trivial⟩
      have hsize : (0 : Int) < UInt64.size := by decide
      omega
    · exact legible_of_readDouble h

theorem legible_of_readFraction {negative : Bool} {whole cs rest : List Char} {j : Json}
    (h : readFraction negative whole cs = .ok (j, rest)) : j.Legible ∧ j.IsLeaf := by
  -- wherever the fraction and the power of ten end, one of the two readers of numbers is left
  unfold readFraction at h
  dsimp only at h
  repeat' split at h
  all_goals first
    | exact legible_of_readDouble h
    | exact legible_of_readInteger h
    | cases h

theorem legible_of_readUnsigned {negative : Bool} {cs rest : List Char} {j : Json}
    (h : readUnsigned negative cs = .ok (j, rest)) : j.Legible ∧ j.IsLeaf := by
  unfold readUnsigned at h
  dsimp only at h
  split at h
  · cases h
  · cases h
  · exact legible_of_readFraction h

theorem legible_of_readLeaf {cs rest : List Char} {j : Json} (h : readLeaf cs = .ok (j, rest)) :
    j.Legible ∧ j.IsLeaf := by
  cases cs with
  | nil => cases h
  | cons c tail =>
    -- a text, a numeral on either side of zero, or one of the three words
    rw [readLeaf] at h
    repeat' split at h
    all_goals first
      | exact legible_of_readUnsigned h
      | (obtain ⟨r, -, heq⟩ := map_eq_ok.mp h
         cases heq
         exact ⟨trivial, trivial⟩)
      | cases h

/-! ## 2. Arrays and objects -/

section Loops

variable {ε α σ : Type} (refuse : JsonError → ε) {read : Reader ε α}
  {step : σ → String → Reader ε σ} {P : α → Prop} {I : σ → Prop}

theorem forall_of_readMoreItems (hread : ∀ cs a rest, read cs = .ok (a, rest) → P a) :
    ∀ {turns cs rest : List Char} {as : List α},
      readMoreItems refuse read turns cs = .ok (as, rest) → ∀ a ∈ as, P a := by
  intro turns
  induction turns with
  | nil =>
    intro cs rest as h
    cases h
  | cons t turns ih =>
    intro cs rest as h
    rw [readMoreItems] at h
    split at h
    · cases h
    · cases h
      exact List.forall_mem_nil _
    · split at h
      · cases h
      · cases h
      · obtain ⟨⟨first, after⟩, hfirst, hthen⟩ := bind_eq_ok.mp h
        obtain ⟨⟨others, after'⟩, hothers, hend⟩ := bind_eq_ok.mp hthen
        cases hend
        exact List.forall_mem_cons.mpr ⟨hread _ _ _ hfirst, ih hothers⟩
    · cases h

/-- **What holds of every item that is read holds of all items of an array.** -/
theorem forall_of_readItems (hread : ∀ cs a rest, read cs = .ok (a, rest) → P a)
    {cs rest : List Char} {as : List α} (h : readItems refuse read cs = .ok (as, rest)) :
    ∀ a ∈ as, P a := by
  unfold readItems at h
  split at h
  · cases h
  · cases h
    exact List.forall_mem_nil _
  · obtain ⟨⟨first, after⟩, hfirst, hthen⟩ := bind_eq_ok.mp h
    obtain ⟨⟨others, after'⟩, hothers, hend⟩ := bind_eq_ok.mp hthen
    cases hend
    exact List.forall_mem_cons.mpr
      ⟨hread _ _ _ hfirst, forall_of_readMoreItems refuse hread hothers⟩

theorem keeps_of_readMember
    (hstep : ∀ s name cs s' rest, I s → step s name cs = .ok (s', rest) → I s') {s s' : σ}
    (hs : I s) {cs rest : List Char} (h : readMember refuse step s cs = .ok (s', rest)) : I s' := by
  unfold readMember at h
  split at h
  · cases h
  · exact hstep _ _ _ _ _ hs h

theorem keeps_of_readMoreMembers
    (hstep : ∀ s name cs s' rest, I s → step s name cs = .ok (s', rest) → I s') :
    ∀ {turns cs rest : List Char} {s s' : σ}, I s →
      readMoreMembers refuse step turns s cs = .ok (s', rest) → I s' := by
  intro turns
  induction turns with
  | nil =>
    intro cs rest s s' _ h
    cases h
  | cons t turns ih =>
    intro cs rest s s' hs h
    rw [readMoreMembers] at h
    split at h
    · cases h
    · cases h
      exact hs
    · split at h
      · cases h
      · cases h
      · obtain ⟨⟨s₁, after⟩, hmember, hothers⟩ := bind_eq_ok.mp h
        exact ih (keeps_of_readMember refuse hstep hs hmember) hothers
      · cases h
    · cases h

/-- **What every step keeps holds after all members of an object.** -/
theorem keeps_of_readMembers
    (hstep : ∀ s name cs s' rest, I s → step s name cs = .ok (s', rest) → I s') {s s' : σ}
    (hs : I s) {cs rest : List Char} (h : readMembers refuse step s cs = .ok (s', rest)) :
    I s' := by
  unfold readMembers at h
  split at h
  · cases h
  · cases h
    exact hs
  · obtain ⟨⟨s₁, after⟩, hmember, hothers⟩ := bind_eq_ok.mp h
    exact keeps_of_readMoreMembers refuse hstep (keeps_of_readMember refuse hstep hs hmember) hothers
  · cases h

end Loops

/-! ## 3. Values -/

/-- A legible value that nests no deeper than so much. -/
structure IsReadable (limit : Nat) (j : Json) : Prop where
  legible : j.Legible
  depth_le : j.depth ≤ limit

theorem legibleItems_iff {items : List Json} :
    LegibleItems items ↔ ∀ item ∈ items, item.Legible := by
  induction items with
  | nil => simp [LegibleItems]
  | cons item rest ih => rw [LegibleItems, ih, List.forall_mem_cons]

theorem legibleMembers_iff {members : List (String × Json)} :
    LegibleMembers members ↔ ∀ member ∈ members, member.2.Legible := by
  induction members with
  | nil => simp [LegibleMembers]
  | cons member rest ih => rw [LegibleMembers, ih, List.forall_mem_cons]

theorem depthItems_le_iff {limit : Nat} {items : List Json} :
    depthItems items ≤ limit ↔ ∀ item ∈ items, item.depth ≤ limit := by
  induction items with
  | nil => simp [depthItems]
  | cons item rest ih => rw [depthItems, Nat.max_le, ih, List.forall_mem_cons]

theorem depthMembers_le_iff {limit : Nat} {members : List (String × Json)} :
    depthMembers members ≤ limit ↔ ∀ member ∈ members, member.2.depth ≤ limit := by
  induction members with
  | nil => simp [depthMembers]
  | cons member rest ih => rw [depthMembers, Nat.max_le, ih, List.forall_mem_cons]

theorem isReadable_array {limit : Nat} {items : List Json}
    (h : ∀ item ∈ items, item.IsReadable limit) : (Json.array items).IsReadable (limit + 1) :=
  ⟨legibleItems_iff.mpr fun item hitem => (h item hitem).legible,
    Nat.succ_le_succ (depthItems_le_iff.mpr fun item hitem => (h item hitem).depth_le)⟩

theorem isReadable_object {limit : Nat} {members : List (String × Json)}
    (h : ∀ member ∈ members, member.2.IsReadable limit) :
    (Json.object members).IsReadable (limit + 1) :=
  ⟨legibleMembers_iff.mpr fun member hmember => (h member hmember).legible,
    Nat.succ_le_succ (depthMembers_le_iff.mpr fun member hmember => (h member hmember).depth_le)⟩

theorem isReadable_of_readLeaf (limit : Nat) {cs rest : List Char} {j : Json}
    (h : readLeaf cs = .ok (j, rest)) : j.IsReadable limit := by
  obtain ⟨hlegible, hleaf⟩ := legible_of_readLeaf h
  exact ⟨hlegible, by rw [depth_of_isLeaf hleaf]; exact Nat.zero_le limit⟩

/-- **Every value that is read is legible and nests no deeper than it may.** -/
theorem isReadable_of_readValue : ∀ {limit : Nat} {cs rest : List Char} {j : Json},
    readValue limit cs = .ok (j, rest) → j.IsReadable limit := by
  intro limit
  induction limit with
  | zero =>
    intro cs rest j h
    unfold readValue at h
    split at h
    · cases h
    · cases h
    · exact isReadable_of_readLeaf 0 h
  | succ limit ih =>
    intro cs rest j h
    unfold readValue at h
    split at h
    · obtain ⟨⟨items, after⟩, hitems, hend⟩ := bind_eq_ok.mp h
      cases hend
      exact isReadable_array (forall_of_readItems id (fun _ _ _ hread => ih hread) hitems)
    · obtain ⟨⟨members, after⟩, hmembers, hend⟩ := bind_eq_ok.mp h
      cases hend
      refine isReadable_object fun member hmember => ?_
      refine keeps_of_readMembers (I := fun acc => ∀ member ∈ acc, member.2.IsReadable limit) id
        (fun acc name cs acc' rest hacc hstep => ?_) (List.forall_mem_nil _) hmembers member
        (List.mem_reverse.mp hmember)
      obtain ⟨after, -, hthen⟩ := bind_eq_ok.mp hstep
      obtain ⟨⟨value, after'⟩, hvalue, hend⟩ := bind_eq_ok.mp hthen
      cases hend
      exact List.forall_mem_cons.mpr ⟨ih hvalue, hacc⟩
    · exact isReadable_of_readLeaf _ h

/-- A value that has a text is legible. -/
theorem SpelledBy.legible {j : Json} {cs : List Char} (h : SpelledBy j cs) : j.Legible := by
  have hread := readValue_spelled j.depth j (Nat.le_refl _) h separated_nil
  exact (isReadable_of_readValue hread).legible

/-! ## 4. Canonical form -/

theorem mem_place {name : String} {value : Json} {member : String × Json} :
    ∀ {members : List (String × Json)}, member ∈ place members name value →
      member = (name, value) ∨ member ∈ members
  | [], h => .inl (List.mem_singleton.mp h)
  | (n, v) :: rest, h => by
    rw [place] at h
    split at h
    · rcases List.mem_cons.mp h with rfl | h
      · exact .inl rfl
      · exact .inr (List.mem_cons_of_mem _ h)
    · split at h
      · exact List.mem_cons.mp h
      · rcases List.mem_cons.mp h with rfl | h
        · exact .inr List.mem_cons_self
        · exact (mem_place h).imp_right (List.mem_cons_of_mem _)

/-- A member goes to its place among members whose names ascend. -/
theorem pairwise_place (name : String) (value : Json) : ∀ {members : List (String × Json)},
    (members.map Prod.fst).Pairwise (· < ·) →
    ((place members name value).map Prod.fst).Pairwise (· < ·)
  | [], _ => List.pairwise_singleton _ _
  | (n, v) :: rest, h => by
    rw [List.map_cons, List.pairwise_cons] at h
    rw [place]
    split
    · rename_i heq
      subst heq
      exact List.pairwise_cons.mpr h
    · rename_i hne
      split
      · rename_i hlt
        refine List.pairwise_cons.mpr ⟨fun other hother => ?_, List.pairwise_cons.mpr h⟩
        rcases List.mem_cons.mp hother with rfl | hother
        · exact hlt
        · exact lt_trans hlt (h.1 other hother)
      · rename_i hge
        refine List.pairwise_cons.mpr ⟨fun other hother => ?_, pairwise_place name value h.2⟩
        obtain ⟨member, hmember, rfl⟩ := List.mem_map.mp hother
        rcases mem_place hmember with rfl | hmember
        · exact lt_of_le_of_ne (not_lt.mp hge) hne
        · exact h.1 _ (List.mem_map_of_mem hmember)

theorem mem_foldl_place {member : String × Json} : ∀ (members sorted : List (String × Json)),
    member ∈ members.foldl (fun sorted member => place sorted member.1 member.2) sorted →
    member ∈ members ∨ member ∈ sorted
  | [], _, h => .inr h
  | (name, value) :: rest, sorted, h => by
    rcases mem_foldl_place rest (place sorted name value) h with h | h
    · exact .inl (List.mem_cons_of_mem _ h)
    · rcases mem_place h with rfl | h
      · exact .inl List.mem_cons_self
      · exact .inr h

theorem mem_sortMembers {member : String × Json} {members : List (String × Json)}
    (h : member ∈ sortMembers members) : member ∈ members :=
  (mem_foldl_place members [] h).resolve_right List.not_mem_nil

theorem pairwise_foldl_place : ∀ (members : List (String × Json)) {sorted : List (String × Json)},
    (sorted.map Prod.fst).Pairwise (· < ·) →
    ((members.foldl (fun sorted member => place sorted member.1 member.2) sorted).map
      Prod.fst).Pairwise (· < ·)
  | [], _, h => h
  | (name, value) :: rest, _, h => pairwise_foldl_place rest (pairwise_place name value h)

/-- The members of an object are sorted by their names. -/
theorem pairwise_sortMembers (members : List (String × Json)) :
    ((sortMembers members).map Prod.fst).Pairwise (· < ·) :=
  pairwise_foldl_place members .nil

theorem orderedItems_iff {items : List Json} :
    OrderedItems items ↔ ∀ item ∈ items, item.Ordered := by
  induction items with
  | nil => simp [OrderedItems]
  | cons item rest ih => rw [OrderedItems, ih, List.forall_mem_cons]

theorem orderedMembers_iff {members : List (String × Json)} :
    OrderedMembers members ↔ ∀ member ∈ members, member.2.Ordered := by
  induction members with
  | nil => simp [OrderedMembers]
  | cons member rest ih => rw [OrderedMembers, ih, List.forall_mem_cons]

/-- A value that a literal can hold and that nests no deeper than so much. -/
structure IsHeld (limit : Nat) (v : Json) : Prop where
  isValue : v.IsValue
  depth_le : v.depth ≤ limit

theorem IsHeld.mono {limit limit' : Nat} {v : Json} (h : v.IsHeld limit) (hle : limit ≤ limit') :
    v.IsHeld limit' := ⟨h.isValue, Nat.le_trans h.depth_le hle⟩

theorem isHeld_array {limit : Nat} {items : List Json} (h : ∀ item ∈ items, item.IsHeld limit) :
    (Json.array items).IsHeld (limit + 1) := by
  refine ⟨⟨?_, ?_⟩, ?_⟩
  · exact legibleItems_iff.mpr fun item hitem => (h item hitem).isValue.legible
  · exact orderedItems_iff.mpr fun item hitem => (h item hitem).isValue.ordered
  · exact Nat.succ_le_succ (depthItems_le_iff.mpr fun item hitem => (h item hitem).depth_le)

theorem isHeld_object {limit : Nat} {members : List (String × Json)}
    (h : ∀ member ∈ members, member.2.IsHeld limit) :
    (Json.object (sortMembers members)).IsHeld (limit + 1) := by
  have hsorted : ∀ member ∈ sortMembers members, member.2.IsHeld limit :=
    fun member hmember => h member (mem_sortMembers hmember)
  refine ⟨⟨?_, pairwise_sortMembers members, ?_⟩, ?_⟩
  · exact legibleMembers_iff.mpr fun member hmember => (hsorted member hmember).isValue.legible
  · exact orderedMembers_iff.mpr fun member hmember => (hsorted member hmember).isValue.ordered
  · exact Nat.succ_le_succ
      (depthMembers_le_iff.mpr fun member hmember => (hsorted member hmember).depth_le)

mutual

/-- **In canonical form a value is one that a literal can hold**, and nests no deeper. -/
theorem isHeld_canonical : ∀ v : Json, v.Legible → v.canonical.IsHeld v.depth
  | .array items, h => by
    rw [canonical, depth]
    exact isHeld_array (isHeld_canonicalItems items h)
  | .object members, h => by
    rw [canonical, depth]
    exact isHeld_object (isHeld_canonicalMembers members h)
  | .null, _ => by simpa [canonical] using ⟨⟨trivial, trivial⟩, Nat.le_refl _⟩
  | .boolean _, _ => by simpa [canonical] using ⟨⟨trivial, trivial⟩, Nat.le_refl _⟩
  | .integer _, h => by simpa [canonical] using ⟨⟨h, trivial⟩, Nat.le_refl _⟩
  | .double _, h => by simpa [canonical] using ⟨⟨h, trivial⟩, Nat.le_refl _⟩
  | .text _, _ => by simpa [canonical] using ⟨⟨trivial, trivial⟩, Nat.le_refl _⟩

theorem isHeld_canonicalItems : ∀ items : List Json, LegibleItems items →
    ∀ item ∈ canonicalItems items, item.IsHeld (depthItems items)
  | [], _ => by
    rw [canonicalItems]
    exact List.forall_mem_nil _
  | item :: rest, h => by
    have hrest := isHeld_canonicalItems rest h.2
    rw [canonicalItems, depthItems]
    refine List.forall_mem_cons.mpr ⟨?_, fun other hother => ?_⟩
    · exact (isHeld_canonical item h.1).mono (Nat.le_max_left _ _)
    · exact (hrest other hother).mono (Nat.le_max_right _ _)

theorem isHeld_canonicalMembers : ∀ members : List (String × Json), LegibleMembers members →
    ∀ member ∈ canonicalMembers members, member.2.IsHeld (depthMembers members)
  | [], _ => by
    rw [canonicalMembers]
    exact List.forall_mem_nil _
  | (name, value) :: rest, h => by
    have hrest := isHeld_canonicalMembers rest h.2
    rw [canonicalMembers, depthMembers]
    refine List.forall_mem_cons.mpr ⟨?_, fun other hother => ?_⟩
    · exact (isHeld_canonical value h.1).mono (Nat.le_max_left _ _)
    · exact (hrest other hother).mono (Nat.le_max_right _ _)

end

end TreeScript.Json
