import TreeScript.Proofs.Json.Spelling

/-!
# What is read from the text of a value

That a reader takes every text of a value says nothing of the texts that it should refuse.  `Gives`
is the other direction: of a reader that is put before a text of a value and gives something back, it
says what that can be.  It need not give anything back, because a value may nest too deep for it.

For the two loops this is, item by item and member by member, what is given back for one of them.
Over the members it is an invariant of the state, which may speak of the members that were read so
far.  Of `readValue` there is only one thing to say: if it gives a value back, then the value that
the text spells, `readValue_gives`.
-/

namespace TreeScript

/-! ## 1. Steps that succeed -/

section Results

variable {ε ε' α β : Type}

theorem bind_eq_ok {x : Except ε α} {f : α → Except ε β} {b : β} :
    x >>= f = .ok b ↔ ∃ a, x = .ok a ∧ f a = .ok b := by
  cases x <;> simp [bind, Except.bind]

theorem map_eq_ok {x : Except ε α} {f : α → β} {b : β} :
    x.map f = .ok b ↔ ∃ a, x = .ok a ∧ f a = b := by
  cases x <;> simp [Except.map]

theorem mapError_eq_ok {x : Except ε α} {f : ε → ε'} {a : α} :
    x.mapError f = .ok a ↔ x = .ok a := by
  cases x <;> simp [Except.mapError]

end Results

namespace Json

variable {cs rest : List Char}

/-! ## 2. Arrays and objects -/

section Loops

variable {ε α σ : Type} (refuse : JsonError → ε) {read : Reader ε α}
  {step : σ → String → Reader ε σ}

/-- What a reader gives back, if anything, of the texts of a value. -/
def Gives (read : Reader ε α) (j : Json) (P : α → Prop) : Prop :=
  ∀ ⦃cs rest : List Char⦄, SpelledBy j cs → Separated rest →
    ∀ ⦃a : α⦄ ⦃rest' : List Char⦄, read (cs ++ rest) = .ok (a, rest') → P a ∧ rest' = rest

/-- What a step makes of a state, if anything, on the texts of a member after its name. -/
def GivesMember (step : σ → String → Reader ε σ) (s : σ) (member : String × Json)
    (P : σ → Prop) : Prop :=
  ∀ ⦃blank before cs rest : List Char⦄, IsBlank blank → IsBlank before → SpelledBy member.2 cs →
    Separated rest → ∀ ⦃s' : σ⦄ ⦃rest' : List Char⦄,
      step s member.1 (blank ++ ':' :: (before ++ (cs ++ rest))) = .ok (s', rest') →
      P s' ∧ rest' = rest

/-- Whether a step, member by member, keeps an invariant of the state and of the members that were
read to get there. -/
def KeepsMembers (step : σ → String → Reader ε σ) (I : List (String × Json) → σ → Prop)
    (members : List (String × Json)) : Prop :=
  ∀ member ∈ members, ∀ front s, I front s →
    GivesMember step s member (I (front ++ [member]))

theorem readMoreItems_gives {Q : α → Json → Prop} (rest : List Char) : ∀ {js : List Json},
    (∀ j ∈ js, Gives read j (Q · j)) → ∀ {cs turns rest' : List Char} {as : List α},
      MoreItemsSpelledBy js cs → readMoreItems refuse read turns (cs ++ rest) = .ok (as, rest') →
      List.Forall₂ Q as js ∧ rest' = rest
  | _, _, _, [], _, _, _, h => by cases h
  | [], _, _, t :: turns, _, _, .done hblank, h => by
    rw [List.append_assoc, readMoreItems_blank refuse hblank] at h
    cases h
    exact ⟨.nil, rfl⟩
  | j :: js, hjs, _, t :: turns, _, _, .next hblank hbefore hitem hmore, h => by
    have hj := hjs j List.mem_cons_self hitem (hmore.separated rest)
    obtain ⟨c, tail, rfl, hfirst⟩ := hitem.exists_first
    rw [List.append_assoc, List.cons_append, List.append_assoc, List.append_assoc,
      readMoreItems_blank refuse hblank, readMoreItems_comma_blank refuse hbefore,
      List.cons_append, readMoreItems_comma refuse hfirst, ← List.cons_append] at h
    obtain ⟨⟨a, _⟩, hread, hthen⟩ := bind_eq_ok.mp h
    obtain ⟨hQ, rfl⟩ := hj hread
    obtain ⟨⟨others, _⟩, hothers, hend⟩ := bind_eq_ok.mp hthen
    obtain ⟨hQs, rfl⟩ := readMoreItems_gives rest
      (fun j hj => hjs j (List.mem_cons_of_mem _ hj)) hmore hothers
    cases hend
    exact ⟨.cons hQ hQs, rfl⟩

/-- **What is read of an array is, item by item, what is read of its items.** -/
theorem readItems_gives {Q : α → Json → Prop} {js : List Json}
    (hjs : ∀ j ∈ js, Gives read j (Q · j)) (hcs : ItemsSpelledBy js cs) {as : List α}
    {rest' : List Char} (h : readItems refuse read (cs ++ rest) = .ok (as, rest')) :
    List.Forall₂ Q as js ∧ rest' = rest := by
  cases hcs with
  | none hblank =>
    unfold readItems at h
    rw [List.append_assoc, dropSpace_blank hblank] at h
    cases h
    exact ⟨.nil, rfl⟩
  | @some item js blank cs more hblank hitem hmore =>
    have hj := hjs item List.mem_cons_self hitem (hmore.separated rest)
    have hskip : readItems refuse read (blank ++ (cs ++ (more ++ rest))) =
        readItems refuse read (cs ++ (more ++ rest)) := by
      simp only [readItems, dropSpace_blank hblank]
    obtain ⟨c, tail, rfl, hfirst⟩ := hitem.exists_first
    rw [List.append_assoc, List.append_assoc, hskip, List.cons_append,
      readItems_first refuse hfirst, ← List.cons_append] at h
    obtain ⟨⟨a, _⟩, hread, hthen⟩ := bind_eq_ok.mp h
    obtain ⟨hQ, rfl⟩ := hj hread
    obtain ⟨⟨others, _⟩, hothers, hend⟩ := bind_eq_ok.mp hthen
    obtain ⟨hQs, rfl⟩ := readMoreItems_gives refuse rest
      (fun j hj => hjs j (List.mem_cons_of_mem _ hj)) hmore hothers
    cases hend
    exact ⟨.cons hQ hQs, rfl⟩

theorem readMember_gives {s : σ} {member : String × Json} {P : σ → Prop}
    (hgives : GivesMember step s member P) (hcs : MemberSpelledBy member cs)
    (hrest : Separated rest) :
    ∃ tail, cs = '"' :: tail ∧ ∀ {s' : σ} {rest' : List Char},
      readMember refuse step s (tail ++ rest) = .ok (s', rest') → P s' ∧ rest' = rest := by
  cases hcs with
  | @intro name value inner blank before cs hname hblank hbefore hvalue =>
    refine ⟨inner ++ '"' :: (blank ++ ':' :: (before ++ cs)), by simp [quote], fun h => ?_⟩
    unfold readMember at h
    simp only [List.append_assoc, List.cons_append, readString_inner hname] at h
    exact hgives hblank hbefore hvalue hrest h

variable {I : List (String × Json) → σ → Prop}

theorem readMoreMembers_gives (rest : List Char) : ∀ {members : List (String × Json)},
    KeepsMembers step I members → ∀ {front : List (String × Json)} {s : σ}, I front s →
    ∀ {cs turns rest' : List Char} {s' : σ}, MoreMembersSpelledBy members cs →
      readMoreMembers refuse step turns s (cs ++ rest) = .ok (s', rest') →
      I (front ++ members) s' ∧ rest' = rest
  | _, _, _, _, _, _, [], _, _, _, h => by cases h
  | [], _, front, s, hs, _, t :: turns, _, _, .done hblank, h => by
    rw [List.append_assoc, readMoreMembers, dropSpace_blank hblank] at h
    cases h
    rw [List.append_nil]
    exact ⟨hs, rfl⟩
  | member :: members, hkeeps, front, s, hs, _, t :: turns, _, _,
      .next hblank hbefore hmember hmore, h => by
    obtain ⟨tail, rfl, hgives⟩ := readMember_gives refuse
      (hkeeps member List.mem_cons_self front s hs) hmember (hmore.separated rest)
    simp only [List.append_assoc, List.cons_append, readMoreMembers, dropSpace_blank hblank,
      dropSpace_cons (c := ',') rfl, dropSpace_blank hbefore, dropSpace_cons (c := '"') rfl] at h
    obtain ⟨⟨s₁, _⟩, hread, hothers⟩ := bind_eq_ok.mp h
    obtain ⟨hs₁, rfl⟩ := hgives hread
    rw [← List.singleton_append, ← List.append_assoc]
    exact readMoreMembers_gives rest (fun m hm => hkeeps m (List.mem_cons_of_mem _ hm)) hs₁ hmore hothers

/-- **What is read of an object is what its members make of the state, one after the other.** -/
theorem readMembers_gives {members : List (String × Json)} (hkeeps : KeepsMembers step I members)
    {s : σ} (hs : I [] s) (hcs : MembersSpelledBy members cs) {s' : σ} {rest' : List Char}
    (h : readMembers refuse step s (cs ++ rest) = .ok (s', rest')) :
    I members s' ∧ rest' = rest := by
  cases hcs with
  | none hblank =>
    unfold readMembers at h
    rw [List.append_assoc, dropSpace_blank hblank] at h
    cases h
    exact ⟨hs, rfl⟩
  | @some member members blank cs more hblank hmember hmore =>
    obtain ⟨tail, rfl, hgives⟩ := readMember_gives refuse
      (hkeeps member List.mem_cons_self [] s hs) hmember (hmore.separated rest)
    simp only [List.append_assoc, List.cons_append, readMembers, dropSpace_blank hblank,
      dropSpace_cons (c := '"') rfl] at h
    obtain ⟨⟨s₁, _⟩, hread, hothers⟩ := bind_eq_ok.mp h
    obtain ⟨hs₁, rfl⟩ := hgives hread
    exact readMoreMembers_gives refuse rest (fun m hm => hkeeps m (List.mem_cons_of_mem _ hm))
      hs₁ hmore hothers

end Loops

/-! ## 3. Values -/

theorem gives_leaf {j : Json} (limit : Nat) (hleaf : j.IsLeaf) :
    Gives (readValue limit) j (· = j) := by
  intro cs rest hcs hrest a rest' h
  rw [readValue_of_readLeaf (readLeaf_spelled hcs hleaf hrest) limit] at h
  cases h
  exact ⟨rfl, rfl⟩

theorem gives_array {limit : Nat} {items : List Json}
    (hitems : ∀ item ∈ items, Gives (readValue limit) item (· = item)) :
    Gives (readValue (limit + 1)) (.array items) (· = .array items) := by
  intro cs rest hcs _ a rest' h
  obtain ⟨inner, hinner, rfl⟩ := hcs.exists_items
  rw [List.cons_append, readValue_array] at h
  obtain ⟨⟨as, _⟩, hread, hend⟩ := bind_eq_ok.mp h
  obtain ⟨hall, rfl⟩ := readItems_gives id hitems hinner hread
  rw [List.forall₂_eq_eq_eq] at hall
  cases hend
  exact ⟨congrArg Json.array hall, rfl⟩

/-- The members are kept as they are read, the last one first. -/
theorem gives_object {limit : Nat} {members : List (String × Json)}
    (hmembers : ∀ member ∈ members, Gives (readValue limit) member.2 (· = member.2)) :
    Gives (readValue (limit + 1)) (.object members) (· = .object members) := by
  intro cs rest hcs _ a rest' h
  obtain ⟨inner, hinner, rfl⟩ := hcs.exists_members
  have hkeeps : KeepsMembers (readValueMember limit) (fun front acc => acc = front.reverse)
      members := by
    intro member hmember front acc hacc blank before cs rest hblank hbefore hcs hrest s' rest' h
    unfold readValueMember at h
    simp only [readColon_blank id hblank, readValue_blank hbefore, bind, Except.bind] at h
    obtain ⟨⟨value, _⟩, hread, hend⟩ := bind_eq_ok.mp h
    obtain ⟨rfl, rfl⟩ := hmembers member hmember hcs hrest hread
    cases hend
    have hnext : member :: acc = (front ++ [member]).reverse := by
      rw [hacc, List.reverse_append]
      rfl
    exact ⟨hnext, rfl⟩
  rw [List.cons_append, readValue_object] at h
  obtain ⟨⟨acc, _⟩, hread, hend⟩ := bind_eq_ok.mp h
  obtain ⟨rfl, rfl⟩ := readMembers_gives id hkeeps rfl hinner hread
  cases hend
  exact ⟨congrArg Json.object members.reverse_reverse, rfl⟩

mutual

/-- **From the text of a value nothing else is read than the value.** -/
theorem readValue_gives : ∀ (limit : Nat) (j : Json), Gives (readValue limit) j (· = j)
  | 0, .array items => by
    intro cs rest hcs _ a rest' h
    obtain ⟨inner, -, rfl⟩ := hcs.exists_items
    cases h
  | 0, .object members => by
    intro cs rest hcs _ a rest' h
    obtain ⟨inner, -, rfl⟩ := hcs.exists_members
    cases h
  | limit + 1, .array items => gives_array (readValue_gives_items limit items)
  | limit + 1, .object members => gives_object (readValue_gives_members limit members)
  | limit, .null => gives_leaf limit trivial
  | limit, .boolean _ => gives_leaf limit trivial
  | limit, .integer _ => gives_leaf limit trivial
  | limit, .double _ => gives_leaf limit trivial
  | limit, .text _ => gives_leaf limit trivial

theorem readValue_gives_items (limit : Nat) : ∀ items : List Json,
    ∀ item ∈ items, Gives (readValue limit) item (· = item)
  | [] => List.forall_mem_nil _
  | item :: rest => List.forall_mem_cons.mpr
    ⟨readValue_gives limit item, readValue_gives_items limit rest⟩

theorem readValue_gives_members (limit : Nat) : ∀ members : List (String × Json),
    ∀ member ∈ members, Gives (readValue limit) member.2 (· = member.2)
  | [] => List.forall_mem_nil _
  | (_, value) :: rest => List.forall_mem_cons.mpr
    ⟨readValue_gives limit value, readValue_gives_members limit rest⟩

end

end Json

end TreeScript
