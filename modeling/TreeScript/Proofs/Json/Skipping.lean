import TreeScript.Json.Skip
import TreeScript.Proofs.Json.Spelling

/-!
# Every text of a value can be skipped

The skipper goes over the same grammar as the reader and builds nothing: whatever spells a value is
skipped to its end, at any depth.  It is given as many turns as there are characters, and a text is
longer than its value is deep, `SpelledBy.depth_lt`, because every bracket is one of them.
-/

namespace TreeScript.Json

variable {cs inner piece blank rest : List Char}

/-! ## 1. Leaves -/

theorem skipText_spelled {c : Char} (h : CharSpelledBy c piece) (rest : List Char) :
    skipText (piece ++ rest) = skipText rest := by
  cases h with
  | plain hcontrol hquote hslash =>
    rw [List.singleton_append, skipText.eq_def]
    simp [hquote, hslash]
    omega
  | letter hmem =>
    obtain ⟨hu, hletter⟩ := unescapeLetter?_of_mem hmem
    rw [skipText.eq_def]
    simp [hu, hletter]
  | code hcode =>
    rw [skipText.eq_def]
    simp [hcode]
  | pair _ hhigh hlow =>
    rw [skipText.eq_def]
    simp [hhigh]
    rw [skipText.eq_def]
    simp [hlow]

theorem skipText_inner {cs : List Char} (h : CharsSpelledBy cs inner) (rest : List Char) :
    skipText (inner ++ '"' :: rest) = .ok rest := by
  induction h with
  | nil =>
    rw [List.nil_append, skipText.eq_def]
    rfl
  | cons hchar _ ih => rw [List.append_assoc, skipText_spelled hchar, ih]

/-- The power of ten of a numeral is skipped, if it has one. -/
theorem skipExponent_power (power : Option PowerText) (hrest : Separated rest) :
    skipExponent (power.elim [] PowerText.text ++ rest) = .ok rest := by
  cases power with
  | none =>
    cases rest with
    | nil => rfl
    | cons c rest =>
      obtain ⟨-, -, hlower, hupper⟩ := hrest c rfl
      simp [skipExponent, hlower, hupper]
  | some p =>
    have hletter := p.letter_eq
    have hsplit := p.splitSign rest
    have hspan := p.isRun.spanDigits hrest
    simp [PowerText.text, skipExponent, hletter, hsplit, hspan, p.isRun.isEmpty]

/-- What follows the digits before the point, if there is no point, does not begin with one. -/
theorem power_ne (power : Option PowerText) (hrest : Separated rest) :
    ∀ c ∈ (power.elim [] PowerText.text ++ rest).head?, c.isDigit = false ∧ c ≠ '.' := by
  intro c hc
  cases power with
  | none => exact ⟨(hrest c hc).1, (hrest c hc).2.1⟩
  | some p =>
    cases hc
    exact p.letter_ne

/-- **Every numeral is skipped.** -/
theorem skipUnsigned_number (n : NumberText) (hrest : Separated rest) :
    skipUnsigned (n.whole ++ (n.tail ++ rest)) = .ok rest := by
  have hspan := Numeral.spanDigits_append n.isWhole.digits (n.tail_ne hrest)
  have hpower := skipExponent_power n.power hrest
  have hne := power_ne n.power hrest
  unfold skipUnsigned
  simp only [hspan]
  split
  · rename_i hwhole
    exact absurd hwhole n.isWhole.nonempty
  · rename_i hwhole
    have hzero := n.isWhole.leading (hwhole ▸ rfl)
    rw [hwhole] at hzero
    cases hzero
  · unfold NumberText.tail
    cases hfraction : n.fraction with
    | none =>
      simp only [Option.elim_none, List.nil_append]
      split
      · rename_i heq
        exact absurd rfl (hne '.' (heq ▸ rfl)).2
      · exact hpower
    | some ds =>
      have hds := n.isRun ds hfraction
      have hspan' := Numeral.spanDigits_append hds.digits fun c hc => (hne c hc).1
      simp only [Option.elim_some, List.cons_append, List.append_assoc, hspan', hds.isEmpty]
      exact hpower

theorem skipLeaf_number (n : NumberText) (hrest : Separated rest) :
    skipLeaf (n.text ++ rest) = .ok rest := by
  have hskip := skipUnsigned_number n hrest
  unfold NumberText.text
  rw [List.append_assoc, List.append_assoc]
  cases n.negative with
  | true => exact hskip
  | false =>
    obtain ⟨d, ds, hwhole⟩ := List.exists_cons_of_ne_nil n.isWhole.nonempty
    have hd : d.isDigit = true := n.isWhole.digits d (hwhole ▸ List.mem_cons_self)
    have hquote : d ≠ '"' := ne_of_isDigit hd rfl
    have hminus : d ≠ '-' := ne_of_isDigit hd rfl
    rw [hwhole, List.cons_append] at hskip ⊢
    simp [skipLeaf, hquote, hminus, hd, hskip]

/-- **Every text of a leaf is skipped.** -/
theorem skipLeaf_spelled {j : Json} (h : SpelledBy j cs) (hleaf : j.IsLeaf)
    (hrest : Separated rest) : skipLeaf (cs ++ rest) = .ok rest := by
  cases h with
  | null => rfl
  | yes => rfl
  | no => rfl
  | number n _ => exact skipLeaf_number n hrest
  | text hinner =>
    simp only [quote, List.cons_append, List.append_assoc, List.nil_append, skipLeaf, if_pos]
    exact skipText_inner hinner rest
  | array _ => exact hleaf.elim
  | object _ => exact hleaf.elim

/-! ## 2. Arrays and objects -/

/-- Whether every text of a value is skipped, after blanks. -/
def Skips (skip : Skipper) (j : Json) : Prop :=
  ∀ ⦃blank cs rest : List Char⦄, IsBlank blank → SpelledBy j cs → Separated rest →
    skip (blank ++ (cs ++ rest)) = .ok rest

variable {skip : Skipper}

theorem skipMoreItems_spelled (rest : List Char) : ∀ {items : List Json} {cs turns : List Char},
    (∀ item ∈ items, Skips skip item) → MoreItemsSpelledBy items cs →
    items.length < turns.length → skipMoreItems skip turns (cs ++ rest) = .ok rest
  | _, _, [], _, _, hturns => absurd hturns (Nat.not_lt_zero _)
  | [], _, t :: turns, _, .done hblank, _ => by
    rw [List.append_assoc, skipMoreItems, dropSpace_blank hblank]
    rfl
  | item :: items, _, t :: turns, h, .next hblank hbefore hitem hmore, hturns => by
    have hskip := h item List.mem_cons_self hbefore hitem (hmore.separated rest)
    have hothers := skipMoreItems_spelled rest
      (fun other hother => h other (List.mem_cons_of_mem _ hother)) hmore
      (Nat.lt_of_succ_lt_succ hturns)
    simp only [List.append_assoc, List.cons_append, skipMoreItems, dropSpace_blank hblank,
      dropSpace_cons (c := ',') rfl, hskip, bind, Except.bind]
    exact hothers

theorem skipItems_spelled {items : List Json} (h : ∀ item ∈ items, Skips skip item)
    (hcs : ItemsSpelledBy items cs) (rest : List Char) : skipItems skip (cs ++ rest) = .ok rest := by
  cases hcs with
  | none hblank =>
    unfold skipItems
    rw [List.append_assoc, dropSpace_blank hblank]
    rfl
  | @some item items blank cs more hblank hitem hmore =>
    have hskip := h item List.mem_cons_self isBlank_nil hitem (hmore.separated rest)
    have hothers := skipMoreItems_spelled rest
      (fun other hother => h other (List.mem_cons_of_mem _ hother)) hmore (hmore.length_lt rest)
    obtain ⟨c, tail, rfl, hspace, hend⟩ := hitem.exists_first
    rw [List.nil_append, List.cons_append] at hskip
    unfold skipItems
    rw [List.append_assoc, List.append_assoc, dropSpace_blank hblank, List.cons_append,
      dropSpace_cons hspace]
    split
    · rename_i heq
      cases heq
    · rename_i heq
      exact absurd (List.cons.inj heq).1 hend
    · rw [hskip]
      exact hothers

theorem skipMember_spelled {member : String × Json} (h : Skips skip member.2)
    (hcs : MemberSpelledBy member cs) (hblank : IsBlank blank) (hrest : Separated rest) :
    skipMember skip (blank ++ (cs ++ rest)) = .ok rest := by
  cases hcs with
  | intro hname hcolon hbefore hvalue =>
    have hskip := h hbefore hvalue hrest
    simp only [quote, List.append_assoc, List.cons_append, List.nil_append, skipMember,
      dropSpace_blank hblank, dropSpace_cons (c := '"') rfl, skipText_inner hname,
      readColon_blank id hcolon, bind, Except.bind]
    exact hskip

theorem skipMoreMembers_spelled (rest : List Char) :
    ∀ {members : List (String × Json)} {cs turns : List Char},
      (∀ member ∈ members, Skips skip member.2) → MoreMembersSpelledBy members cs →
      members.length < turns.length → skipMoreMembers skip turns (cs ++ rest) = .ok rest
  | _, _, [], _, _, hturns => absurd hturns (Nat.not_lt_zero _)
  | [], _, t :: turns, _, .done hblank, _ => by
    rw [List.append_assoc, skipMoreMembers, dropSpace_blank hblank]
    rfl
  | member :: members, _, t :: turns, h, .next hblank hbefore hmember hmore, hturns => by
    have hskip := skipMember_spelled (h member List.mem_cons_self) hmember hbefore
      (hmore.separated rest)
    have hothers := skipMoreMembers_spelled rest
      (fun other hother => h other (List.mem_cons_of_mem _ hother)) hmore
      (Nat.lt_of_succ_lt_succ hturns)
    simp only [List.append_assoc, List.cons_append, skipMoreMembers, dropSpace_blank hblank,
      dropSpace_cons (c := ',') rfl, hskip, bind, Except.bind]
    exact hothers

theorem skipMembers_spelled {members : List (String × Json)}
    (h : ∀ member ∈ members, Skips skip member.2) (hcs : MembersSpelledBy members cs)
    (rest : List Char) : skipMembers skip (cs ++ rest) = .ok rest := by
  cases hcs with
  | none hblank =>
    unfold skipMembers
    rw [List.append_assoc, dropSpace_blank hblank]
    rfl
  | @some member members blank cs more hblank hmember hmore =>
    have hskip := skipMember_spelled (h member List.mem_cons_self) hmember isBlank_nil
      (hmore.separated rest)
    have hothers := skipMoreMembers_spelled rest
      (fun other hother => h other (List.mem_cons_of_mem _ hother)) hmore (hmore.length_lt rest)
    obtain ⟨tail, rfl⟩ := hmember.exists_quote
    have hfirst : skipMembers skip ('"' :: (tail ++ (more ++ rest))) = (do
        let rest ← skipMember skip ('"' :: (tail ++ (more ++ rest)))
        skipMoreMembers skip rest rest) := rfl
    have hblank' : skipMembers skip (blank ++ ('"' :: (tail ++ (more ++ rest)))) =
        skipMembers skip ('"' :: (tail ++ (more ++ rest))) := by
      simp only [skipMembers, dropSpace_blank hblank]
    rw [List.nil_append, List.cons_append] at hskip
    rw [List.append_assoc, List.append_assoc, List.cons_append, hblank', hfirst, hskip]
    exact hothers

/-! ## 3. Values -/

theorem skips_leaf {j : Json} (turns : Nat) (hleaf : j.IsLeaf) :
    Skips (skipNested (turns + 1)) j := by
  intro blank cs rest hblank hcs hrest
  obtain ⟨c, tail, htext, ⟨hspace, -⟩, harray, hobject⟩ :=
    exists_of_readLeaf (readLeaf_spelled hcs hleaf hrest)
  have hskip := skipLeaf_spelled hcs hleaf hrest
  rw [htext] at hskip ⊢
  rw [skipNested, dropSpace_blank hblank, dropSpace_cons hspace]
  split
  · rename_i heq
    exact absurd (List.cons.inj heq).1 harray
  · rename_i heq
    exact absurd (List.cons.inj heq).1 hobject
  · exact hskip

mutual

/-- **Every text of a value is skipped** in more turns than the value is deep. -/
theorem skipNested_spelled : ∀ (turns : Nat) (j : Json), j.depth < turns →
    Skips (skipNested turns) j
  | turns + 1, .array items, hdepth => by
    rw [depth, Nat.add_lt_add_iff_right] at hdepth
    intro blank cs rest hblank hcs _
    obtain ⟨inner, hitems, rfl⟩ := hcs.exists_items
    rw [skipNested, dropSpace_blank hblank]
    exact skipItems_spelled (skipNested_items turns items hdepth) hitems rest
  | turns + 1, .object members, hdepth => by
    rw [depth, Nat.add_lt_add_iff_right] at hdepth
    intro blank cs rest hblank hcs _
    obtain ⟨inner, hmembers, rfl⟩ := hcs.exists_members
    rw [skipNested, dropSpace_blank hblank]
    exact skipMembers_spelled (skipNested_members turns members hdepth) hmembers rest
  | turns + 1, .null, _ => skips_leaf turns trivial
  | turns + 1, .boolean _, _ => skips_leaf turns trivial
  | turns + 1, .integer _, _ => skips_leaf turns trivial
  | turns + 1, .double _, _ => skips_leaf turns trivial
  | turns + 1, .text _, _ => skips_leaf turns trivial

theorem skipNested_items (turns : Nat) : ∀ items : List Json, depthItems items < turns →
    ∀ item ∈ items, Skips (skipNested turns) item
  | [], _ => fun _ hmem => by cases hmem
  | item :: rest, hdepth => by
    rw [depthItems, Nat.max_lt] at hdepth
    exact List.forall_mem_cons.mpr
      ⟨skipNested_spelled turns item hdepth.1, skipNested_items turns rest hdepth.2⟩

theorem skipNested_members (turns : Nat) : ∀ members : List (String × Json),
    depthMembers members < turns → ∀ member ∈ members, Skips (skipNested turns) member.2
  | [], _ => fun _ hmem => by cases hmem
  | (name, value) :: rest, hdepth => by
    rw [depthMembers, Nat.max_lt] at hdepth
    exact List.forall_mem_cons.mpr
      ⟨skipNested_spelled turns value hdepth.1, skipNested_members turns rest hdepth.2⟩

end

theorem SpelledBy.depth_lt_of_isLeaf {j : Json} (h : SpelledBy j cs) (hleaf : j.IsLeaf) :
    j.depth < cs.length := by
  obtain ⟨c, tail, rfl, -⟩ := h.exists_first
  rw [depth_of_isLeaf hleaf]
  exact Nat.succ_pos _

mutual

/-- **A text is longer than its value is deep.** -/
theorem SpelledBy.depth_lt : ∀ {j : Json} {cs : List Char}, SpelledBy j cs → j.depth < cs.length
  | _, _, .array h => by
    have hitems := h.depth_lt
    rw [depth, List.length_cons]
    omega
  | _, _, .object h => by
    have hmembers := h.depth_lt
    rw [depth, List.length_cons]
    omega
  | _, _, .null => SpelledBy.null.depth_lt_of_isLeaf trivial
  | _, _, .yes => SpelledBy.yes.depth_lt_of_isLeaf trivial
  | _, _, .no => SpelledBy.no.depth_lt_of_isLeaf trivial
  | _, _, .number n hn =>
    (SpelledBy.number n hn).depth_lt_of_isLeaf (NumberText.isLeaf_of_value? hn)
  | _, _, .text h => (SpelledBy.text h).depth_lt_of_isLeaf trivial

theorem ItemsSpelledBy.depth_lt : ∀ {items : List Json} {cs : List Char},
    ItemsSpelledBy items cs → depthItems items < cs.length
  | [], _, .none _ => by simp [depthItems]
  | item :: rest, _, .some _ hitem hmore => by
    have h := hitem.depth_lt
    have hrest := hmore.depth_lt
    simp only [depthItems, List.length_append]
    omega

theorem MoreItemsSpelledBy.depth_lt : ∀ {items : List Json} {cs : List Char},
    MoreItemsSpelledBy items cs → depthItems items < cs.length
  | [], _, .done _ => by simp [depthItems]
  | item :: rest, _, .next _ _ hitem hmore => by
    have h := hitem.depth_lt
    have hrest := hmore.depth_lt
    simp only [depthItems, List.length_append, List.length_cons]
    omega

theorem MemberSpelledBy.depth_lt : ∀ {member : String × Json} {cs : List Char},
    MemberSpelledBy member cs → member.2.depth < cs.length
  | _, _, .intro _ _ _ hvalue => by
    have h := hvalue.depth_lt
    simp only [List.length_append, List.length_cons]
    omega

theorem MembersSpelledBy.depth_lt : ∀ {members : List (String × Json)} {cs : List Char},
    MembersSpelledBy members cs → depthMembers members < cs.length
  | [], _, .none _ => by simp [depthMembers]
  | (_, value) :: _, _, .some _ hmember hmore => by
    have h : value.depth < _ := hmember.depth_lt
    have hrest := hmore.depth_lt
    simp only [depthMembers, List.length_append]
    omega

theorem MoreMembersSpelledBy.depth_lt : ∀ {members : List (String × Json)} {cs : List Char},
    MoreMembersSpelledBy members cs → depthMembers members < cs.length
  | [], _, .done _ => by simp [depthMembers]
  | (_, value) :: _, _, .next _ _ hmember hmore => by
    have h : value.depth < _ := hmember.depth_lt
    have hrest := hmore.depth_lt
    simp only [depthMembers, List.length_append, List.length_cons]
    omega

end

/-- **Every text of a value can be skipped.** -/
theorem skipValue_spelled (j : Json) : Skips skipValue j := by
  intro blank cs rest hblank hcs hrest
  have hdepth := hcs.depth_lt
  have hlength : j.depth < (blank ++ (cs ++ rest)).length := by
    simp only [List.length_append]
    omega
  exact skipNested_spelled _ j hlength hblank hcs hrest

end TreeScript.Json
