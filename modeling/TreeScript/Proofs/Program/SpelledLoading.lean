import TreeScript.Proofs.Json.Skipping
import TreeScript.Proofs.Program.Loading
import TreeScript.Proofs.Program.Spelling

/-!
# Every text that spells a program is loaded

The root of a program and its top-level statements are checked while the text is read, so that
nothing of them stands there as a value when their fields are looked at.  The argument follows the
reader: a member of a statement is either its tag, wherever it stands, or is kept as it is read; a
member of the root is either the list of the statements or is skipped.  What has been kept when a
closing brace is met are the members without the tag, in the order of the text, and these are
decoded into the statement by `ofMembers_spelled`, whatever their order.

**Depth.**  The three that the root, the list of its statements and a statement open themselves are
counted as in `Program.statementDepth`, so that a text may nest 127 deep, unknown members included.
-/

namespace TreeScript

namespace Program

open Json (Separated IsBlank MembersSpelledBy ItemsSpelledBy Takes TakesMember TakesMembers)

/-! ## 1. Members in any order -/

/-- A list that holds the same as another one with a first element has that element somewhere. -/
theorem exists_split {α : Type} {members others : List α} {m : α}
    (h : members.Perm (m :: others)) :
    ∃ front back, members = front ++ m :: back ∧ (front ++ back).Perm others := by
  obtain ⟨front, back, rfl⟩ := List.append_of_mem (h.mem_iff.mpr List.mem_cons_self)
  exact ⟨front, back, rfl, (List.perm_middle.symm.trans h).cons_inv⟩

theorem depth_le_of_mem {member : String × Json} : ∀ {members : List (String × Json)},
    member ∈ members → member.2.depth ≤ Json.depthMembers members
  | _ :: rest, h => by
    rw [Json.depthMembers]
    rcases List.mem_cons.mp h with rfl | h
    · exact Nat.le_max_left _ _
    · exact Nat.le_trans (depth_le_of_mem h) (Nat.le_max_right _ _)

/-! ## 2. Members of a statement -/

/-- The tag of a statement is read from every text of its word. -/
theorem readTag_spelled {tag : Tag} (htag : tag ∈ NodeClass.statement.tags)
    {blank cs : List Char} (hblank : IsBlank blank) (hcs : Json.SpelledBy (.text tag.word) cs)
    (rest : List Char) : readTag (blank ++ (cs ++ rest)) = .ok (tag, rest) := by
  obtain ⟨inner, hinner, rfl⟩ := hcs.exists_inner
  unfold readTag
  simp only [Json.quote, List.cons_append, List.append_assoc, List.nil_append,
    Json.dropSpace_blank hblank, Json.dropSpace_cons (c := '"') rfl, Json.readString_inner hinner,
    liftJson, Except.mapError, bind, Except.bind, Tree.tagOfWord_word htag]
  rfl

theorem takesMember_tag (limit : Nat) {tag : Tag} (htag : tag ∈ NodeClass.statement.tags)
    (acc : List (String × Json)) :
    TakesMember (readStatementMember limit) (none, acc) ("type", .text tag.word)
      (some tag, acc) := by
  intro blank before cs rest hblank hbefore hcs _
  have htype : readStatementMember limit (none, acc) "type"
      (blank ++ ':' :: (before ++ (cs ++ rest))) = (do
        let r ← Json.readColon .json (blank ++ ':' :: (before ++ (cs ++ rest)))
        let r ← readTag r
        return ((some r.1, acc), r.2)) := rfl
  rw [htype, Json.readColon_blank _ hblank]
  simp only [bind, Except.bind, readTag_spelled htag hbefore hcs]
  rfl

/-- Every other member is kept as it is read. -/
theorem takesMember_kept {limit : Nat} (tag? : Option Tag) (acc : List (String × Json))
    {member : String × Json} (hname : member.1 ≠ "type") (hdepth : member.2.depth ≤ limit) :
    TakesMember (readStatementMember limit) (tag?, acc) member (tag?, member :: acc) := by
  intro blank before cs rest hblank hbefore hcs hrest
  have hread := Json.readValue_spelled limit member.2 hdepth hcs hrest
  unfold readStatementMember
  rw [if_neg hname, Json.readColon_blank _ hblank]
  simp only [bind, Except.bind, Json.readValue_blank hbefore, hread]
  rfl

theorem takesMembers_kept {limit : Nat} (tag? : Option Tag) :
    ∀ (members acc : List (String × Json)), (∀ m ∈ members, m.1 ≠ "type") →
    (∀ m ∈ members, m.2.depth ≤ limit) →
    TakesMembers (readStatementMember limit) (tag?, acc) members (tag?, members.reverse ++ acc)
  | [], _, _, _ => .nil
  | member :: rest, acc, hname, hdepth => by
    have hrest := takesMembers_kept tag? rest (member :: acc)
      (fun m hm => hname m (List.mem_cons_of_mem _ hm))
      fun m hm => hdepth m (List.mem_cons_of_mem _ hm)
    rw [List.reverse_cons, List.append_assoc, List.singleton_append]
    exact .cons (takesMember_kept tag? acc (hname member List.mem_cons_self)
      (hdepth member List.mem_cons_self)) hrest

/-- **Wherever the tag stands**, it is found, and the other members are kept in their order. -/
theorem takesMembers_statement {limit : Nat} {tag : Tag} (htag : tag ∈ NodeClass.statement.tags)
    {front back : List (String × Json)} (hname : ∀ m ∈ front ++ back, m.1 ≠ "type")
    (hdepth : ∀ m ∈ front ++ back, m.2.depth ≤ limit) :
    TakesMembers (readStatementMember limit) (none, [])
      (front ++ ("type", .text tag.word) :: back) (some tag, (front ++ back).reverse) := by
  have hfront := takesMembers_kept none front [] (fun m hm => hname m (List.mem_append_left _ hm))
    fun m hm => hdepth m (List.mem_append_left _ hm)
  have hback := takesMembers_kept (some tag) back (front.reverse ++ [])
    (fun m hm => hname m (List.mem_append_right _ hm))
    fun m hm => hdepth m (List.mem_append_right _ hm)
  rw [List.append_nil] at hfront hback
  rw [List.reverse_append]
  exact hfront.append (.cons (takesMember_tag limit htag front.reverse) hback)

/-! ## 3. Statements -/

theorem naming_statement {tag : Tag} (htag : tag ∈ NodeClass.statement.tags) :
    tag.naming = [("type", .text tag.word)] := by
  unfold Tag.naming
  rw [isNamed_statement htag]
  rfl

theorem readStatementObject_spelled {limit : Nat} {tag : Tag} {fields : List Tree}
    {given unknown members : List (String × Json)} (htag : tag ∈ NodeClass.statement.tags)
    (hgiven : Tree.GivenBy tag.fields fields given) (hunknown : ∀ m ∈ unknown, tag.Ignores m.1)
    (horder : members.Perm (tag.naming ++ (given ++ unknown)))
    (hdepth : Json.depthMembers members ≤ limit) {cs : List Char}
    (hcs : MembersSpelledBy members cs) (rest : List Char) :
    readStatementObject limit (cs ++ rest) = .ok (.node tag fields, rest) := by
  rw [naming_statement htag, List.singleton_append] at horder
  obtain ⟨front, back, rfl, hothers⟩ := exists_split horder
  have hname : ∀ m ∈ front ++ back, m.1 ≠ "type" := fun m hm =>
    Tree.ne_type_of_mem (isNamed_statement htag) hgiven hunknown m (hothers.mem_iff.mp hm)
  have hmem : ∀ m ∈ front ++ back, m ∈ front ++ ("type", Json.text tag.word) :: back :=
    fun m hm => List.perm_middle.mem_iff.mpr (List.mem_cons_of_mem _ hm)
  have htakes := takesMembers_statement htag hname fun m hm =>
    Nat.le_trans (depth_le_of_mem (hmem m hm)) hdepth
  have hfields := Tree.ofMembers_spelled hgiven hunknown hothers
  unfold readStatementObject
  simp only [bind, Except.bind, Json.readMembers_spelled _ htakes hcs, List.reverse_reverse,
    hfields]
  rfl

theorem readStatementArray_spelled {limit : Nat} {tag : Tag} {fields : List Tree} {js : List Json}
    (htag : tag ∈ NodeClass.statement.tags)
    (hfields : Tree.EachSpelledBy tag.fields fields js) (hdepth : Json.depthItems js ≤ limit)
    {cs : List Char} (hcs : ItemsSpelledBy (.text tag.word :: js) cs) (rest : List Char) :
    readStatementArray limit (cs ++ rest) = .ok (.node tag fields, rest) := by
  cases hcs with
  | @some _ _ blank cs more hblank hword hmore =>
    have htag' := readTag_spelled htag Json.isBlank_nil hword (more ++ rest)
    have hitems := Json.readMoreItems_spelled id (Json.readItems_values limit js hdepth) rest hmore
      (hmore.length_lt rest)
    have hpositions := Tree.ofPositions_spelled hfields
    obtain ⟨c, tail, rfl, hspace, hend⟩ := hword.exists_first
    rw [List.nil_append, List.cons_append] at htag'
    unfold readStatementArray
    rw [List.append_assoc, List.append_assoc, Json.dropSpace_blank hblank, List.cons_append,
      Json.dropSpace_cons hspace]
    split
    · rename_i heq
      cases heq
    · rename_i heq
      exact absurd (List.cons.inj heq).1 hend
    · simp only [bind, Except.bind, htag', hitems, liftJson, Except.mapError, hpositions]
      rfl

/-- **A statement is read from every text that spells it.** -/
theorem takes_statement {limit : Nat} {t : Tree} {j : Json}
    (h : Tree.SpelledBy .one (.node .statement) t j) (hdepth : j.depth ≤ limit + 1) :
    Takes (readStatement limit) t j := by
  intro cs rest hcs _
  cases h with
  | object _ htag hgiven hunknown horder =>
    rw [Json.depth, Nat.add_le_add_iff_right] at hdepth
    obtain ⟨inner, hmembers, rfl⟩ := hcs.exists_members
    exact readStatementObject_spelled htag hgiven hunknown horder hdepth hmembers rest
  | @array _ _ _ tag fields js htag hfields =>
    rw [Json.depth, Nat.add_le_add_iff_right] at hdepth
    obtain ⟨inner, hitems, rfl⟩ := hcs.exists_items
    rw [naming_statement htag] at hdepth hitems
    have hitemsDepth : Json.depthItems (.text tag.word :: js) ≤ limit := hdepth
    rw [Json.depthItems, Nat.max_le] at hitemsDepth
    exact readStatementArray_spelled htag hfields hitemsDepth.2 hitems rest

theorem takes_statements {limit : Nat} : ∀ {ts : List Tree} {js : List Json},
    Tree.AllSpelledBy (.node .statement) ts js → Json.depthItems js ≤ limit + 1 →
    List.Forall₂ (Takes (readStatement limit)) ts js
  | [], _, .nil, _ => .nil
  | _ :: _, _, .cons h hrest, hdepth => by
    rw [Json.depthItems, Nat.max_le] at hdepth
    exact .cons (takes_statement h hdepth.1) (takes_statements hrest hdepth.2)

/-- The list of the statements is read from every text that spells it. -/
theorem readStatements_spelled {limit : Nat} {ts : List Tree} {js : List Json}
    (h : Tree.AllSpelledBy (.node .statement) ts js)
    (hdepth : (Json.array js).depth ≤ limit + 2) {blank cs : List Char} (hblank : IsBlank blank)
    (hcs : Json.SpelledBy (.array js) cs) (rest : List Char) :
    readStatements limit (blank ++ (cs ++ rest)) = .ok (ts, rest) := by
  rw [Json.depth, Nat.add_le_add_iff_right] at hdepth
  obtain ⟨inner, hitems, rfl⟩ := hcs.exists_items
  have hread := Json.readItems_spelled LoadError.json (takes_statements h hdepth) hitems rest
  unfold readStatements
  rw [Json.dropSpace_blank hblank, List.cons_append, Json.dropSpace_cons (c := '[') rfl]
  exact hread

/-! ## 4. The root -/

theorem takesMember_statements {ts : List Tree} {js : List Json}
    (h : Tree.AllSpelledBy (.node .statement) ts js)
    (hdepth : (Json.array js).depth ≤ statementDepth + 2) :
    TakesMember readRootMember none ("statements", .array js) (some ts) := by
  intro blank before cs rest hblank hbefore hcs _
  have hname : readRootMember none "statements" (blank ++ ':' :: (before ++ (cs ++ rest))) = (do
      let r ← Json.readColon .json (blank ++ ':' :: (before ++ (cs ++ rest)))
      let r ← readStatements statementDepth r
      return (some r.1, r.2)) := rfl
  rw [hname, Json.readColon_blank _ hblank]
  simp only [bind, Except.bind, readStatements_spelled h hdepth hbefore hcs]
  rfl

/-- Every other member is skipped, at any depth. -/
theorem takesMember_skipped (found : Option (List Tree)) {member : String × Json}
    (hname : member.1 ≠ "statements") : TakesMember readRootMember found member found := by
  intro blank before cs rest hblank hbefore hcs hrest
  unfold readRootMember
  rw [if_neg hname, Json.readColon_blank _ hblank]
  simp only [bind, Except.bind, Json.skipValue_spelled member.2 hbefore hcs hrest, liftJson,
    Except.mapError]
  rfl

theorem takesMembers_skipped (found : Option (List Tree)) : ∀ members : List (String × Json),
    (∀ m ∈ members, m.1 ≠ "statements") → TakesMembers readRootMember found members found
  | [], _ => .nil
  | member :: rest, hname =>
    .cons (takesMember_skipped found (hname member List.mem_cons_self))
      (takesMembers_skipped found rest fun m hm => hname m (List.mem_cons_of_mem _ hm))

/-- What the members of the root give: the statements, if one of them is their list, and else
none.  The others are of no use to it. -/
theorem takesMembers_root {ts : List Tree} {given unknown members : List (String × Json)}
    (hgiven : Tree.GivenBy Tag.program.fields [.list ts] given)
    (hunknown : ∀ m ∈ unknown, Tag.program.Ignores m.1)
    (horder : members.Perm (given ++ unknown))
    (hdepth : Json.depthMembers members ≤ statementDepth + 2) :
    ∃ found, TakesMembers readRootMember none members found ∧ found.getD [] = ts := by
  have hskipped : ∀ m ∈ unknown, m.1 ≠ "statements" := fun m hm =>
    ((hunknown m hm).not_field _ List.mem_cons_self).1
  cases hgiven with
  | omitted homissible hrest =>
    cases hrest
    cases homissible
    rw [List.nil_append] at horder
    exact ⟨none, takesMembers_skipped none members fun m hm =>
      hskipped m (horder.mem_iff.mp hm), rfl⟩
  | member hname hvalue hrest =>
    cases hrest
    obtain rfl | hother := hname
    · cases hvalue with
      | @list _ _ js hitems =>
        obtain ⟨front, back, rfl, hothers⟩ := exists_split horder
        have hnames : ∀ m ∈ front ++ back, m.1 ≠ "statements" := fun m hm =>
          hskipped m (hothers.mem_iff.mp hm)
        have hmem : ("statements", Json.array js) ∈ front ++ ("statements", .array js) :: back :=
          List.mem_append_right _ List.mem_cons_self
        have hlist := takesMember_statements hitems (Nat.le_trans (depth_le_of_mem hmem) hdepth)
        have hfront := takesMembers_skipped none front fun m hm =>
          hnames m (List.mem_append_left _ hm)
        have hback := takesMembers_skipped (some ts) back fun m hm =>
          hnames m (List.mem_append_right _ hm)
        exact ⟨some ts, hfront.append (.cons hlist hback), rfl⟩
    · cases hother

theorem readRootArray_spelled {ts : List Tree} {js : List Json}
    (hfields : Tree.EachSpelledBy Tag.program.fields [.list ts] js)
    (hdepth : Json.depthItems js ≤ statementDepth + 2) {cs : List Char}
    (hcs : ItemsSpelledBy js cs) (rest : List Char) :
    readRootArray (cs ++ rest) = .ok (ts, rest) := by
  cases hfields with
  | cons hlist hnone =>
    cases hnone
    cases hlist with
    | @list _ _ items hitems =>
      rw [Json.depthItems, Nat.max_le] at hdepth
      cases hcs with
      | @some _ _ blank cs more hblank hlist hmore =>
        have hread := readStatements_spelled hitems hdepth.1 Json.isBlank_nil hlist (more ++ rest)
        cases hmore with
        | @done after hafter =>
          obtain ⟨c, tail, rfl, hspace, hne⟩ := hlist.exists_first
          rw [List.nil_append, List.cons_append] at hread
          unfold readRootArray
          rw [List.append_assoc, List.append_assoc, Json.dropSpace_blank hblank, List.cons_append,
            Json.dropSpace_cons hspace]
          split
          · rename_i heq
            cases heq
          · rename_i heq
            exact absurd (List.cons.inj heq).1 hne
          · simp only [bind, Except.bind, hread]
            rw [List.append_assoc, Json.dropSpace_blank hafter, List.singleton_append,
              Json.dropSpace_cons (c := ']') rfl]
            rfl

/-- **The root of a program is read from every text that spells it.** -/
theorem readRoot_spelled {ts : List Tree} {j : Json}
    (h : Tree.SpelledBy .one (.node .program) (.node .program [.list ts]) j)
    (hdepth : j.depth ≤ Json.depthLimit) {blank cs : List Char} (hblank : IsBlank blank)
    (hcs : Json.SpelledBy j cs) (rest : List Char) :
    readRoot (blank ++ (cs ++ rest)) = .ok (ts, rest) := by
  have hlimit : Json.depthLimit = statementDepth + 2 + 1 := rfl
  unfold readRoot
  rw [Json.dropSpace_blank hblank]
  cases h with
  | object _ _ hgiven hunknown horder =>
    rw [Json.depth, hlimit, Nat.add_le_add_iff_right] at hdepth
    obtain ⟨inner, hmembers, rfl⟩ := hcs.exists_members
    obtain ⟨found, htakes, rfl⟩ := takesMembers_root hgiven hunknown horder hdepth
    rw [List.cons_append, Json.dropSpace_cons (c := '\x7b') rfl]
    simp only [bind, Except.bind, Json.readMembers_spelled _ htakes hmembers]
    rfl
  | array _ _ hfields =>
    rw [Json.depth, hlimit, Nat.add_le_add_iff_right] at hdepth
    obtain ⟨inner, hitems, rfl⟩ := hcs.exists_items
    rw [List.cons_append, Json.dropSpace_cons (c := '[') rfl]
    exact readRootArray_spelled hfields hdepth hitems rest

/-! ## 5. Programs -/

/-- **A program is read from every text that spells it.** -/
theorem ofText_spelled {p : Program} {j : Json} {text : String} (hp : p.SpelledBy j)
    (htext : j.IsWrittenIn text) (hdepth : j.depth ≤ 127) : ofText text = .ok p := by
  obtain ⟨before, cs, after, hbefore, hcs, hafter, heq⟩ := htext
  have hroot := readRoot_spelled hp hdepth hbefore hcs after
  have hend : Json.dropSpace after = [] := List.dropWhile_eq_nil_iff.mpr hafter
  have htrees : readTrees text = .ok (Stmt.toTrees p.statements) := by
    unfold readTrees
    simp only [heq, bind, Except.bind, hroot, hend]
    rfl
  unfold ofText
  simp only [htrees, bind, Except.bind, Stmt.ofTrees?_toTrees p.statements]
  rfl

end Program

/-- A text in which nothing has to be escaped spells itself. -/
theorem Json.charsSpelledBy_self : ∀ cs : List Char,
    (∀ c ∈ cs, 0x20 ≤ c.toNat ∧ c ≠ '"' ∧ c ≠ '\\') → CharsSpelledBy cs cs
  | [], _ => .nil
  | c :: cs, h => by
    obtain ⟨hcontrol, hquote, hslash⟩ := h c List.mem_cons_self
    have hrest := charsSpelledBy_self cs fun d hd => h d (List.mem_cons_of_mem _ hd)
    exact .cons (.plain hcontrol hquote hslash) hrest

end TreeScript
