import TreeScript.Proofs.Program.Accepted
import TreeScript.Proofs.Program.SpelledLoading

/-!
# What is loaded was decoded

The root of a program and its top-level statements are checked while their text is read, everything
below them after it was read.  If a text of a JSON value is loaded, then the value as a whole is one
that the decoder accepts, and with the same result: `decode_of_ofText`.  So what is known of values
that are decoded is known of texts that are loaded.

The converse does not hold.  The decoder has no limit on nesting, and it takes the place of a kind
of node for its name where the reader wants the name.
-/

namespace TreeScript.Program

open Json (Separated IsBlank MembersSpelledBy ItemsSpelledBy Gives KeepsMembers)

variable {cs blank rest : List Char} {limit : Nat}

/-! ## 1. Tags -/

theorem refuseValue_ne_ok {α : Type} (expected : String) (cs : List Char)
    (r : α × List Char) : refuseValue expected cs ≠ .ok r := by
  intro h
  unfold refuseValue at h
  split at h
  · cases h
  · cases h
  · split at h <;> cases h

/-- What is spelled with a quote in front is a text. -/
theorem eq_text_of_quote {j : Json} {tail : List Char} (h : Json.SpelledBy j ('"' :: tail)) :
    ∃ s, j = .text s := by
  have hleaf (hj : j.IsLeaf) : ∃ s, j = .text s := by
    have hread := Json.readLeaf_spelled h hj Json.separated_nil
    rw [List.append_nil, Json.readLeaf, if_pos rfl] at hread
    obtain ⟨r, -, heq⟩ := map_eq_ok.mp hread
    exact ⟨r.1, (congrArg Prod.fst heq).symm⟩
  cases j with
  | array items =>
    obtain ⟨_, -, heq⟩ := h.exists_items
    cases heq
  | object members =>
    obtain ⟨_, -, heq⟩ := h.exists_members
    cases heq
  | _ => exact hleaf trivial

theorem readTag_blank (h : IsBlank blank) (cs : List Char) : readTag (blank ++ cs) = readTag cs := by
  unfold readTag
  rw [Json.dropSpace_blank h]

/-- The tag that is read is the one that the value names. -/
theorem readTag_gives (j : Json) :
    Gives readTag j fun tag => Tree.decodeTag .statement j = .ok tag := by
  intro cs rest hcs hrest tag rest' h
  obtain ⟨c, tail, rfl, hspace, -⟩ := hcs.exists_first
  unfold readTag at h
  rw [List.cons_append, Json.dropSpace_cons hspace] at h
  split at h
  · rename_i heq
    obtain ⟨rfl, rfl⟩ := List.cons.inj heq
    obtain ⟨s, rfl⟩ := eq_text_of_quote hcs
    obtain ⟨inner, hinner, heq⟩ := hcs.exists_inner
    obtain ⟨-, rfl⟩ := List.cons.inj heq
    rw [List.append_assoc, List.singleton_append, Json.readString_inner hinner] at h
    obtain ⟨_, heq, hthen⟩ := bind_eq_ok.mp h
    cases heq
    obtain ⟨named, hnamed, hend⟩ := bind_eq_ok.mp hthen
    cases hend
    exact ⟨mapError_eq_ok.mp hnamed, rfl⟩
  · exact absurd h (refuseValue_ne_ok _ _ _)

/-! ## 2. Statements -/

/-- What is known of a statement after some of its members: the tag, if it is among them, and the
others, the last one first. -/
structure IsOpened (front : List (String × Json)) (opened : Opened) : Prop where
  tag : Tree.findTag .statement none front = .ok opened.1
  kept : opened.2 = (front.filter fun m => !isTagging m).reverse

theorem isOpened_nil : IsOpened [] (none, []) := ⟨rfl, rfl⟩

theorem IsOpened.tagged {front : List (String × Json)} {opened : Opened}
    (h : IsOpened front opened) (hnone : opened.1 = none) {member : String × Json}
    (hname : member.1 = "type") {tag : Tag}
    (htag : Tree.decodeTag .statement member.2 = .ok tag) :
    IsOpened (front ++ [member]) (some tag, opened.2) := by
  have hdrop : (!isTagging member) = false := by simp [isTagging, hname]
  refine ⟨?_, ?_⟩
  · rw [Tree.findTag_append, h.tag, hnone]
    simp only [bind, Except.bind, Tree.findTag, hname, if_true, htag]
    rfl
  · rw [List.filter_append, List.filter_cons, hdrop, h.kept]
    simp

theorem IsOpened.kept_one {front : List (String × Json)} {opened : Opened}
    (h : IsOpened front opened) {member : String × Json} (hname : member.1 ≠ "type") :
    IsOpened (front ++ [member]) (opened.1, member :: opened.2) := by
  have hkeep : (!isTagging member) = true := by simp [isTagging, hname]
  refine ⟨?_, ?_⟩
  · rw [Tree.findTag_append, h.tag]
    simp only [bind, Except.bind, Tree.findTag, if_neg hname]
  · rw [List.filter_append, List.filter_cons, hkeep, h.kept]
    simp

theorem keeps_opened (limit : Nat) (members : List (String × Json)) :
    KeepsMembers (readStatementMember limit) IsOpened members := by
  intro member _ front opened hopened blank before cs rest hblank hbefore hcs hrest s' rest' h
  unfold readStatementMember at h
  by_cases hname : member.1 = "type"
  · rw [if_pos hname] at h
    split at h
    · cases h
    · rename_i hnone
      rw [Json.readColon_blank _ hblank] at h
      obtain ⟨_, heq, hthen⟩ := bind_eq_ok.mp h
      cases heq
      rw [readTag_blank hbefore] at hthen
      obtain ⟨⟨tag, _⟩, htag, hend⟩ := bind_eq_ok.mp hthen
      obtain ⟨hdecode, rfl⟩ := readTag_gives member.2 hcs hrest htag
      cases hend
      exact ⟨hopened.tagged (by simpa using hnone) hname hdecode, rfl⟩
  · rw [if_neg hname, Json.readColon_blank _ hblank] at h
    obtain ⟨_, heq, hthen⟩ := bind_eq_ok.mp h
    cases heq
    rw [Json.readValue_blank hbefore] at hthen
    obtain ⟨⟨value, _⟩, hread, hend⟩ := bind_eq_ok.mp hthen
    obtain ⟨rfl, rfl⟩ := Json.readValue_gives limit member.2 hcs hrest (mapError_eq_ok.mp hread)
    cases hend
    exact ⟨hopened.kept_one hname, rfl⟩

theorem readStatementObject_gives {members : List (String × Json)}
    (hcs : MembersSpelledBy members cs) {t : Tree} {rest' : List Char}
    (h : readStatementObject limit (cs ++ rest) = .ok (t, rest')) :
    Tree.decode .one (.node .statement) (.object members) = .ok t ∧ rest' = rest := by
  unfold readStatementObject at h
  obtain ⟨⟨⟨tag?, others⟩, _⟩, hread, hthen⟩ := bind_eq_ok.mp h
  obtain ⟨⟨htag, hkept⟩, rfl⟩ :=
    Json.readMembers_gives _ (keeps_opened limit members) isOpened_nil hcs hread
  cases tag? with
  | none => cases hthen
  | some tag =>
    obtain ⟨tree, htree, hend⟩ := bind_eq_ok.mp hthen
    cases hend
    have hobject : Tree.objectTag .statement members = .ok tag := by
      unfold Tree.objectTag
      simp only [NodeClass.record?, htag, bind, Except.bind]
      rfl
    have hnamed := isNamed_statement (Tree.mem_tags_of_objectTag hobject)
    have hfields : Tree.ofMembers tag members = .ok t := by
      have hothers := mapError_eq_ok.mp htree
      dsimp only at hkept
      rwa [hkept, List.reverse_reverse, Tree.ofMembers_untagged hnamed] at hothers
    rw [Tree.decode_object (by decide), hobject]
    exact ⟨hfields, rfl⟩

theorem readStatementArray_gives {items : List Json} (hcs : ItemsSpelledBy items cs) {t : Tree}
    {rest' : List Char} (h : readStatementArray limit (cs ++ rest) = .ok (t, rest')) :
    Tree.decode .one (.node .statement) (.array items) = .ok t ∧ rest' = rest := by
  unfold readStatementArray at h
  cases hcs with
  | none hblank =>
    rw [List.append_assoc, Json.dropSpace_blank hblank] at h
    cases h
  | @some first js blank cs more hblank hfirst hmore =>
    have htagged := readTag_gives first hfirst (hmore.separated rest)
    obtain ⟨c, tail, rfl, hspace, hend⟩ := hfirst.exists_first
    rw [List.append_assoc, List.append_assoc, Json.dropSpace_blank hblank, List.cons_append,
      Json.dropSpace_cons hspace] at h
    split at h
    · cases h
    · cases h
    · obtain ⟨⟨tag, _⟩, htag, hthen⟩ := bind_eq_ok.mp h
      obtain ⟨hdecode, rfl⟩ := htagged htag
      obtain ⟨⟨others, _⟩, hread, hfields⟩ := bind_eq_ok.mp hthen
      obtain ⟨hall, rfl⟩ := Json.readMoreItems_gives id rest
        (fun j _ => Json.readValue_gives limit j) hmore (mapError_eq_ok.mp hread)
      rw [List.forall₂_eq_eq_eq] at hall
      subst hall
      obtain ⟨tree, htree, hend⟩ := bind_eq_ok.mp hfields
      cases hend
      have hpositions : Tree.ofPositions tag others = .ok t := mapError_eq_ok.mp htree
      have harray : Tree.decode .one (.node .statement) (.array (first :: others)) = (do
          let tag ← Tree.decodeTag .statement first
          Tree.ofPositions tag others) := by
        simp only [Tree.decode, NodeClass.record?]
        rfl
      rw [harray, hdecode]
      exact ⟨hpositions, rfl⟩

theorem readStatements_blank (h : IsBlank blank) (cs : List Char) :
    readStatements limit (blank ++ cs) = readStatements limit cs := by
  unfold readStatements
  rw [Json.dropSpace_blank h]

theorem readRoot_blank (h : IsBlank blank) (cs : List Char) :
    readRoot (blank ++ cs) = readRoot cs := by
  unfold readRoot
  rw [Json.dropSpace_blank h]

theorem readStatement_leaf {j : Json} (hleaf : j.IsLeaf) (hcs : Json.SpelledBy j cs)
    (hrest : Separated rest) (r : Tree × List Char) : readStatement limit (cs ++ rest) ≠ .ok r := by
  obtain ⟨c, tail, heq, ⟨hspace, -⟩, harray, hobject⟩ :=
    Json.exists_of_readLeaf (Json.readLeaf_spelled hcs hleaf hrest)
  intro h
  unfold readStatement at h
  rw [heq, Json.dropSpace_cons hspace] at h
  split at h
  · rename_i heq
    exact harray (List.cons.inj heq).1
  · rename_i heq
    exact hobject (List.cons.inj heq).1
  · exact refuseValue_ne_ok _ _ _ h

/-- **The tree that is read of a statement is the one that is decoded.** -/
theorem readStatement_gives (limit : Nat) (j : Json) :
    Gives (readStatement limit) j fun t => Tree.decode .one (.node .statement) j = .ok t := by
  intro cs rest hcs hrest t rest' h
  cases j with
  | array items =>
    obtain ⟨inner, hinner, rfl⟩ := hcs.exists_items
    exact readStatementArray_gives hinner h
  | object members =>
    obtain ⟨inner, hinner, rfl⟩ := hcs.exists_members
    exact readStatementObject_gives hinner h
  | _ => exact absurd h (readStatement_leaf (by trivial) hcs hrest _)

theorem decodeItems_of_forall₂ {atom : Atom} {ts : List Tree} {js : List Json}
    (h : List.Forall₂ (fun t j => Tree.decode .one atom j = .ok t) ts js) :
    Tree.decodeItems atom js = .ok ts := by
  induction h with
  | nil => rw [Tree.decodeItems]
  | cons hhead _ ih =>
    rw [Tree.decodeItems, hhead, ih]
    rfl

/-- **The list of the statements is read as it is decoded.** -/
theorem readStatements_gives (limit : Nat) (j : Json) : Gives (readStatements limit) j fun ts =>
    Tree.decode .many (.node .statement) j = .ok (.list ts) := by
  intro cs rest hcs hrest ts rest' h
  cases j with
  | array items =>
    obtain ⟨inner, hinner, rfl⟩ := hcs.exists_items
    obtain ⟨hall, rfl⟩ := Json.readItems_gives LoadError.json
      (fun j _ => readStatement_gives limit j) hinner h
    rw [Tree.decode, decodeItems_of_forall₂ hall]
    exact ⟨rfl, rfl⟩
  | object members =>
    obtain ⟨inner, -, rfl⟩ := hcs.exists_members
    have hrefuse : readStatements limit ('\x7b' :: inner ++ rest) =
        refuseValue "a sequence" ('\x7b' :: inner ++ rest) := rfl
    exact absurd (hrefuse ▸ h) (refuseValue_ne_ok _ _ _)
  | _ =>
    obtain ⟨c, tail, heq, ⟨hspace, -⟩, harray, -⟩ :=
      Json.exists_of_readLeaf (Json.readLeaf_spelled hcs trivial hrest)
    unfold readStatements at h
    rw [heq, Json.dropSpace_cons hspace] at h
    split at h
    · rename_i heq
      exact absurd (List.cons.inj heq).1 harray
    · exact absurd h (refuseValue_ne_ok _ _ _)

/-! ## 3. The root -/

/-- What is known of the root after some of its members: the list of the statements, if it is among
them, and nothing else is found. -/
def IsFound (front : List (String × Json)) (found : Option (List Tree)) : Prop :=
  ∃ r, Tree.decodeMembers Tag.program.fields [] front = .ok r ∧
    r.lookup "statements" = found.map .list

theorem keeps_found (members : List (String × Json)) :
    KeepsMembers readRootMember IsFound members := by
  intro member _ front found hfound blank before cs rest hblank hbefore hcs hrest s' rest' h
  obtain ⟨r, hdecode, hlookup⟩ := hfound
  have hnext : Tree.decodeMembers Tag.program.fields [] (front ++ [member]) =
      Tree.decodeMembers Tag.program.fields r [member] := by
    rw [Tree.decodeMembers_append, hdecode]
    rfl
  unfold readRootMember at h
  by_cases hname : member.1 = "statements"
  · rw [if_pos hname] at h
    split at h
    · cases h
    · rename_i hnone
      rw [Json.readColon_blank _ hblank] at h
      obtain ⟨_, heq, hthen⟩ := bind_eq_ok.mp h
      cases heq
      rw [readStatements_blank hbefore] at hthen
      obtain ⟨⟨ts, _⟩, hread, hend⟩ := bind_eq_ok.mp hthen
      obtain ⟨hlist, rfl⟩ := readStatements_gives _ member.2 hcs hrest hread
      cases hend
      have hfound : found = none := by simpa using hnone
      rw [hfound] at hlookup
      refine ⟨⟨("statements", .list ts) :: r, hnext.trans ?_, rfl⟩, rfl⟩
      have hfind : Tag.program.fields.find? (fun f => f.isCalled member.1) =
          some ⟨"statements", .node .statement, .many, none⟩ := by
        rw [hname]
        rfl
      exact Tree.decodeMembers_cons.mpr
        (.inr ⟨_, .list ts, hfind, hlookup, hlist, by rw [Tree.decodeMembers]⟩)
  · rw [if_neg hname, Json.readColon_blank _ hblank] at h
    obtain ⟨_, heq, hthen⟩ := bind_eq_ok.mp h
    cases heq
    rw [Json.skipValue_spelled member.2 hbefore hcs hrest] at hthen
    cases hthen
    have hunknown : Tag.program.fields.find? (fun f => f.isCalled member.1) = none := by
      simp [Tag.fields, Field.isCalled, Ne.symm hname]
    refine ⟨⟨r, hnext.trans ?_, hlookup⟩, rfl⟩
    exact Tree.decodeMembers_cons.mpr (.inl ⟨hunknown, by rw [Tree.decodeMembers]⟩)

theorem readRootObject_gives {members : List (String × Json)} (hcs : MembersSpelledBy members cs)
    {ts : List Tree} {rest' : List Char} (h : readRoot ('\x7b' :: (cs ++ rest)) = .ok (ts, rest')) :
    Tree.decode .one (.node .program) (.object members) = .ok (.node .program [.list ts]) ∧
      rest' = rest := by
  have hroot : readRoot ('\x7b' :: (cs ++ rest)) = (do
      let r ← Json.readMembers .json readRootMember none (cs ++ rest)
      return (r.1.getD [], r.2)) := rfl
  rw [hroot] at h
  obtain ⟨⟨found, _⟩, hread, hend⟩ := bind_eq_ok.mp h
  obtain ⟨⟨r, hdecode, hlookup⟩, rfl⟩ :=
    Json.readMembers_gives _ (keeps_found members) ⟨[], rfl, rfl⟩ hcs hread
  cases hend
  have hassemble : Tree.assemble r Tag.program.fields = .ok [.list (found.getD [])] := by
    refine Tree.assemble_or_default (.cons ?_ .nil)
    cases found with
    | none => exact .inr ⟨hlookup, rfl⟩
    | some ts => exact .inl hlookup
  have hfields : Tree.ofMembers .program members =
      .ok (.node .program [.list (found.getD [])]) := by
    unfold Tree.ofMembers
    rw [hdecode]
    simp only [bind, Except.bind, hassemble]
    rfl
  rw [Tree.decode_object (by decide)]
  exact ⟨hfields, rfl⟩

theorem readRootArray_gives {items : List Json} (hcs : ItemsSpelledBy items cs) {ts : List Tree}
    {rest' : List Char} (h : readRootArray (cs ++ rest) = .ok (ts, rest')) :
    Tree.decode .one (.node .program) (.array items) = .ok (.node .program [.list ts]) ∧
      rest' = rest := by
  have harray : Tree.decode .one (.node .program) (.array items) =
      Tree.ofPositions .program items := by
    have hone : Count.one ≠ .many := by decide
    have htag : Tag.program ∈ NodeClass.program.tags := by decide
    exact Tree.decode_array hone htag items
  unfold readRootArray at h
  rw [harray, Tree.ofPositions]
  cases hcs with
  | none hblank =>
    rw [List.append_assoc, Json.dropSpace_blank hblank] at h
    cases h
    rw [Tree.decodePositions]
    exact ⟨rfl, rfl⟩
  | @some list js blank cs more hblank hlist hmore =>
    have hgives := readStatements_gives statementDepth list hlist (hmore.separated rest)
    obtain ⟨c, tail, rfl, hspace, hfirst⟩ := hlist.exists_first
    rw [List.append_assoc, List.append_assoc, Json.dropSpace_blank hblank, List.cons_append,
      Json.dropSpace_cons hspace] at h
    split at h
    · cases h
    · rename_i heq
      exact absurd (List.cons.inj heq).1 hfirst
    · obtain ⟨⟨statements, _⟩, hread, hthen⟩ := bind_eq_ok.mp h
      obtain ⟨hdecode, rfl⟩ := hgives hread
      cases hmore with
      | done hafter =>
        simp only [List.append_assoc, Json.dropSpace_blank hafter] at hthen
        cases hthen
        have hpositions : Tree.decodePositions .program Tag.program.fields 0 [list] = (do
            let t ← Tree.decode .many (.node .statement) list
            return [t]) := by
          simp only [Tree.decodePositions, Tag.fields]
          rfl
        rw [hpositions, hdecode]
        exact ⟨rfl, rfl⟩
      | next hafter _ _ _ =>
        -- after the list of the statements nothing else may follow
        simp only [List.append_assoc, Json.dropSpace_blank hafter, List.cons_append,
          Json.dropSpace_cons (c := ',') rfl] at hthen
        split at hthen <;> cases hthen

/-- **The root is read as it is decoded.** -/
theorem readRoot_gives (j : Json) : Gives readRoot j fun ts =>
    Tree.decode .one (.node .program) j = .ok (.node .program [.list ts]) := by
  intro cs rest hcs hrest ts rest' h
  cases j with
  | array items =>
    obtain ⟨inner, hinner, rfl⟩ := hcs.exists_items
    exact readRootArray_gives hinner h
  | object members =>
    obtain ⟨inner, hinner, rfl⟩ := hcs.exists_members
    exact readRootObject_gives hinner h
  | _ =>
    obtain ⟨c, tail, heq, ⟨hspace, -⟩, harray, hobject⟩ :=
      Json.exists_of_readLeaf (Json.readLeaf_spelled hcs (by trivial) hrest)
    unfold readRoot at h
    rw [heq, Json.dropSpace_cons hspace] at h
    split at h
    · rename_i heq
      exact absurd (List.cons.inj heq).1 harray
    · rename_i heq
      exact absurd (List.cons.inj heq).1 hobject
    · exact absurd h (refuseValue_ne_ok _ _ _)

/-! ## 4. Programs -/

/-- **A value that is loaded from one of its texts is decoded**, into the tree of the program. -/
theorem decode_of_ofText {j : Json} {text : String} {p : Program} (htext : j.IsWrittenIn text)
    (h : ofText text = .ok p) : ∃ ts, Stmt.ofTrees? ts = some p.statements ∧
      Tree.decode .one (.node .program) j = .ok (.node .program [.list ts]) := by
  obtain ⟨before, cs, after, hbefore, hcs, hafter, heq⟩ := htext
  unfold ofText at h
  obtain ⟨ts, htrees, hend⟩ := bind_eq_ok.mp h
  have hstatements : Stmt.ofTrees? ts = some p.statements := by
    split at hend
    · rename_i statements hsome
      cases hend
      exact hsome
    · cases hend
  unfold readTrees at htrees
  obtain ⟨⟨trees, _⟩, hread, hthen⟩ := bind_eq_ok.mp htrees
  rw [heq, readRoot_blank hbefore, ← List.append_nil after] at hread
  obtain ⟨hdecode, -⟩ := readRoot_gives j hcs (Json.separated_nil.after_blank hafter) hread
  dsimp only at hthen
  split at hthen
  · cases hthen
    exact ⟨ts, hstatements, hdecode⟩
  · cases hthen

end TreeScript.Program
