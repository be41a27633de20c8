import TreeScript.Proofs.Program.Checked

/-!
# Every violation of the schema is refused

`Tree.SpelledBy` says which JSON values are read as a tree.  `Tree.DamagedBy` is the same relation
with one thing wrong, `Defect`, in the members of one node that is written as an object, however deep
it lies below others: in a list, at a field, in an array that stands for a node.

A damaged node is never decoded, `decode_damaged`.  Where the defect is, the members lack something
that `IsNode` requires, and the tag under which it is required is still the same, because a defect
in a field leaves the members `type` alone and one in the tag leaves no tag.  Above it, a field or
an item that is not decoded lets nothing around it be decoded.  Since what is loaded was decoded, no
text of a damaged value is loaded.
-/

namespace TreeScript

/-! ## 1. One defect -/

/-- Whether a member of this name gives the field. -/
def Field.IsNamed (f : Field) (name : String) : Prop := name = f.name ∨ f.otherName = some name

namespace Tree

/-- Values that may not stand at a field: a text that is no word of its vocabulary, something else
than a text where a text is required, and a single value where a list is. -/
inductive Misfit : Field → Json → Prop where
  | word {f : Field} {vocabulary : Vocabulary} {s : String} (hatom : f.atom = .word vocabulary)
      (hs : vocabulary.spellings.lookup s = none) : Misfit f (.text s)
  | text {f : Field} {j : Json} (hatom : f.atom = .text) (hcount : f.count = .one)
      (hj : ∀ s, j ≠ .text s) : Misfit f j
  | list {f : Field} {j : Json} (hcount : f.count = .many) (hj : j.IsLeaf) : Misfit f j

/-- **One thing wrong with the members of a node**: from the members as they should be to the
members as they are. -/
inductive Defect (cls : NodeClass) (tag : Tag) :
    List (String × Json) → List (String × Json) → Prop where
  | untagged {front back : List (String × Json)} {value : Json} (hnamed : tag.isNamed = true) :
      Defect cls tag (front ++ ("type", value) :: back) (front ++ back)
  | mistagged {front back : List (String × Json)} {value : Json} {s : String}
      (hnamed : tag.isNamed = true) (hs : s ∉ cls.tags.map Tag.word) :
      Defect cls tag (front ++ ("type", value) :: back) (front ++ ("type", .text s) :: back)
  | retagged {front back : List (String × Json)} {value : Json} (hnamed : tag.isNamed = true) :
      Defect cls tag (front ++ back) (front ++ ("type", value) :: back)
  | dropped {front back : List (String × Json)} {f : Field} {name : String} {value : Json}
      (hf : f ∈ tag.fields) (hname : f.IsNamed name) (hrequired : f.count = .one) :
      Defect cls tag (front ++ (name, value) :: back) (front ++ back)
  | replaced {front back : List (String × Json)} {f : Field} {name : String} {value misfit : Json}
      (hf : f ∈ tag.fields) (hname : f.IsNamed name) (hmisfit : Misfit f misfit) :
      Defect cls tag (front ++ (name, value) :: back) (front ++ (name, misfit) :: back)
  | repeated {front back : List (String × Json)} {f : Field} {name again : String}
      {value other : Json} (hf : f ∈ tag.fields) (hname : f.IsNamed name)
      (hmem : (name, value) ∈ front ++ back) (hagain : f.IsNamed again) :
      Defect cls tag (front ++ back) (front ++ (again, other) :: back)

/-! ## 2. Damaged spellings -/

mutual

/-- **The JSON values that spell a tree up to one defect in one of its nodes.** -/
inductive DamagedBy : Count → Atom → Tree → Json → Prop where
  | here {count : Count} {cls : NodeClass} {tag : Tag} {fields : List Tree}
      {members damaged : List (String × Json)}
      (h : SpelledBy count (.node cls) (.node tag fields) (.object members))
      (hdefect : Defect cls tag members damaged) :
      DamagedBy count (.node cls) (.node tag fields) (.object damaged)
  | list {atom : Atom} {items : List Tree} {js : List Json} (hitems : ItemDamagedBy atom items js) :
      DamagedBy .many atom (.list items) (.array js)
  | object {count : Count} (hcount : count ≠ .many) {cls : NodeClass} {tag : Tag}
      {fields : List Tree} {given unknown members : List (String × Json)} (htag : tag ∈ cls.tags)
      (hgiven : MemberDamagedBy tag.fields fields given) (hunknown : ∀ m ∈ unknown, tag.Ignores m.1)
      (horder : members.Perm (tag.naming ++ (given ++ unknown))) :
      DamagedBy count (.node cls) (.node tag fields) (.object members)
  | array {count : Count} (hcount : count ≠ .many) {cls : NodeClass} {tag : Tag}
      {fields : List Tree} {js : List Json} (htag : tag ∈ cls.tags)
      (hfields : PlaceDamagedBy tag.fields fields js) :
      DamagedBy count (.node cls) (.node tag fields) (.array (tag.naming.map Prod.snd ++ js))

/-- A defect in one of the items of a list. -/
inductive ItemDamagedBy : Atom → List Tree → List Json → Prop where
  | here {atom : Atom} {t : Tree} {rest : List Tree} {j : Json} {js : List Json}
      (h : DamagedBy .one atom t j) (hrest : AllSpelledBy atom rest js) :
      ItemDamagedBy atom (t :: rest) (j :: js)
  | later {atom : Atom} {t : Tree} {rest : List Tree} {j : Json} {js : List Json}
      (h : SpelledBy .one atom t j) (hrest : ItemDamagedBy atom rest js) :
      ItemDamagedBy atom (t :: rest) (j :: js)

/-- A defect in one of the fields of a node that is written as an array. -/
inductive PlaceDamagedBy : List Field → List Tree → List Json → Prop where
  | here {f : Field} {fields : List Field} {t : Tree} {rest : List Tree} {j : Json}
      {js : List Json} (h : DamagedBy f.count f.atom t j) (hrest : EachSpelledBy fields rest js) :
      PlaceDamagedBy (f :: fields) (t :: rest) (j :: js)
  | later {f : Field} {fields : List Field} {t : Tree} {rest : List Tree} {j : Json}
      {js : List Json} (h : SpelledBy f.count f.atom t j)
      (hrest : PlaceDamagedBy fields rest js) : PlaceDamagedBy (f :: fields) (t :: rest) (j :: js)

/-- A defect in one of the members that give the fields of a node. -/
inductive MemberDamagedBy : List Field → List Tree → List (String × Json) → Prop where
  | here {f : Field} {fields : List Field} {t : Tree} {rest : List Tree} {name : String}
      {j : Json} {given : List (String × Json)} (hname : f.IsNamed name)
      (h : DamagedBy f.count f.atom t j) (hrest : GivenBy fields rest given) :
      MemberDamagedBy (f :: fields) (t :: rest) ((name, j) :: given)
  | later {f : Field} {fields : List Field} {t : Tree} {rest : List Tree} {name : String}
      {j : Json} {given : List (String × Json)} (hname : f.IsNamed name)
      (h : SpelledBy f.count f.atom t j) (hrest : MemberDamagedBy fields rest given) :
      MemberDamagedBy (f :: fields) (t :: rest) ((name, j) :: given)
  | omitted {f : Field} {fields : List Field} {t : Tree} {rest : List Tree}
      {given : List (String × Json)} (h : Omissible f.count t)
      (hrest : MemberDamagedBy fields rest given) :
      MemberDamagedBy (f :: fields) (t :: rest) given

end

end Tree

/-- **The JSON values that spell a program up to one defect in one of its nodes.** -/
def Program.DamagedBy (p : Program) (j : Json) : Prop :=
  Tree.DamagedBy .one (.node .program) p.toTree j

namespace Tree

variable {cls : NodeClass} {tag : Tag} {members damaged : List (String × Json)}

/-! ## 3. Members with a defect -/

theorem field?_of_isNamed {f : Field} (hf : f ∈ tag.fields) {name : String}
    (hname : f.IsNamed name) : tag.field? name = some f :=
  find?_of_isCalled hf hname

/-- A value that may not stand at a field is not decoded there. -/
theorem Misfit.decode_ne_ok {f : Field} {j : Json} (h : Misfit f j) (t : Tree) :
    decode f.count f.atom j ≠ .ok t := by
  intro hdecode
  cases h with
  | @word vocabulary s hatom hs =>
    rw [hatom] at hdecode
    cases hcount : f.count <;>
      simp [hcount, decode, decodeLeaf, decodeWord, hs] at hdecode
  | text hatom hcount hj =>
    rw [hatom, hcount] at hdecode
    cases j with
    | text s => exact hj s rfl
    | _ => simp [decode, decodeLeaf] at hdecode
  | list hcount hj =>
    rw [hcount] at hdecode
    cases j with
    | array items => exact hj
    | object members => exact hj
    | _ => simp [decode, decodeLeaf] at hdecode

/-- A member that gives a field of a named node is not its tag. -/
theorem not_isTagging {f : Field} (hf : f ∈ tag.fields) {name : String} (hname : f.IsNamed name)
    (hnamed : tag.isNamed = true) (value : Json) : isTagging (name, value) = false :=
  decide_eq_false (ne_type_of_isCalled hnamed hf hname)

/-- Kinds of nodes of one class are named or they are the same. -/
theorem eq_of_record {other : Tag} (htag : tag ∈ cls.tags) (hother : other ∈ cls.tags)
    (hrecord : tag.isNamed = false) : other = tag := by
  have h := record?_eq htag
  rw [record?_eq hother, hrecord] at h
  cases hnamed : other.isNamed with
  | true => simp [hnamed] at h
  | false => simpa [hnamed] using h

theorem isNamed_eq {other : Tag} (htag : tag ∈ cls.tags) (hother : other ∈ cls.tags) :
    other.isNamed = tag.isNamed := by
  have h := record?_eq htag
  rw [record?_eq hother] at h
  cases hnamed : tag.isNamed <;> cases hnamed' : other.isNamed <;> simp_all

/-- Nodes with the same members `type` are of the same kind. -/
theorem IsNode.tag_eq {other : Tag} (h : IsNode cls tag members) (h' : IsNode cls other damaged)
    (hsame : tag.isNamed = true → damaged.filter isTagging = members.filter isTagging) :
    other = tag := by
  cases hnamed : tag.isNamed with
  | false => exact eq_of_record h.mem_tags h'.mem_tags hnamed
  | true =>
    obtain ⟨value, hvalue, htag⟩ := h.tagged hnamed
    obtain ⟨value', hvalue', hother⟩ :=
      h'.tagged ((isNamed_eq h.mem_tags h'.mem_tags).trans hnamed)
    rw [hsame hnamed, hvalue] at hvalue'
    cases hvalue'
    rw [htag] at hother
    cases hother
    rfl

theorem filter_middle {front back : List (String × Json)} {member : String × Json}
    (h : isTagging member = false) :
    (front ++ member :: back).filter isTagging = (front ++ back).filter isTagging := by
  rw [List.filter_append, List.filter_cons, h, List.filter_append]
  rfl

theorem filter_middle_type {front back : List (String × Json)} (value : Json) :
    ((front ++ ("type", value) :: back).filter isTagging).length =
      ((front ++ back).filter isTagging).length + 1 := by
  have htype : isTagging ("type", value) = true := rfl
  rw [List.filter_append, List.filter_cons_of_pos htype, List.filter_append]
  simp only [List.length_append, List.length_cons]
  omega

/-- A named node has one tag. -/
theorem IsNode.length_tagging (h : IsNode cls tag members) (hnamed : tag.isNamed = true) :
    (members.filter isTagging).length = 1 := by
  obtain ⟨value, hvalue, -⟩ := h.tagged hnamed
  rw [hvalue]
  rfl

theorem giveApart_symm {fields : List Field} {a b : String × Json} (h : GiveApart fields a b) :
    GiveApart fields b a := fun f hb ha => h f ha hb

/-- No other member gives a field that is given. -/
theorem IsNode.giveApart_middle {front back : List (String × Json)} {member : String × Json}
    (h : IsNode cls tag (front ++ member :: back)) :
    ∀ m ∈ front ++ back, GiveApart tag.fields member m := by
  have honce := h.once
  rw [List.pairwise_middle giveApart_symm] at honce
  exact fun m hm => List.rel_of_pairwise_cons honce hm

/-- **Members with a defect are no node's**, if without it they are. -/
theorem Defect.not_isNode (hdefect : Defect cls tag members damaged) (h : IsNode cls tag members)
    (other : Tag) : ¬ IsNode cls other damaged := by
  intro h'
  have hsame := isNamed_eq h.mem_tags h'.mem_tags
  cases hdefect with
  | @untagged front back value hnamed =>
    have hone := h.length_tagging hnamed
    have hleft := h'.length_tagging (hsame.trans hnamed)
    rw [filter_middle_type] at hone
    omega
  | @mistagged front back value s hnamed hs =>
    obtain ⟨given, hgiven, htag⟩ := h'.tagged (hsame.trans hnamed)
    have hmem : ("type", Json.text s) ∈ (front ++ ("type", .text s) :: back).filter isTagging :=
      List.mem_filter.mpr ⟨List.mem_append_right _ List.mem_cons_self, rfl⟩
    rw [hgiven, List.mem_singleton] at hmem
    cases hmem
    obtain ⟨hother, rfl⟩ := tagOfWord_eq_ok htag
    exact hs (List.mem_map_of_mem hother)
  | @retagged front back value hnamed =>
    have hone := h.length_tagging hnamed
    have htwo := h'.length_tagging (hsame.trans hnamed)
    rw [filter_middle_type] at htwo
    omega
  | @dropped front back f name value hf hname hrequired =>
    obtain rfl := h.tag_eq h' fun hnamed => (filter_middle (not_isTagging hf hname hnamed value)).symm
    obtain ⟨m, hm, hgives⟩ := h'.required f hf hrequired
    exact h.giveApart_middle m hm f (field?_of_isNamed hf hname) hgives
  | @replaced front back f name value misfit hf hname hmisfit =>
    obtain rfl := h.tag_eq h' fun hnamed => by
      rw [filter_middle (not_isTagging hf hname hnamed misfit),
        filter_middle (not_isTagging hf hname hnamed value)]
    have hmem : (name, misfit) ∈ front ++ (name, misfit) :: back :=
      List.mem_append_right _ List.mem_cons_self
    obtain ⟨t, ht⟩ := h'.decoded _ hmem f (field?_of_isNamed hf hname)
    exact hmisfit.decode_ne_ok t ht
  | @repeated front back f name again value other hf hname hmem hagain =>
    obtain rfl := h.tag_eq h' fun hnamed => filter_middle (not_isTagging hf hagain hnamed other)
    exact h'.giveApart_middle _ hmem f (field?_of_isNamed hf hagain) (field?_of_isNamed hf hname)

/-! ## 4. Damaged spellings are not decoded -/

theorem MemberDamagedBy.exists_field : ∀ {fields : List Field} {ts : List Tree}
    {given : List (String × Json)}, MemberDamagedBy fields ts given →
    ∀ m ∈ given, ∃ f ∈ fields, f.IsNamed m.1
  | f :: _, _, _, .here hname _ hrest, m, hm => by
    rcases List.mem_cons.mp hm with rfl | hm
    · exact ⟨f, List.mem_cons_self, hname⟩
    · obtain ⟨g, hg, hname⟩ := hrest.exists_field m hm
      exact ⟨g, List.mem_cons_of_mem _ hg, hname⟩
  | f :: _, _, _, .later hname _ hrest, m, hm => by
    rcases List.mem_cons.mp hm with rfl | hm
    · exact ⟨f, List.mem_cons_self, hname⟩
    · obtain ⟨g, hg, hname⟩ := hrest.exists_field m hm
      exact ⟨g, List.mem_cons_of_mem _ hg, hname⟩
  | _ :: _, _, _, .omitted _ hrest, m, hm => by
    obtain ⟨g, hg, hname⟩ := hrest.exists_field m hm
    exact ⟨g, List.mem_cons_of_mem _ hg, hname⟩

/-- A defect below a member of a node leaves the tag of the node where it is. -/
theorem objectTag_damaged {fields : List Tree} {given unknown : List (String × Json)}
    (htag : tag ∈ cls.tags) (hgiven : MemberDamagedBy tag.fields fields given)
    (hunknown : ∀ m ∈ unknown, tag.Ignores m.1)
    (horder : members.Perm (tag.naming ++ (given ++ unknown))) :
    objectTag cls members = .ok tag := by
  refine objectTag_perm horder.symm (objectTag_naming htag fun hnamed m hm => ?_)
  rcases List.mem_append.mp hm with hm | hm
  · obtain ⟨f, hf, hname⟩ := hgiven.exists_field m hm
    exact ne_type_of_isCalled hnamed hf hname
  · exact (hunknown m hm).not_tag hnamed

/-- A node with a defect in its own members is not decoded. -/
theorem Defect.decode_ne_ok {count : Count} {fields : List Tree}
    (hdefect : Defect cls tag members damaged)
    (h : SpelledBy count (.node cls) (.node tag fields) (.object members)) (t : Tree) :
    decode count (.node cls) (.object damaged) ≠ .ok t := by
  intro hdecode
  have hcount : count ≠ .many := by
    cases h
    assumption
  obtain ⟨_, _, htree, -, hnode⟩ := isNode_of_decode hcount (decode_spelled _ h)
  cases htree
  obtain ⟨other, _, -, -, hdamaged⟩ := isNode_of_decode hcount hdecode
  exact hdefect.not_isNode hnode other hdamaged

mutual

/-- **What is damaged is not decoded.** -/
theorem DamagedBy.decode_ne_ok : ∀ {count : Count} {atom : Atom} {t : Tree} {j : Json},
    DamagedBy count atom t j → ∀ u, decode count atom j ≠ .ok u
  | _, _, _, _, .here h hdefect, u => hdefect.decode_ne_ok h u
  | _, _, _, _, .list hitems, u => by
    intro hdecode
    rw [decode] at hdecode
    obtain ⟨ts, hts, -⟩ := map_eq_ok.mp hdecode
    exact hitems.decode_ne_ok ts hts
  | _, _, _, _, .object hcount htag hgiven hunknown horder, u => by
    intro hdecode
    obtain ⟨_, _, -, htag', hnode⟩ := isNode_of_decode hcount hdecode
    rw [objectTag_damaged htag hgiven hunknown horder] at htag'
    cases htag'
    obtain ⟨m, hm, f, hf, hname, hrefused⟩ := hgiven.exists_refused
    have hmem := horder.mem_iff.mpr (List.mem_append_right _ (List.mem_append_left _ hm))
    obtain ⟨v, hv⟩ := hnode.decoded m hmem f (field?_of_isNamed hf hname)
    exact hrefused v hv
  | _, _, _, _, .array hcount htag hfields, u => by
    intro hdecode
    rw [decode_array hcount htag] at hdecode
    obtain ⟨ts, hts, -⟩ := map_eq_ok.mp hdecode
    exact hfields.decodePositions_ne_ok hts

theorem ItemDamagedBy.decode_ne_ok : ∀ {atom : Atom} {items : List Tree} {js : List Json},
    ItemDamagedBy atom items js → ∀ ts, decodeItems atom js ≠ .ok ts
  | _, _, _, .here h _, ts => by
    intro hdecode
    obtain ⟨t, ht, -⟩ := bind_eq_ok.mp hdecode
    exact h.decode_ne_ok t ht
  | _, _, _, .later _ hrest, ts => by
    intro hdecode
    obtain ⟨t, -, hthen⟩ := bind_eq_ok.mp hdecode
    obtain ⟨ts, hts, -⟩ := bind_eq_ok.mp hthen
    exact hrest.decode_ne_ok ts hts

theorem PlaceDamagedBy.decodePositions_ne_ok {tag : Tag} : ∀ {fields : List Field}
    {ts : List Tree} {js : List Json}, PlaceDamagedBy fields ts js → ∀ {given : Nat}
    {us : List Tree}, decodePositions tag fields given js ≠ .ok us
  | _, _, _, .here h _, given, us => by
    intro hdecode
    obtain ⟨t, ht, -⟩ := bind_eq_ok.mp hdecode
    exact h.decode_ne_ok t ht
  | _, _, _, .later _ hrest, given, us => by
    intro hdecode
    obtain ⟨t, -, hthen⟩ := bind_eq_ok.mp hdecode
    obtain ⟨ts, hts, -⟩ := bind_eq_ok.mp hthen
    exact hrest.decodePositions_ne_ok hts

theorem MemberDamagedBy.exists_refused : ∀ {fields : List Field} {ts : List Tree}
    {given : List (String × Json)}, MemberDamagedBy fields ts given → ∃ m ∈ given,
    ∃ f ∈ fields, f.IsNamed m.1 ∧ ∀ u, decode f.count f.atom m.2 ≠ .ok u
  | f :: _, _, _, .here hname h _ =>
    ⟨_, List.mem_cons_self, f, List.mem_cons_self, hname, h.decode_ne_ok⟩
  | _ :: _, _, _, .later _ _ hrest => by
    obtain ⟨m, hm, f, hf, hrefused⟩ := hrest.exists_refused
    exact ⟨m, List.mem_cons_of_mem _ hm, f, List.mem_cons_of_mem _ hf, hrefused⟩
  | _ :: _, _, _, .omitted _ hrest => by
    obtain ⟨m, hm, f, hf, hrefused⟩ := hrest.exists_refused
    exact ⟨m, hm, f, List.mem_cons_of_mem _ hf, hrefused⟩

end

end Tree

/-! ## 5. Loading -/

/-- **Every violation of the schema is refused.**  However a program is laid out in a JSON value,
if one node of the value has one defect, then no text of the value is loaded: the error says
that the tree is malformed. -/
theorem Launch.programOfText_damaged (p : Program) (j : Json) (text : String)
    (hp : p.DamagedBy j) (htext : j.IsWrittenIn text) :
    ∃ e, programOfText text = .error e ∧ e.kind = .malformedTree := by
  unfold programOfText
  cases hload : Program.ofText text with
  | error e => exact ⟨_, rfl, rfl⟩
  | ok q =>
    obtain ⟨ts, -, hdecode⟩ := Program.decode_of_ofText htext hload
    exact absurd hdecode (hp.decode_ne_ok _)

/-- The kind of an expression stands where a statement should, inside a block. -/
theorem Launch.programOfText_misplaced : ∃ e,
    programOfText ("\x7b\"statements\":[\x7b\"type\":\"block\"," ++
      "\"statements\":[\x7b\"type\":\"sequence\"\x7d]\x7d]\x7d") = .error e ∧
    e.kind = .malformedTree := by
  refine programOfText_damaged ⟨[.block [.giveBack none]]⟩ (.object [("statements", .array
    [.object [("type", .text "block"), ("statements", .array
      [.object [("type", .text "sequence")]])]])]) _ ?_ ?_
  · have hreturn : Tree.SpelledBy .one (.node .statement) (.node .giveBack [.absent])
        (.object [("type", .text "return")]) :=
      .object (by decide) (by decide) (.omitted .absent .nil)
        (fun _ hm => absurd hm List.not_mem_nil) (.refl _)
    have hdefect : Tree.Defect .statement .giveBack [("type", .text "return")]
        [("type", .text "sequence")] :=
      @Tree.Defect.mistagged _ _ [] [] _ _ (by decide) (by decide)
    have hblock : Tree.DamagedBy .one (.node .statement)
        (.node .block [.list [.node .giveBack [.absent]]])
        (.object [("type", .text "block"), ("statements", .array
          [.object [("type", .text "sequence")]])]) :=
      .object (by decide) (by decide)
        (.here (.inl rfl) (.list (.here (.here hreturn hdefect) .nil)) .nil)
        (fun _ hm => absurd hm List.not_mem_nil) (.refl _)
    exact .object (by decide) (by decide) (.here (.inl rfl) (.list (.here hblock .nil)) .nil)
      (fun _ hm => absurd hm List.not_mem_nil) (.refl _)
  · have hnil := Json.isBlank_nil
    have hchars (s : String) (h : ∀ c ∈ s.toList, 0x20 ≤ c.toNat ∧ c ≠ '"' ∧ c ≠ '\\') :
        Json.CharsSpelledBy s.toList s.toList := Json.charsSpelledBy_self s.toList h
    have hsequence := Json.SpelledBy.object
      (.some hnil (.intro (hchars "type" (by simp)) hnil hnil
        (.text (hchars "sequence" (by simp)))) (.done hnil))
    have hblock := Json.SpelledBy.object
      (.some hnil (.intro (hchars "type" (by simp)) hnil hnil (.text (hchars "block" (by simp))))
        (.next hnil hnil (.intro (hchars "statements" (by simp)) hnil hnil
          (.array (.some hnil hsequence (.done hnil)))) (.done hnil)))
    refine ⟨[], _, [], hnil, .object (.some hnil (.intro (hchars "statements" (by simp)) hnil hnil
      (.array (.some hnil hblock (.done hnil)))) (.done hnil)), hnil, ?_⟩
    decide +kernel

end TreeScript
