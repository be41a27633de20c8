import TreeScript.Proofs.Program.Order

/-!
# The JSON values that spell a tree

`Tree.toJson` writes a tree in one way, and a producer of programs may write it in others.  At every
node, independently of all others, the choice is between an object and an array.  An object holds its
members in any order; a field may go by its other name, a field that is empty or absent may be left
out, and members that the node does not know may stand between the others.  An array holds the tag
of a named node and then all fields in their order.  Below that, a word may be given in another
spelling, and a literal may hold any JSON value: what the program keeps of it is its canonical form.

`Tree.SpelledBy` is the relation between a tree and its spellings, one constructor for each choice.
**Every spelling is decoded into its tree**, `Tree.decode_spelled`: up to the order of the members
by induction on the tree, and for the order by `decode_object_perm`.
-/

namespace TreeScript

/-! ## 1. Words, names and what may be left out -/

/-- The vocabulary of a word. -/
def Word.vocabulary : Word → Vocabulary
  | .binary _ => .binary
  | .unary _ => .unary
  | .kind _ => .kind

/-- The spellings of a word beside its own. -/
def Word.otherTexts : Word → List String
  | .kind .text => ["string"]
  | .kind .boolean => ["bool"]
  | .kind .absence => ["none", "null"]
  | _ => []

/-- Whether a node has no use for a member of this name: it is neither a field nor the tag. -/
structure Tag.Ignores (tag : Tag) (name : String) : Prop where
  not_field : ∀ f ∈ tag.fields, name ≠ f.name ∧ f.otherName ≠ some name
  not_tag : tag.isNamed = true → name ≠ "type"

/-- The member that holds the tag of a node, if it is a named one. -/
def Tag.naming (tag : Tag) : List (String × Json) :=
  if tag.isNamed then [("type", .text tag.word)] else []

namespace Tree

/-- Whether a field may be left out when it would hold this tree. -/
inductive Omissible : Count → Tree → Prop where
  | absent : Omissible .optional .absent
  | empty : Omissible .many (.list [])

/-! ## 2. Spellings -/

mutual

/-- **The JSON values that spell a tree** at a field. -/
inductive SpelledBy : Count → Atom → Tree → Json → Prop where
  | absent {atom : Atom} : SpelledBy .optional atom .absent .null
  | list {atom : Atom} {items : List Tree} {js : List Json} (hitems : AllSpelledBy atom items js) :
      SpelledBy .many atom (.list items) (.array js)
  | text {count : Count} (hcount : count ≠ .many) (s : String) :
      SpelledBy count .text (.text s) (.text s)
  | payload (value : Json) : SpelledBy .one .payload (.payload value.canonical) value
  | word (w : Word) {s : String} (hs : s = w.text ∨ s ∈ w.otherTexts) :
      SpelledBy .one (.word w.vocabulary) (.word w) (.text s)
  | object {count : Count} (hcount : count ≠ .many) {cls : NodeClass} {tag : Tag}
      {fields : List Tree} {given unknown members : List (String × Json)} (htag : tag ∈ cls.tags)
      (hgiven : GivenBy tag.fields fields given) (hunknown : ∀ m ∈ unknown, tag.Ignores m.1)
      (horder : members.Perm (tag.naming ++ (given ++ unknown))) :
      SpelledBy count (.node cls) (.node tag fields) (.object members)
  | array {count : Count} (hcount : count ≠ .many) {cls : NodeClass} {tag : Tag}
      {fields : List Tree} {js : List Json} (htag : tag ∈ cls.tags)
      (hfields : EachSpelledBy tag.fields fields js) :
      SpelledBy count (.node cls) (.node tag fields) (.array (tag.naming.map Prod.snd ++ js))

/-- The spellings of the trees of a list, one after the other. -/
inductive AllSpelledBy : Atom → List Tree → List Json → Prop where
  | nil {atom : Atom} : AllSpelledBy atom [] []
  | cons {atom : Atom} {t : Tree} {rest : List Tree} {j : Json} {js : List Json}
      (h : SpelledBy .one atom t j) (hrest : AllSpelledBy atom rest js) :
      AllSpelledBy atom (t :: rest) (j :: js)

/-- The spellings of the fields of a node, one after the other. -/
inductive EachSpelledBy : List Field → List Tree → List Json → Prop where
  | nil : EachSpelledBy [] [] []
  | cons {f : Field} {fields : List Field} {t : Tree} {rest : List Tree} {j : Json}
      {js : List Json} (h : SpelledBy f.count f.atom t j)
      (hrest : EachSpelledBy fields rest js) :
      EachSpelledBy (f :: fields) (t :: rest) (j :: js)

/-- The members that give the fields of a node, in the order of the fields: each under one of its
names, unless it is left out. -/
inductive GivenBy : List Field → List Tree → List (String × Json) → Prop where
  | nil : GivenBy [] [] []
  | member {f : Field} {fields : List Field} {t : Tree} {rest : List Tree} {name : String}
      {j : Json} {given : List (String × Json)} (hname : name = f.name ∨ f.otherName = some name)
      (h : SpelledBy f.count f.atom t j) (hrest : GivenBy fields rest given) :
      GivenBy (f :: fields) (t :: rest) ((name, j) :: given)
  | omitted {f : Field} {fields : List Field} {t : Tree} {rest : List Tree}
      {given : List (String × Json)} (h : Omissible f.count t)
      (hrest : GivenBy fields rest given) : GivenBy (f :: fields) (t :: rest) given

end

end Tree

/-- **The JSON values that spell a program.** -/
def Program.SpelledBy (p : Program) (j : Json) : Prop :=
  Tree.SpelledBy .one (.node .program) p.toTree j

namespace Tree

/-! ## 3. What the tables have -/

theorem decodeWord_spelled {w : Word} {s : String} (hs : s = w.text ∨ s ∈ w.otherTexts) :
    decodeWord w.vocabulary s = .ok (.word w) := by
  have hlookup : ∀ s ∈ w.text :: w.otherTexts, w.vocabulary.spellings.lookup s = some w := by
    cases w with
    | binary op => cases op <;> decide
    | unary op => cases op <;> decide
    | kind k => cases k <;> decide
  unfold decodeWord
  rw [hlookup s (List.mem_cons.mpr hs)]

theorem Omissible.default? {count : Count} {t : Tree} (h : Omissible count t) :
    default? count = some t := by
  cases h <;> rfl

/-- A field is found by either of its names. -/
theorem find?_of_isCalled {tag : Tag} {f : Field} (hf : f ∈ tag.fields) {name : String}
    (hname : name = f.name ∨ f.otherName = some name) :
    tag.fields.find? (fun g => g.isCalled name) = some f := by
  have hother : ∀ f ∈ tag.fields, ∀ name ∈ f.otherName,
      tag.fields.find? (fun g => g.isCalled name) = some f := by
    cases tag <;> decide
  rcases hname with rfl | hname
  · exact find?_isCalled tag f hf
  · exact hother f hf name hname

theorem find?_of_ignores {tag : Tag} {name : String} (h : tag.Ignores name) :
    tag.fields.find? (fun g => g.isCalled name) = none := by
  rw [List.find?_eq_none]
  intro f hf
  obtain ⟨hname, hother⟩ := h.not_field f hf
  simp [Field.isCalled, hname.symm, hother]

/-- A named node has no field that is called like its tag. -/
theorem ne_type_of_isCalled {tag : Tag} (hnamed : tag.isNamed = true) {f : Field}
    (hf : f ∈ tag.fields) {name : String} (hname : name = f.name ∨ f.otherName = some name) :
    name ≠ "type" := by
  rintro rfl
  have hfind := find?_of_isCalled hf hname
  rw [find?_type hnamed] at hfind
  cases hfind

/-! ## 4. The members of a node in the order of its fields -/

/-- What the members that give the fields of a node decode to: each to the tree of its field, and
a field without a member has the tree by default. -/
inductive Supplies : List Field → List Tree → List (String × Json) → Prop where
  | nil : Supplies [] [] []
  | member {f : Field} {fields : List Field} {t : Tree} {rest : List Tree} {name : String}
      {j : Json} {given : List (String × Json)} (hname : name = f.name ∨ f.otherName = some name)
      (h : decode f.count f.atom j = .ok t) (hrest : Supplies fields rest given) :
      Supplies (f :: fields) (t :: rest) ((name, j) :: given)
  | omitted {f : Field} {fields : List Field} {t : Tree} {rest : List Tree}
      {given : List (String × Json)} (h : default? f.count = some t)
      (hrest : Supplies fields rest given) : Supplies (f :: fields) (t :: rest) given

/-- Fields that were found, or have their tree by default, are put into their order. -/
theorem assemble_or_default {found : List (String × Tree)} {fields : List Field}
    {ts : List Tree} (h : List.Forall₂ (fun f t => found.lookup f.name = some t ∨
      found.lookup f.name = none ∧ default? f.count = some t) fields ts) :
    assemble found fields = .ok ts := by
  induction h with
  | nil => rfl
  | cons hhead _ ih =>
    rcases hhead with hfound | ⟨hfound, hdefault⟩
    · rw [assemble, hfound, ih]
      rfl
    · rw [assemble, hfound, hdefault, ih]
      rfl

/-- Members that the node does not know are passed over. -/
theorem decodeMembers_unknown {fields : List Field} (found : List (String × Tree)) :
    ∀ unknown : List (String × Json),
    (∀ m ∈ unknown, fields.find? (fun f => f.isCalled m.1) = none) →
    decodeMembers fields found unknown = .ok found
  | [], _ => by rw [decodeMembers]
  | (name, value) :: rest, h => by
    have hname := h (name, value) List.mem_cons_self
    have hrest := decodeMembers_unknown found rest fun m hm => h m (List.mem_cons_of_mem _ hm)
    exact decodeMembers_cons.mpr (.inl ⟨hname, hrest⟩)

/-- What decoding the members that give some fields, beside those found before and before members
that the node does not know, comes to: what was found before still is, and each field was found or
is left to its default. -/
theorem decodeMembers_supplies {all : List Field} {unknown : List (String × Json)}
    (hunknown : ∀ m ∈ unknown, all.find? (fun f => f.isCalled m.1) = none)
    {fields : List Field} {ts : List Tree} {given : List (String × Json)}
    (h : Supplies fields ts given) (found : List (String × Tree))
    (hfind : ∀ f ∈ fields, ∀ name, (name = f.name ∨ f.otherName = some name) →
      all.find? (fun g => g.isCalled name) = some f)
    (hnodup : (fields.map Field.name).Nodup) (hnew : ∀ f ∈ fields, found.lookup f.name = none) :
    ∃ found', decodeMembers all found (given ++ unknown) = .ok found' ∧
      (∀ name, name ∉ fields.map Field.name → found'.lookup name = found.lookup name) ∧
      List.Forall₂ (fun f t => found'.lookup f.name = some t ∨
        found'.lookup f.name = none ∧ default? f.count = some t) fields ts := by
  induction h generalizing found with
  | nil => exact ⟨found, decodeMembers_unknown found unknown hunknown, fun _ _ => rfl, .nil⟩
  | @member f fields t rest name j given hname ht _ ih =>
    rw [List.map_cons, List.nodup_cons] at hnodup
    have hnew' : ∀ g ∈ fields, ((f.name, t) :: found).lookup g.name = none := by
      intro g hg
      have hne : (g.name == f.name) = false := by
        rw [beq_eq_false_iff_ne]
        intro heq
        exact hnodup.1 (heq ▸ List.mem_map_of_mem hg)
      rw [List.lookup_cons, hne]
      exact hnew g (List.mem_cons_of_mem _ hg)
    obtain ⟨found', hdecode, hother, hall⟩ := ih ((f.name, t) :: found)
      (fun g hg => hfind g (List.mem_cons_of_mem _ hg)) hnodup.2 hnew'
    refine ⟨found', ?_, ?_, .cons (.inl ?_) hall⟩
    · exact decodeMembers_cons.mpr (.inr ⟨f, t, hfind f List.mem_cons_self name hname,
        hnew f List.mem_cons_self, ht, hdecode⟩)
    · intro name' hname'
      rw [List.map_cons, List.mem_cons, not_or] at hname'
      rw [hother name' hname'.2, List.lookup_cons, beq_eq_false_iff_ne.mpr hname'.1]
    · rw [hother f.name hnodup.1, List.lookup_cons_self]
  | @omitted f fields t rest given hdefault _ ih =>
    rw [List.map_cons, List.nodup_cons] at hnodup
    obtain ⟨found', hdecode, hother, hall⟩ := ih found
      (fun g hg => hfind g (List.mem_cons_of_mem _ hg)) hnodup.2
      fun g hg => hnew g (List.mem_cons_of_mem _ hg)
    refine ⟨found', hdecode, ?_, .cons (.inr ⟨?_, hdefault⟩) hall⟩
    · intro name' hname'
      rw [List.map_cons, List.mem_cons, not_or] at hname'
      exact hother name' hname'.2
    · rw [hother f.name hnodup.1]
      exact hnew f List.mem_cons_self

/-- **A node is decoded from the members that give its fields**, in any order and among members
that it does not know. -/
theorem ofMembers_supplies {tag : Tag} {ts : List Tree} {given unknown : List (String × Json)}
    {members : List (String × Json)} (h : Supplies tag.fields ts given)
    (hunknown : ∀ m ∈ unknown, tag.fields.find? (fun f => f.isCalled m.1) = none)
    (horder : members.Perm (given ++ unknown)) :
    ofMembers tag members = .ok (.node tag ts) := by
  obtain ⟨found, hdecode, -, hall⟩ := decodeMembers_supplies hunknown h []
    (fun f hf name hname => find?_of_isCalled hf hname) (nodup_fields tag) (fun _ _ => rfl)
  refine ofMembers_perm horder.symm ?_
  unfold ofMembers
  simp only [bind, Except.bind, hdecode, assemble_or_default hall]
  rfl

/-! ## 5. Nodes -/

theorem GivenBy.exists_field : ∀ {fields : List Field} {ts : List Tree}
    {given : List (String × Json)}, GivenBy fields ts given →
    ∀ m ∈ given, ∃ f ∈ fields, m.1 = f.name ∨ f.otherName = some m.1
  | _, _, _, .nil, _, hm => by cases hm
  | f :: _, _, _, .member hname _ hrest, m, hm => by
    rcases List.mem_cons.mp hm with rfl | hm
    · exact ⟨f, List.mem_cons_self, hname⟩
    · obtain ⟨g, hg, hname⟩ := hrest.exists_field m hm
      exact ⟨g, List.mem_cons_of_mem _ hg, hname⟩
  | _ :: _, _, _, .omitted _ hrest, m, hm => by
    obtain ⟨g, hg, hname⟩ := hrest.exists_field m hm
    exact ⟨g, List.mem_cons_of_mem _ hg, hname⟩

/-- Beside its tag, no member of a named node is called `type`. -/
theorem ne_type_of_mem {tag : Tag} {ts : List Tree} {given unknown : List (String × Json)}
    (hnamed : tag.isNamed = true) (hgiven : GivenBy tag.fields ts given)
    (hunknown : ∀ m ∈ unknown, tag.Ignores m.1) : ∀ m ∈ given ++ unknown, m.1 ≠ "type" := by
  intro m hm
  rcases List.mem_append.mp hm with hm | hm
  · obtain ⟨f, hf, hname⟩ := hgiven.exists_field m hm
    exact ne_type_of_isCalled hnamed hf hname
  · exact (hunknown m hm).not_tag hnamed

theorem findTag_of_ne (cls : NodeClass) (tag : Option Tag) : ∀ members : List (String × Json),
    (∀ member ∈ members, member.1 ≠ "type") → findTag cls tag members = .ok tag
  | [], _ => rfl
  | (name, value) :: rest, h => by
    have hname : name ≠ "type" := h (name, value) List.mem_cons_self
    rw [findTag, if_neg hname]
    exact findTag_of_ne cls tag rest fun member hmem => h member (List.mem_cons_of_mem _ hmem)

theorem objectTag_naming {cls : NodeClass} {tag : Tag} (htag : tag ∈ cls.tags)
    {others : List (String × Json)}
    (hothers : tag.isNamed = true → ∀ m ∈ others, m.1 ≠ "type") :
    objectTag cls (tag.naming ++ others) = .ok tag := by
  unfold objectTag Tag.naming
  rw [record?_eq htag]
  cases hnamed : tag.isNamed with
  | false => rfl
  | true =>
    have hrest := findTag_of_ne cls (some tag) others (hothers hnamed)
    simp only [if_true, List.singleton_append, findTag, decodeTag, tagOfWord_word htag,
      Option.isSome_none, bind, Except.bind, hrest]
    rfl

/-- The tag of a node is no field of it. -/
theorem find?_naming {tag : Tag} : ∀ m ∈ tag.naming,
    tag.fields.find? (fun f => f.isCalled m.1) = none := by
  intro m hm
  unfold Tag.naming at hm
  cases hnamed : tag.isNamed with
  | false => simp [hnamed] at hm
  | true =>
    rw [hnamed] at hm
    obtain rfl := List.mem_singleton.mp hm
    exact find?_type hnamed

theorem decode_members {count : Count} (hcount : count ≠ .many) {cls : NodeClass} {tag : Tag}
    {ts : List Tree} {given unknown members : List (String × Json)} (htag : tag ∈ cls.tags)
    (hgiven : GivenBy tag.fields ts given) (hsupplies : Supplies tag.fields ts given)
    (hunknown : ∀ m ∈ unknown, tag.Ignores m.1)
    (horder : members.Perm (tag.naming ++ (given ++ unknown))) :
    decode count (.node cls) (.object members) = .ok (.node tag ts) := by
  refine decode_object_perm hcount horder.symm ?_
  have hfields : ofMembers tag (tag.naming ++ (given ++ unknown)) = .ok (.node tag ts) := by
    have hothers : ∀ m ∈ tag.naming ++ unknown,
        tag.fields.find? (fun f => f.isCalled m.1) = none := by
      intro m hm
      rcases List.mem_append.mp hm with hm | hm
      · exact find?_naming m hm
      · exact find?_of_ignores (hunknown m hm)
    exact ofMembers_supplies hsupplies hothers (List.perm_append_comm_assoc _ _ _)
  rw [decode_object hcount,
    objectTag_naming htag fun hnamed => ne_type_of_mem hnamed hgiven hunknown]
  exact hfields

theorem decode_array {count : Count} (hcount : count ≠ .many) {cls : NodeClass} {tag : Tag}
    (htag : tag ∈ cls.tags) (js : List Json) :
    decode count (.node cls) (.array (tag.naming.map Prod.snd ++ js)) = ofPositions tag js := by
  unfold Tag.naming
  cases hnamed : tag.isNamed with
  | false =>
    have hrecord : cls.record? = some tag := by
      rw [record?_eq htag, hnamed]
      rfl
    cases count with
    | many => exact absurd rfl hcount
    | _ =>
      rw [decode.eq_def]
      dsimp only
      rw [hrecord]
      rfl
  | true =>
    have hrecord : cls.record? = none := by
      rw [record?_eq htag, hnamed]
      rfl
    cases count with
    | many => exact absurd rfl hcount
    | _ =>
      rw [decode.eq_def]
      dsimp only
      rw [hrecord]
      simp only [if_true, List.map_cons, List.map_nil, List.singleton_append, decodeTag,
        tagOfWord_word htag]
      rfl

/-! ## 6. Trees -/

theorem decode_payload (value : Json) :
    decode .one .payload value = .ok (.payload value.canonical) := by
  cases value <;> simp [decode, decodeLeaf, Json.canonical]

mutual

/-- **Every spelling of a tree is decoded into the tree.** -/
theorem decode_spelled : ∀ (t : Tree) {count : Count} {atom : Atom} {j : Json},
    SpelledBy count atom t j → decode count atom j = .ok t
  | .text s, count, _, _, .text hcount _ => by
    cases count with
    | many => exact absurd rfl hcount
    | one => simp [decode, decodeLeaf]
    | optional => simp [decode, decodeLeaf]
  | .payload _, _, _, _, .payload value => decode_payload value
  | .word w, _, _, _, .word _ hs => by simp [decode, decodeLeaf, decodeWord_spelled hs]
  | .absent, _, _, _, .absent => by simp [decode, decodeLeaf]
  | .list items, _, _, _, .list hitems => by
    simp only [decode, decodeItems_spelled items hitems]
    rfl
  | .node tag fields, _, _, _, .object hcount htag hgiven hunknown horder =>
    decode_members hcount htag hgiven (supplies_spelled fields hgiven) hunknown horder
  | .node tag fields, _, _, _, .array hcount htag hfields => by
    rw [decode_array hcount htag, ofPositions, decodePositions_spelled tag fields 0 hfields]
    rfl

theorem decodeItems_spelled : ∀ (items : List Tree) {atom : Atom} {js : List Json},
    AllSpelledBy atom items js → decodeItems atom js = .ok items
  | [], _, _, .nil => by rw [decodeItems]
  | t :: rest, _, _, .cons h hrest => by
    simp only [decodeItems, decode_spelled t h, decodeItems_spelled rest hrest]
    rfl

theorem decodePositions_spelled (tag : Tag) : ∀ (ts : List Tree) (given : Nat)
    {fields : List Field} {js : List Json}, EachSpelledBy fields ts js →
    decodePositions tag fields given js = .ok ts
  | [], _, _, _, .nil => by
    rw [decodePositions]
    rfl
  | t :: rest, given, _, _, .cons h hrest => by
    simp only [decodePositions, decode_spelled t h,
      decodePositions_spelled tag rest (given + 1) hrest]
    rfl

theorem supplies_spelled : ∀ (ts : List Tree) {fields : List Field}
    {given : List (String × Json)}, GivenBy fields ts given → Supplies fields ts given
  | [], _, _, .nil => .nil
  | t :: rest, _, _, .member hname h hrest =>
    .member hname (decode_spelled t h) (supplies_spelled rest hrest)
  | _ :: rest, _, _, .omitted h hrest => .omitted h.default? (supplies_spelled rest hrest)

end

/-- The fields of a node that is spelled as an object, without its tag. -/
theorem ofMembers_spelled {tag : Tag} {ts : List Tree}
    {given unknown members : List (String × Json)} (hgiven : GivenBy tag.fields ts given)
    (hunknown : ∀ m ∈ unknown, tag.Ignores m.1) (horder : members.Perm (given ++ unknown)) :
    ofMembers tag members = .ok (.node tag ts) :=
  ofMembers_supplies (supplies_spelled ts hgiven) (fun m hm => find?_of_ignores (hunknown m hm)) horder

/-- The fields of a node that is spelled as an array, without its tag. -/
theorem ofPositions_spelled {tag : Tag} {ts : List Tree} {js : List Json}
    (h : EachSpelledBy tag.fields ts js) : ofPositions tag js = .ok (.node tag ts) := by
  rw [ofPositions, decodePositions_spelled tag ts 0 h]
  rfl

/-! ## 7. The spelling that is written -/

theorem vocabulary_eq {vocabulary : Vocabulary} {w : Word}
    (h : vocabulary.spellings.lookup w.text = some w) : vocabulary = w.vocabulary := by
  have htable : ∀ entry ∈ vocabulary.spellings, vocabulary = entry.2.vocabulary := by
    cases vocabulary <;> decide
  obtain ⟨front, back, hspellings, -⟩ := List.lookup_eq_some_iff.mp h
  refine htable (w.text, w) ?_
  rw [hspellings]
  exact List.mem_append_right _ List.mem_cons_self

mutual

/-- **What is written for a tree that fits is one of its spellings.** -/
theorem spelledBy_toJson : ∀ (t : Tree) {count : Count} {atom : Atom}, Fits count atom t →
    SpelledBy count atom t t.toJson
  | .text s, _, _, .text hcount _ => by
    rw [toJson]
    exact .text hcount s
  | .payload value, _, _, .payload hvalue => by
    have hspelled := SpelledBy.payload value
    rw [Json.canonical_eq value hvalue.ordered] at hspelled
    rw [toJson]
    exact hspelled
  | .word w, _, _, .word hword => by
    rw [toJson, vocabulary_eq hword]
    exact .word w (.inl rfl)
  | .absent, _, _, .absent => by
    rw [toJson]
    exact .absent
  | .list items, _, _, .list hitems => by
    rw [toJson]
    exact .list (allSpelledBy_toJson items hitems)
  | .node tag fields, _, _, .node hcount htag hfields => by
    rw [toJson]
    refine .object hcount htag (givenBy_toJson fields hfields)
      (fun _ hm => absurd hm List.not_mem_nil) ?_
    rw [List.append_nil]
    exact .refl _

theorem allSpelledBy_toJson : ∀ (items : List Tree) {atom : Atom}, FitsAll atom items →
    AllSpelledBy atom items (toJsonItems items)
  | [], _, _ => by
    rw [toJsonItems]
    exact .nil
  | t :: rest, _, .cons h hrest => by
    rw [toJsonItems]
    exact .cons (spelledBy_toJson t h) (allSpelledBy_toJson rest hrest)

theorem givenBy_toJson : ∀ (ts : List Tree) {fields : List Field}, FitsFields fields ts →
    GivenBy fields ts (toJsonMembers fields ts)
  | [], _, .nil => by
    rw [toJsonMembers.eq_def]
    exact .nil
  | t :: rest, _, .cons h hrest => by
    rw [toJsonMembers]
    exact .member (.inl rfl) (spelledBy_toJson t h) (givenBy_toJson rest hrest)

end

/-- A node whose tag was read apart is decoded from its fields. -/
theorem ofMembers_toJson {tag : Tag} {fields : List Tree} (h : FitsFields tag.fields fields) :
    ofMembers tag (toJsonMembers tag.fields fields) = .ok (.node tag fields) := by
  refine ofMembers_spelled (givenBy_toJson fields h) (fun _ hm => absurd hm List.not_mem_nil) ?_
  rw [List.append_nil]

end Tree

end TreeScript
