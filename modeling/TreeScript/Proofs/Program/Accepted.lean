import TreeScript.Proofs.Json.Reading
import TreeScript.Proofs.Program.Order

/-!
# What an object has to be to be decoded

The decoder goes over the members of an object one by one and keeps what it has found.  What it has
required of them when it is done does not mention that list, nor the order of the members: of a
named node exactly one member is the tag, every member that is called like a field has a value that
can stand there, every field that may not be left out has a member, and no field has two.  This is
`IsNode`, and every object that is decoded is one, `isNode_of_decode`.

The fields are looked for among the members that are not the tag, and so they can be found without
it: `ofMembers_untagged`.
-/

namespace TreeScript

/-- The field of a node that a member of this name gives, if there is one. -/
def Tag.field? (tag : Tag) (name : String) : Option Field :=
  tag.fields.find? fun f => f.isCalled name

/-- Whether a member is the tag of a named node. -/
def isTagging (member : String × Json) : Bool := member.1 = "type"

namespace Tree

variable {fields : List Field} {found r : List (String × Tree)}
  {members front back : List (String × Json)} {cls : NodeClass} {tag : Tag}

/-! ## 1. Tags -/

theorem tagOfWord_eq_ok {s : String} (h : tagOfWord cls s = .ok tag) :
    tag ∈ cls.tags ∧ tag.word = s := by
  unfold tagOfWord at h
  split at h
  · rename_i other hfind
    cases h
    exact ⟨List.mem_of_find?_eq_some hfind, by simpa using List.find?_some hfind⟩
  · cases h

/-- A value only names kinds of nodes that are expected. -/
theorem mem_tags_of_decodeTag {value : Json} (h : decodeTag cls value = .ok tag) :
    tag ∈ cls.tags := by
  cases value with
  | text s => exact (tagOfWord_eq_ok h).1
  | integer i =>
    simp only [decodeTag] at h
    split at h
    · split at h
      · rename_i other hget
        cases h
        exact List.mem_of_getElem? hget
      · cases h
    · cases h
  | _ => cases h

theorem findTag_append {tag? : Option Tag} : findTag cls tag? (front ++ back) =
    findTag cls tag? front >>= fun tag? => findTag cls tag? back := by
  induction front generalizing tag? with
  | nil => rfl
  | cons member front ih =>
    obtain ⟨name, value⟩ := member
    rw [List.cons_append, findTag, findTag]
    split
    · split
      · rfl
      · cases decodeTag cls value with
        | error e => rfl
        | ok tag => exact ih
    · exact ih

/-- After the tag was found there is no other. -/
theorem filter_of_findTag_some {tag? : Option Tag} : ∀ {members : List (String × Json)},
    findTag cls (some tag) members = .ok tag? → members.filter isTagging = [] ∧ tag? = some tag
  | [], h => by
    cases h
    exact ⟨rfl, rfl⟩
  | (name, value) :: rest, h => by
    rcases findTag_cons.mp h with ⟨hname, hrest⟩ | ⟨_, hnone, _⟩
    · have hdrop : ¬ isTagging (name, value) = true := fun h => hname (of_decide_eq_true h)
      rw [List.filter_cons_of_neg hdrop]
      exact filter_of_findTag_some hrest
    · cases hnone

/-- The tag that is found is that of the only member `type`. -/
theorem filter_of_findTag : ∀ {members : List (String × Json)},
    findTag cls none members = .ok (some tag) →
    ∃ value, members.filter isTagging = [("type", value)] ∧ decodeTag cls value = .ok tag
  | (name, value) :: rest, h => by
    rcases findTag_cons.mp h with ⟨hname, hrest⟩ | ⟨rfl, -, other, hother, hrest⟩
    · have hdrop : ¬ isTagging (name, value) = true := fun h => hname (of_decide_eq_true h)
      rw [List.filter_cons_of_neg hdrop]
      exact filter_of_findTag hrest
    · obtain ⟨hnone, heq⟩ := filter_of_findTag_some hrest
      cases heq
      have hkeep : isTagging ("type", value) = true := rfl
      rw [List.filter_cons_of_pos hkeep, hnone]
      exact ⟨value, rfl, hother⟩

theorem filter_of_objectTag (h : objectTag cls members = .ok tag) (hrecord : cls.record? = none) :
    ∃ value, members.filter isTagging = [("type", value)] ∧ decodeTag cls value = .ok tag := by
  unfold objectTag at h
  rw [hrecord] at h
  obtain ⟨tag?, hfind, hsome⟩ := bind_eq_ok.mp h
  cases tag? with
  | none => cases hsome
  | some other =>
    cases hsome
    exact filter_of_findTag hfind

theorem mem_tags_of_record? (h : cls.record? = some tag) : tag ∈ cls.tags := by
  revert h
  cases cls <;> (revert tag; decide)

theorem mem_tags_of_objectTag (h : objectTag cls members = .ok tag) : tag ∈ cls.tags := by
  cases hrecord : cls.record? with
  | none =>
    obtain ⟨value, -, htag⟩ := filter_of_objectTag h hrecord
    exact mem_tags_of_decodeTag htag
  | some record =>
    unfold objectTag at h
    rw [hrecord] at h
    cases h
    exact mem_tags_of_record? hrecord

/-! ## 2. Fields -/

theorem decodeMembers_append : decodeMembers fields found (front ++ back) =
    decodeMembers fields found front >>= fun found => decodeMembers fields found back := by
  induction front generalizing found with
  | nil =>
    rw [List.nil_append, decodeMembers]
    rfl
  | cons member front ih =>
    obtain ⟨name, value⟩ := member
    rw [List.cons_append, decodeMembers, decodeMembers]
    cases fields.find? fun f => f.isCalled name with
    | none => exact ih
    | some f =>
      dsimp only
      cases (found.lookup f.name).isSome with
      | true => rfl
      | false =>
        cases decode f.count f.atom value with
        | error e => rfl
        | ok t => exact ih

/-- A member that is called like a field has a value that can stand there. -/
theorem decode_of_mem (h : decodeMembers fields found members = .ok r) :
    ∀ m ∈ members, ∀ f, fields.find? (fun g => g.isCalled m.1) = some f →
    ∃ t, decode f.count f.atom m.2 = .ok t := by
  induction members generalizing found with
  | nil => exact List.forall_mem_nil _
  | cons member rest ih =>
    obtain ⟨name, value⟩ := member
    rcases decodeMembers_cons.mp h with ⟨hfind, hrest⟩ | ⟨g, t, hfind, -, ht, hrest⟩
    · refine List.forall_mem_cons.mpr ⟨fun f hf => ?_, ih hrest⟩
      rw [hfind] at hf
      cases hf
    · refine List.forall_mem_cons.mpr ⟨fun f hf => ?_, ih hrest⟩
      rw [hfind] at hf
      cases hf
      exact ⟨t, ht⟩

/-- No member gives a field that was found before. -/
theorem lookup_of_mem (h : decodeMembers fields found members = .ok r) :
    ∀ m ∈ members, ∀ f, fields.find? (fun g => g.isCalled m.1) = some f →
    found.lookup f.name = none := by
  induction members generalizing found with
  | nil => exact List.forall_mem_nil _
  | cons member rest ih =>
    obtain ⟨name, value⟩ := member
    rcases decodeMembers_cons.mp h with ⟨hfind, hrest⟩ | ⟨g, t, hfind, hnew, -, hrest⟩
    · refine List.forall_mem_cons.mpr ⟨fun f hf => ?_, ih hrest⟩
      rw [hfind] at hf
      cases hf
    · refine List.forall_mem_cons.mpr ⟨fun f hf => ?_, fun m hm f hf => ?_⟩
      · rw [hfind] at hf
        cases hf
        exact hnew
      · have hlater := ih hrest m hm f hf
        rw [List.lookup_cons] at hlater
        split at hlater
        · cases hlater
        · exact hlater

/-- Whether two members do not give the same field. -/
def GiveApart (fields : List Field) (a b : String × Json) : Prop :=
  ∀ f, fields.find? (fun g => g.isCalled a.1) = some f →
    fields.find? (fun g => g.isCalled b.1) ≠ some f

/-- No two members give the same field. -/
theorem pairwise_giveApart (h : decodeMembers fields found members = .ok r) :
    members.Pairwise (GiveApart fields) := by
  induction members generalizing found with
  | nil => exact .nil
  | cons member rest ih =>
    obtain ⟨name, value⟩ := member
    rcases decodeMembers_cons.mp h with ⟨hfind, hrest⟩ | ⟨g, t, hfind, -, -, hrest⟩
    · refine .cons (fun m _ f hf => ?_) (ih hrest)
      rw [hfind] at hf
      cases hf
    · refine .cons (fun m hm f hf hother => ?_) (ih hrest)
      rw [hfind] at hf
      cases hf
      have hlater := lookup_of_mem hrest m hm g hother
      rw [List.lookup_cons_self] at hlater
      cases hlater

/-- What is found was found before or is given by a member. -/
theorem exists_of_lookup {name : String} (h : decodeMembers fields found members = .ok r)
    (hlookup : r.lookup name ≠ none) : found.lookup name ≠ none ∨
    ∃ m ∈ members, ∃ f, fields.find? (fun g => g.isCalled m.1) = some f ∧ f.name = name := by
  induction members generalizing found with
  | nil =>
    rw [decodeMembers] at h
    cases h
    exact .inl hlookup
  | cons member rest ih =>
    obtain ⟨given, value⟩ := member
    rcases decodeMembers_cons.mp h with ⟨-, hrest⟩ | ⟨g, t, hfind, -, -, hrest⟩
    · rcases ih hrest with hfound | ⟨m, hm, f, hf⟩
      · exact .inl hfound
      · exact .inr ⟨m, List.mem_cons_of_mem _ hm, f, hf⟩
    · rcases ih hrest with hfound | ⟨m, hm, f, hf⟩
      · by_cases heq : name = g.name
        · exact .inr ⟨(given, value), List.mem_cons_self, g, hfind, heq.symm⟩
        · rw [List.lookup_cons, beq_eq_false_iff_ne.mpr heq] at hfound
          exact .inl hfound
      · exact .inr ⟨m, List.mem_cons_of_mem _ hm, f, hf⟩

/-- What may not be left out was found. -/
theorem lookup_of_assemble {ts : List Tree} (h : assemble found fields = .ok ts) :
    ∀ f ∈ fields, f.count = .one → found.lookup f.name ≠ none := by
  induction fields generalizing ts with
  | nil => exact List.forall_mem_nil _
  | cons f fields ih =>
    rw [assemble] at h
    cases hlookup : found.lookup f.name with
    | some t =>
      rw [hlookup] at h
      obtain ⟨ts, hrest, -⟩ := map_eq_ok.mp h
      have hsome : found.lookup f.name ≠ none := by
        rw [hlookup]
        exact Option.some_ne_none t
      exact List.forall_mem_cons.mpr ⟨fun _ => hsome, ih hrest⟩
    | none =>
      rw [hlookup] at h
      dsimp only at h
      cases hdefault : default? f.count with
      | none =>
        rw [hdefault] at h
        cases h
      | some t =>
        rw [hdefault] at h
        obtain ⟨ts, hrest, -⟩ := map_eq_ok.mp h
        refine List.forall_mem_cons.mpr ⟨fun hcount => ?_, ih hrest⟩
        rw [hcount] at hdefault
        cases hdefault

/-- The tag of a named node is no field of it. -/
theorem decodeMembers_untagged (htype : fields.find? (fun f => f.isCalled "type") = none) :
    decodeMembers fields found (members.filter fun m => !isTagging m) =
      decodeMembers fields found members := by
  induction members generalizing found with
  | nil => rfl
  | cons member rest ih =>
    obtain ⟨name, value⟩ := member
    by_cases hname : name = "type"
    · have hdrop : ¬ (!isTagging (name, value)) = true := by simp [isTagging, hname]
      rw [List.filter_cons, if_neg hdrop, ih, decodeMembers, hname, htype]
    · have hkeep : (!isTagging (name, value)) = true := by simp [isTagging, hname]
      rw [List.filter_cons, if_pos hkeep, decodeMembers, decodeMembers]
      simp only [ih]

/-- **A named node can be decoded from its members without the tag.** -/
theorem ofMembers_untagged (hnamed : tag.isNamed = true) :
    ofMembers tag (members.filter fun m => !isTagging m) = ofMembers tag members := by
  unfold ofMembers
  rw [decodeMembers_untagged (find?_type hnamed)]

/-! ## 3. Nodes -/

/-- **What is required of the members of a node**, in whatever order they stand. -/
structure IsNode (cls : NodeClass) (tag : Tag) (members : List (String × Json)) : Prop where
  mem_tags : tag ∈ cls.tags
  tagged : tag.isNamed = true →
    ∃ value, members.filter isTagging = [("type", value)] ∧ decodeTag cls value = .ok tag
  decoded : ∀ m ∈ members, ∀ f, tag.field? m.1 = some f → ∃ t, decode f.count f.atom m.2 = .ok t
  required : ∀ f ∈ tag.fields, f.count = .one → ∃ m ∈ members, tag.field? m.1 = some f
  once : members.Pairwise (GiveApart tag.fields)

/-- **Every object that is decoded is a node.** -/
theorem isNode_of_decode {count : Count} {t : Tree} (hcount : count ≠ .many)
    (h : decode count (.node cls) (.object members) = .ok t) :
    ∃ tag ts, t = .node tag ts ∧ objectTag cls members = .ok tag ∧ IsNode cls tag members := by
  rw [decode_object hcount] at h
  obtain ⟨tag, htag, hfields⟩ := bind_eq_ok.mp h
  obtain ⟨found, hdecode, hassemble⟩ := bind_eq_ok.mp hfields
  obtain ⟨ts, hts, rfl⟩ := map_eq_ok.mp hassemble
  have hmem := mem_tags_of_objectTag htag
  refine ⟨tag, ts, rfl, htag, hmem, fun hnamed => ?_, decode_of_mem hdecode, fun f hf hcount => ?_,
    pairwise_giveApart hdecode⟩
  · refine filter_of_objectTag htag ?_
    rw [record?_eq hmem, hnamed]
    rfl
  · obtain hnil | ⟨m, hm, g, hg, hname⟩ :=
      exists_of_lookup hdecode (lookup_of_assemble hts f hf hcount)
    · exact absurd rfl hnil
    · -- fields of the same name are the same
      have hsame := find?_isCalled tag g (List.mem_of_find?_eq_some hg)
      rw [hname, find?_isCalled tag f hf] at hsame
      cases hsame
      exact ⟨m, hm, hg⟩

end Tree

end TreeScript
