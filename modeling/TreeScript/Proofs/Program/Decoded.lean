import TreeScript.Proofs.Json.Legible
import TreeScript.Proofs.Program.Accepted
import TreeScript.Proofs.Program.Spelling

/-!
# What is decoded fits the schema

Every tree that the decoder makes of a legible value fits the schema, with values in its payloads
that a literal can hold.  Written out, it nests at most one deeper than the value did: a list that
the value left out is written as an empty array, and that can be the one thing at its depth.
`Holds` says both of one tree, and `decode_holds` is the induction over the value.
-/

namespace TreeScript

/-- Whether an atom may stand so often at a field: payloads and words are never left out and never
in a list. -/
def Atom.Allows (count : Count) : Atom → Prop
  | .text => True
  | .payload => count = .one
  | .word _ => count = .one
  | .node _ => True

namespace Tree

variable {count : Count} {atom : Atom} {bound : Nat} {cls : NodeClass} {tag : Tag}

/-! ## 1. Trees that fit and do not nest too deep -/

/-- A tree that fits at a field and nests no deeper than so much when it is written. -/
structure Holds (count : Count) (atom : Atom) (bound : Nat) (t : Tree) : Prop where
  fits : Fits count atom t
  depth_le : t.toJson.depth ≤ bound

theorem allows_fields (tag : Tag) : ∀ f ∈ tag.fields, f.atom.Allows f.count := by
  cases tag <;> simp [Tag.fields, Atom.Allows]

theorem holds_list {ts : List Tree} (h : ∀ t ∈ ts, Holds .one atom bound t) :
    Holds .many atom (bound + 1) (.list ts) := by
  have hitems : FitsAll atom ts ∧ Json.depthItems (toJsonItems ts) ≤ bound := by
    induction ts with
    | nil =>
      rw [toJsonItems]
      exact ⟨.nil, Nat.zero_le _⟩
    | cons t rest ih =>
      obtain ⟨hfits, hdepth⟩ := ih fun u hu => h u (List.mem_cons_of_mem _ hu)
      have ht := h t List.mem_cons_self
      rw [toJsonItems, Json.depthItems]
      exact ⟨.cons ht.fits hfits, Nat.max_le.mpr ⟨ht.depth_le, hdepth⟩⟩
  refine ⟨.list hitems.1, ?_⟩
  rw [toJson, Json.depth]
  exact Nat.succ_le_succ hitems.2

theorem holds_node (hcount : count ≠ .many) (htag : tag ∈ cls.tags) {ts : List Tree}
    (h : List.Forall₂ (fun f t => Holds f.count f.atom bound t) tag.fields ts) :
    Holds count (.node cls) (bound + 1) (.node tag ts) := by
  have hfields : ∀ {fields : List Field} {ts : List Tree},
      List.Forall₂ (fun f t => Holds f.count f.atom bound t) fields ts →
      FitsFields fields ts ∧ Json.depthMembers (toJsonMembers fields ts) ≤ bound := by
    intro fields ts hall
    induction hall with
    | nil =>
      rw [toJsonMembers.eq_def]
      exact ⟨.nil, Nat.zero_le _⟩
    | cons hhead _ ih =>
      rw [toJsonMembers, Json.depthMembers]
      exact ⟨.cons hhead.fits ih.1, Nat.max_le.mpr ⟨hhead.depth_le, ih.2⟩⟩
  obtain ⟨hfits, hdepth⟩ := hfields h
  refine ⟨.node hcount htag hfits, ?_⟩
  rw [toJson, Json.depth]
  refine Nat.succ_le_succ ?_
  -- the tag is a text
  cases tag.isNamed with
  | false => exact hdepth
  | true => exact Nat.max_le.mpr ⟨Nat.zero_le _, hdepth⟩

/-- What is left out holds one array at most. -/
theorem holds_default {t : Tree} (h : default? count = some t) :
    Holds count atom (bound + 1) t := by
  cases count with
  | one => cases h
  | optional =>
    cases h
    exact ⟨.absent, by simp [toJson, Json.depth]⟩
  | many =>
    cases h
    exact ⟨.list .nil, by simp [toJson, toJsonItems, Json.depth, Json.depthItems]⟩

/-- A word is found by the way it is written. -/
theorem lookup_text_of_lookup {vocabulary : Vocabulary} {s : String} {w : Word}
    (h : vocabulary.spellings.lookup s = some w) : vocabulary.spellings.lookup w.text = some w := by
  have htable : ∀ entry ∈ vocabulary.spellings,
      vocabulary.spellings.lookup entry.2.text = some entry.2 := by
    cases vocabulary <;> decide
  obtain ⟨front, back, hspellings, -⟩ := List.lookup_eq_some_iff.mp h
  refine htable (s, w) ?_
  rw [hspellings]
  exact List.mem_append_right _ List.mem_cons_self

theorem holds_of_decodeWord {vocabulary : Vocabulary} {s : String} {t : Tree}
    (h : decodeWord vocabulary s = .ok t) : Holds .one (.word vocabulary) bound t := by
  unfold decodeWord at h
  split at h
  · rename_i w hlookup
    cases h
    exact ⟨.word (lookup_text_of_lookup hlookup), by simp [toJson, Json.depth]⟩
  · cases h

theorem holds_payload {j : Json} (hj : j.Legible) (hdepth : j.depth ≤ bound) :
    Holds .one .payload bound (.payload j.canonical) := by
  have hheld := (Json.isHeld_canonical j hj).mono hdepth
  refine ⟨.payload hheld.isValue, ?_⟩
  rw [toJson]
  exact hheld.depth_le

/-! ## 2. Arrays and objects -/

/-- Whether all that a value is decoded into fits and nests no deeper than so much. -/
def Decodes (bound : Nat) (j : Json) : Prop :=
  ∀ ⦃count : Count⦄ ⦃atom : Atom⦄ ⦃t : Tree⦄, atom.Allows count → decode count atom j = .ok t →
    Holds count atom bound t

theorem Decodes.mono {bound' : Nat} {j : Json} (h : Decodes bound j) (hle : bound ≤ bound') :
    Decodes bound' j := by
  intro count atom t hallows hdecode
  obtain ⟨hfits, hdepth⟩ := h hallows hdecode
  exact ⟨hfits, Nat.le_trans hdepth hle⟩

theorem allows_one (atom : Atom) : atom.Allows .one := by
  cases atom <;> trivial

theorem holds_of_decodeItems {items : List Json} (hitems : ∀ item ∈ items, Decodes bound item)
    {ts : List Tree} (h : decodeItems atom items = .ok ts) : ∀ t ∈ ts, Holds .one atom bound t := by
  induction items generalizing ts with
  | nil =>
    rw [decodeItems] at h
    cases h
    exact List.forall_mem_nil _
  | cons item rest ih =>
    rw [decodeItems] at h
    obtain ⟨t, ht, hthen⟩ := bind_eq_ok.mp h
    obtain ⟨others, hothers, hend⟩ := bind_eq_ok.mp hthen
    cases hend
    exact List.forall_mem_cons.mpr ⟨hitems item List.mem_cons_self (allows_one atom) ht,
      ih (fun other hother => hitems other (List.mem_cons_of_mem _ hother)) hothers⟩

theorem holds_of_assembleRest {fields : List Field} {place : Nat} {ts : List Tree}
    (h : assembleRest tag place fields = .ok ts) :
    List.Forall₂ (fun f t => Holds f.count f.atom (bound + 1) t) fields ts := by
  induction fields generalizing place ts with
  | nil =>
    rw [assembleRest] at h
    cases h
    exact .nil
  | cons f fields ih =>
    rw [assembleRest] at h
    split at h
    · rename_i t hdefault
      obtain ⟨rest, hrest, rfl⟩ := map_eq_ok.mp h
      exact .cons (holds_default hdefault) (ih hrest)
    · cases h

theorem holds_of_decodePositions {items : List Json}
    (hitems : ∀ item ∈ items, Decodes (bound + 1) item) {fields : List Field}
    (hallows : ∀ f ∈ fields, f.atom.Allows f.count) {given : Nat} {ts : List Tree}
    (h : decodePositions tag fields given items = .ok ts) :
    List.Forall₂ (fun f t => Holds f.count f.atom (bound + 1) t) fields ts := by
  induction items generalizing fields given ts with
  | nil =>
    rw [decodePositions] at h
    exact holds_of_assembleRest h
  | cons item rest ih =>
    rw [decodePositions.eq_def] at h
    cases fields with
    | nil => cases h
    | cons f fields =>
      obtain ⟨t, ht, hthen⟩ := bind_eq_ok.mp h
      obtain ⟨others, hothers, hend⟩ := bind_eq_ok.mp hthen
      cases hend
      exact .cons (hitems item List.mem_cons_self (hallows f List.mem_cons_self) ht)
        (ih (fun other hother => hitems other (List.mem_cons_of_mem _ hother))
          (fun g hg => hallows g (List.mem_cons_of_mem _ hg)) hothers)

/-- **A node is decoded from an array into a tree that fits.** -/
theorem holds_of_ofPositions (hcount : count ≠ .many) (htag : tag ∈ cls.tags) {items : List Json}
    (hitems : ∀ item ∈ items, Decodes (bound + 1) item) {t : Tree}
    (h : ofPositions tag items = .ok t) : Holds count (.node cls) (bound + 2) t := by
  obtain ⟨ts, hts, rfl⟩ := map_eq_ok.mp h
  exact holds_node hcount htag (holds_of_decodePositions hitems (allows_fields tag) hts)

/-- Whether all fields that were found hold what they may. -/
def FoundHolds (tag : Tag) (bound : Nat) (found : List (String × Tree)) : Prop :=
  ∀ f ∈ tag.fields, ∀ t, found.lookup f.name = some t → Holds f.count f.atom bound t

theorem foundHolds_of_decodeMembers {members : List (String × Json)}
    (hmembers : ∀ m ∈ members, Decodes bound m.2) {found r : List (String × Tree)}
    (hfound : FoundHolds tag bound found) (h : decodeMembers tag.fields found members = .ok r) :
    FoundHolds tag bound r := by
  induction members generalizing found with
  | nil =>
    rw [decodeMembers] at h
    cases h
    exact hfound
  | cons member rest ih =>
    obtain ⟨name, value⟩ := member
    have hrest := fun m hm => hmembers m (List.mem_cons_of_mem (name, value) hm)
    rcases decodeMembers_cons.mp h with ⟨-, h⟩ | ⟨f, t, hfind, -, ht, h⟩
    · exact ih hrest hfound h
    · refine ih hrest (fun g hg u hu => ?_) h
      have hf := List.mem_of_find?_eq_some hfind
      rw [List.lookup_cons] at hu
      split at hu
      · rename_i hname
        cases hu
        -- fields of the same name are the same
        have hsame := find?_isCalled tag g hg
        rw [eq_of_beq hname, find?_isCalled tag f hf] at hsame
        cases hsame
        exact hmembers _ List.mem_cons_self (allows_fields tag f hf) ht
      · exact hfound g hg u hu

theorem holds_of_assemble {found : List (String × Tree)} (hfound : FoundHolds tag (bound + 1) found)
    {fields : List Field} (hfields : ∀ f ∈ fields, f ∈ tag.fields) {ts : List Tree}
    (h : assemble found fields = .ok ts) :
    List.Forall₂ (fun f t => Holds f.count f.atom (bound + 1) t) fields ts := by
  induction fields generalizing ts with
  | nil =>
    rw [assemble] at h
    cases h
    exact .nil
  | cons f fields ih =>
    have hothers : ∀ g ∈ fields, g ∈ tag.fields := fun g hg => hfields g (List.mem_cons_of_mem _ hg)
    rw [assemble] at h
    split at h
    · rename_i t hlookup
      obtain ⟨rest, hrest, rfl⟩ := map_eq_ok.mp h
      exact .cons (hfound f (hfields f List.mem_cons_self) t hlookup) (ih hothers hrest)
    · split at h
      · rename_i t hdefault
        obtain ⟨rest, hrest, rfl⟩ := map_eq_ok.mp h
        exact .cons (holds_default hdefault) (ih hothers hrest)
      · cases h

/-- **A node is decoded from an object into a tree that fits.** -/
theorem holds_of_ofMembers (hcount : count ≠ .many) (htag : tag ∈ cls.tags)
    {members : List (String × Json)} (hmembers : ∀ m ∈ members, Decodes (bound + 1) m.2) {t : Tree}
    (h : ofMembers tag members = .ok t) : Holds count (.node cls) (bound + 2) t := by
  obtain ⟨found, hdecode, hassemble⟩ := bind_eq_ok.mp h
  obtain ⟨ts, hts, rfl⟩ := map_eq_ok.mp hassemble
  have hnone : FoundHolds tag (bound + 1) [] := fun _ _ _ h => by cases h
  have hfound := foundHolds_of_decodeMembers hmembers hnone hdecode
  exact holds_node hcount htag (holds_of_assemble hfound (fun _ hf => hf) hts)

/-! ## 3. Values -/

theorem decode_leaf {j : Json} (hleaf : j.IsLeaf) (count : Count) (atom : Atom) :
    decode count atom j = decodeLeaf count atom j := by
  cases j with
  | array items => exact hleaf.elim
  | object members => exact hleaf.elim
  | _ => simp only [decode]

theorem canonical_leaf {j : Json} (hleaf : j.IsLeaf) : j.canonical = j := by
  cases j with
  | array items => exact hleaf.elim
  | object members => exact hleaf.elim
  | _ => simp only [Json.canonical]

theorem decodes_leaf {j : Json} (hj : j.Legible) (hleaf : j.IsLeaf) : Decodes bound j := by
  intro count atom t hallows h
  rw [decode_leaf hleaf, decodeLeaf.eq_def] at h
  split at h
  · cases h
    exact ⟨.absent, by simp [toJson, Json.depth]⟩
  · cases h
  · cases h
    exact ⟨.text (by assumption) _, by simp [toJson, Json.depth]⟩
  · cases h
  · cases h
    obtain rfl : count = .one := hallows
    have hdepth : j.depth ≤ bound := by
      rw [Json.depth_of_isLeaf hleaf]
      exact Nat.zero_le _
    have hpayload := holds_payload hj hdepth
    rwa [canonical_leaf hleaf] at hpayload
  · obtain rfl : count = .one := hallows
    exact holds_of_decodeWord h
  · cases h
  · cases h

theorem decodes_array {items : List Json} (hj : Json.LegibleItems items)
    (hitems : ∀ item ∈ items, Decodes (Json.depthItems items + 1) item) :
    Decodes (Json.depthItems items + 2) (.array items) := by
  intro count atom t hallows h
  rw [decode.eq_def] at h
  dsimp only at h
  split at h
  · obtain ⟨ts, hts, rfl⟩ := map_eq_ok.mp h
    exact holds_list (holds_of_decodeItems hitems hts)
  · cases h
  · cases h
    obtain rfl : count = .one := hallows
    exact holds_payload (j := .array items) hj (Nat.le_succ _)
  · cases h
  · rename_i cls hmany
    split at h
    · rename_i record _ hrecord
      exact holds_of_ofPositions hmany (mem_tags_of_record? hrecord) hitems h
    · cases h
    · rename_i first rest _
      obtain ⟨tag, htag, hfields⟩ := bind_eq_ok.mp h
      exact holds_of_ofPositions hmany (mem_tags_of_decodeTag htag)
        (fun item hitem => hitems item (List.mem_cons_of_mem _ hitem)) hfields

theorem decodes_object {members : List (String × Json)} (hj : Json.LegibleMembers members)
    (hmembers : ∀ m ∈ members, Decodes (Json.depthMembers members + 1) m.2) :
    Decodes (Json.depthMembers members + 2) (.object members) := by
  intro count atom t hallows h
  rw [decode.eq_def] at h
  dsimp only at h
  split at h
  · cases h
  · cases h
  · cases h
    obtain rfl : count = .one := hallows
    exact holds_payload (j := .object members) hj (Nat.le_succ _)
  · rename_i vocabulary hmany
    obtain rfl : count = .one := hallows
    unfold decodeWordObject at h
    split at h
    · obtain ⟨w, hw, hthen⟩ := bind_eq_ok.mp h
      obtain ⟨_, -, hend⟩ := bind_eq_ok.mp hthen
      cases hend
      exact holds_of_decodeWord hw
    · cases h
  · rename_i cls hmany
    obtain ⟨tag, htag, hfields⟩ := bind_eq_ok.mp h
    exact holds_of_ofMembers hmany (mem_tags_of_objectTag htag) hmembers hfields

mutual

/-- **Whatever a legible value is decoded into fits the schema**, and nests at most one deeper. -/
theorem decodes_of_legible : ∀ j : Json, j.Legible → Decodes (j.depth + 1) j
  | .array items, hj => decodes_array hj (decodes_items items hj)
  | .object members, hj => decodes_object hj (decodes_members members hj)
  | .null, hj => decodes_leaf hj trivial
  | .boolean _, hj => decodes_leaf hj trivial
  | .integer _, hj => decodes_leaf hj trivial
  | .double _, hj => decodes_leaf hj trivial
  | .text _, hj => decodes_leaf hj trivial

theorem decodes_items : ∀ items : List Json, Json.LegibleItems items →
    ∀ item ∈ items, Decodes (Json.depthItems items + 1) item
  | [], _ => List.forall_mem_nil _
  | item :: rest, hj => by
    have hrest := decodes_items rest hj.2
    rw [Json.depthItems]
    refine List.forall_mem_cons.mpr ⟨?_, fun other hother => ?_⟩
    · exact (decodes_of_legible item hj.1).mono (by omega)
    · exact (hrest other hother).mono (by omega)

theorem decodes_members : ∀ members : List (String × Json), Json.LegibleMembers members →
    ∀ m ∈ members, Decodes (Json.depthMembers members + 1) m.2
  | [], _ => List.forall_mem_nil _
  | (name, value) :: rest, hj => by
    have hrest := decodes_members rest hj.2
    rw [Json.depthMembers]
    refine List.forall_mem_cons.mpr ⟨?_, fun other hother => ?_⟩
    · exact (decodes_of_legible value hj.1).mono (by omega)
    · exact (hrest other hother).mono (by omega)

end

/-- What is read where so much depth is left is decoded into trees that nest at most one deeper. -/
theorem decodes_of_isReadable {limit : Nat} {j : Json} (h : j.IsReadable limit) :
    Decodes (limit + 1) j :=
  (decodes_of_legible j h.legible).mono (Nat.succ_le_succ h.depth_le)

end Tree

end TreeScript
