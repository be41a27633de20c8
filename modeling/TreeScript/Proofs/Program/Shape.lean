import TreeScript.Program.Decoder
import TreeScript.Proofs.Json.Canonical

/-!
# Trees that fit the schema

`Fits` says which trees may stand at a field of the schema; a list of trees fits a list of fields if
each fits its own.

What the decoder does with a member depends on the tables only: the fields of a node have different
names, none of them is `type` in a named node, and every word stands for the kind that is written
with it.  These facts are decided over the tables, once, in the second section.
-/

namespace TreeScript.Tree

/-! ## 1. Trees that fit -/

mutual

/-- **Whether a tree may stand at a field.** -/
inductive Fits : Count → Atom → Tree → Prop where
  | absent {atom : Atom} : Fits .optional atom .absent
  | list {atom : Atom} {items : List Tree} (hitems : FitsAll atom items) :
      Fits .many atom (.list items)
  | text {count : Count} (hcount : count ≠ .many) (s : String) : Fits count .text (.text s)
  | payload {value : Json} (hvalue : value.IsValue) : Fits .one .payload (.payload value)
  | word {vocabulary : Vocabulary} {w : Word}
      (hword : vocabulary.spellings.lookup w.text = some w) : Fits .one (.word vocabulary) (.word w)
  | node {count : Count} (hcount : count ≠ .many) {cls : NodeClass} {tag : Tag}
      {fields : List Tree} (htag : tag ∈ cls.tags) (hfields : FitsFields tag.fields fields) :
      Fits count (.node cls) (.node tag fields)

/-- Whether all trees of a list may stand at a field. -/
inductive FitsAll : Atom → List Tree → Prop where
  | nil {atom : Atom} : FitsAll atom []
  | cons {atom : Atom} {t : Tree} {rest : List Tree} (h : Fits .one atom t)
      (hrest : FitsAll atom rest) : FitsAll atom (t :: rest)

/-- Whether the trees of a list may stand at the fields of a list, one at each. -/
inductive FitsFields : List Field → List Tree → Prop where
  | nil : FitsFields [] []
  | cons {f : Field} {fields : List Field} {t : Tree} {rest : List Tree}
      (h : Fits f.count f.atom t) (hrest : FitsFields fields rest) :
      FitsFields (f :: fields) (t :: rest)

end

theorem fits_node {cls : NodeClass} {tag : Tag} {fields : List Tree} (htag : tag ∈ cls.tags)
    (hfields : FitsFields tag.fields fields) : Fits .one (.node cls) (.node tag fields) :=
  .node (by decide) htag hfields

/-- A node may also stand where it could be left out. -/
theorem Fits.optional {cls : NodeClass} {t : Tree} (h : Fits .one (.node cls) t) :
    Fits .optional (.node cls) t := by
  cases h with
  | node _ htag hfields => exact .node (by decide) htag hfields

theorem fits_text (s : String) : Fits .one .text (.text s) := .text (by decide) s

/-! ## 2. What the tables have -/

/-- The word of a kind of node is no other kind's of its class. -/
theorem tagOfWord_word {cls : NodeClass} {tag : Tag} (h : tag ∈ cls.tags) :
    tagOfWord cls tag.word = .ok tag := by
  cases cls <;> (revert h; revert tag; decide)

theorem record?_eq {cls : NodeClass} {tag : Tag} (h : tag ∈ cls.tags) :
    cls.record? = if tag.isNamed then none else some tag := by
  cases cls <;> (revert h; revert tag; decide)

/-- A field is found by its name. -/
theorem find?_isCalled (tag : Tag) :
    ∀ f ∈ tag.fields, tag.fields.find? (fun g => g.isCalled f.name) = some f := by
  cases tag <;> decide

theorem nodup_fields (tag : Tag) : (tag.fields.map Field.name).Nodup := by
  cases tag <;> decide

/-- No field of a named node is called like its tag. -/
theorem find?_type {tag : Tag} (h : tag.isNamed = true) :
    tag.fields.find? (fun g => g.isCalled "type") = none := by
  revert h
  cases tag <;> decide

theorem type_not_mem {tag : Tag} (h : tag.isNamed = true) :
    "type" ∉ tag.fields.map Field.name := by
  revert h
  cases tag <;> decide

/-! ## 3. What is written -/

theorem mem_toJsonMembers {member : String × Json} : ∀ {fields : List Field} {ts : List Tree},
    member ∈ toJsonMembers fields ts → member.1 ∈ fields.map Field.name
  | [], _, h => by simp [toJsonMembers] at h
  | _ :: _, [], h => by simp [toJsonMembers] at h
  | f :: fields, t :: ts, h => by
    rw [toJsonMembers] at h
    rcases List.mem_cons.mp h with rfl | h
    · exact List.mem_cons_self
    · exact List.mem_cons_of_mem _ (mem_toJsonMembers h)

mutual

/-- The numbers in a tree that fits are those of its payloads. -/
theorem legible_toJson : ∀ (t : Tree) {count : Count} {atom : Atom}, Fits count atom t →
    t.toJson.Legible
  | .text s, _, _, _ => by simp [toJson, Json.Legible]
  | .payload value, _, _, .payload hvalue => by
    rw [toJson]
    exact hvalue.legible
  | .word w, _, _, _ => by simp [toJson, Json.Legible]
  | .absent, _, _, _ => by simp [toJson, Json.Legible]
  | .list items, _, _, .list hitems => by
    rw [toJson, Json.Legible]
    exact legible_toJsonItems items hitems
  | .node tag fields, _, _, .node _ _ hfields => by
    have hrest := legible_toJsonMembers tag.fields fields hfields
    rw [toJson, Json.Legible]
    cases tag.isNamed with
    | false => exact hrest
    | true => exact ⟨trivial, hrest⟩

theorem legible_toJsonItems : ∀ (items : List Tree) {atom : Atom}, FitsAll atom items →
    Json.LegibleItems (toJsonItems items)
  | [], _, _ => trivial
  | t :: rest, _, .cons h hrest => ⟨legible_toJson t h, legible_toJsonItems rest hrest⟩

theorem legible_toJsonMembers : ∀ (fields : List Field) (ts : List Tree), FitsFields fields ts →
    Json.LegibleMembers (toJsonMembers fields ts)
  | [], [], _ => trivial
  | _ :: fields, t :: ts, .cons h hrest =>
    ⟨legible_toJson t h, legible_toJsonMembers fields ts hrest⟩

end

end TreeScript.Tree
