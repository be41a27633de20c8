import Mathlib.Data.List.Forall2
import Mathlib.Data.List.Perm.Subperm
import TreeScript.Entries

/-!
# Entries built from pairs

Only pairs that were given are entries, and pairs with distinct keys are the entries that they build
(`ofPairs_eq_self`).  If as many entries come out as pairs went in, the keys were distinct
(`distinct_of_length_le`).  Two lists of entries with distinct keys that are of the same length have
the same keys if one has none that the other lacks (`mem_keys_iff_of_length_le`).

Renaming the keys by an injective map and changing the values commutes with finding, inserting and
building (`get?_map`, `insert_map`, `ofPairs_map`).  Entries that correspond one by one have the same
keys, and what they bind to them corresponds (`related_of_get?`).
-/

namespace TreeScript.Entries

variable {κ α β : Type}

/-! ## 1. Counting keys -/

section Counting

variable {entries : List (κ × α)} {others : List (κ × β)}

theorem length_keys (entries : List (κ × α)) : (keys entries).length = entries.length :=
  List.length_map _

theorem mem_keys_of_mem {entry : κ × α} (h : entry ∈ entries) : entry.1 ∈ keys entries :=
  List.mem_map_of_mem h

/-- Where none of as many keys is lacking, none is added. -/
theorem mem_keys_iff_of_length_le (h : Distinct entries) (hsubset : keys entries ⊆ keys others)
    (hlength : others.length ≤ entries.length) (key : κ) :
    key ∈ keys entries ↔ key ∈ keys others := by
  have hkeys : (keys others).length ≤ (keys entries).length := by
    rw [length_keys, length_keys]
    exact hlength
  exact ((List.subperm_of_subset h hsubset).perm_of_length_le hkeys).mem_iff

/-- The same keys are equally many. -/
theorem length_eq_of_mem_keys_iff (h : Distinct entries) (h' : Distinct others)
    (hkeys : ∀ key, key ∈ keys entries ↔ key ∈ keys others) : entries.length = others.length := by
  rw [← length_keys entries, ← length_keys others]
  exact ((List.perm_ext_iff_of_nodup h h').mpr hkeys).length_eq

end Counting

/-! ## 2. Building and finding entries -/

variable [DecidableEq κ]

theorem insert_of_not_mem {key : κ} (value : α) :
    ∀ {entries : List (κ × α)}, key ∉ keys entries →
      insert entries key value = entries ++ [(key, value)]
  | [], _ => rfl
  | (k, v) :: rest, h => by
    rw [keys_cons, List.mem_cons, not_or] at h
    have hne : ¬ k = key := fun heq => h.1 heq.symm
    rw [insert, if_neg hne, insert_of_not_mem value h.2, List.cons_append]

theorem insertAll_of_distinct : ∀ {pairs entries : List (κ × α)}, Distinct (entries ++ pairs) →
    insertAll entries pairs = entries ++ pairs
  | [], entries, _ => (List.append_nil entries).symm
  | (key, value) :: rest, entries, h => by
    have hkey : key ∉ keys entries := by
      unfold Distinct keys at h
      rw [List.map_append, List.nodup_append] at h
      exact fun hmem => h.2.2 key hmem key (by simp) rfl
    have hstep : insertAll entries ((key, value) :: rest) =
        insertAll (entries ++ [(key, value)]) rest := by
      rw [← insert_of_not_mem value hkey]
      rfl
    have hrest : Distinct (entries ++ [(key, value)] ++ rest) := by
      rw [List.append_assoc]
      exact h
    rw [hstep, insertAll_of_distinct hrest, List.append_assoc, List.singleton_append]

/-- Pairs with distinct keys are the entries that they build. -/
theorem ofPairs_eq_self {pairs : List (κ × α)} (h : Distinct pairs) : ofPairs pairs = pairs :=
  insertAll_of_distinct h

theorem mem_of_mem_insert {key : κ} {value : α} {entry : κ × α} :
    ∀ {entries : List (κ × α)}, entry ∈ insert entries key value →
      entry ∈ entries ∨ entry = (key, value)
  | [], h => Or.inr (List.mem_singleton.mp h)
  | (k, v) :: rest, h => by
    rw [insert] at h
    split at h
    · rename_i heq
      rcases List.mem_cons.mp h with rfl | h
      · exact Or.inr (by rw [heq])
      · exact Or.inl (List.mem_cons_of_mem _ h)
    · rcases List.mem_cons.mp h with rfl | h
      · exact Or.inl List.mem_cons_self
      · rcases mem_of_mem_insert h with h | h
        · exact Or.inl (List.mem_cons_of_mem _ h)
        · exact Or.inr h

theorem mem_of_mem_insertAll {entry : κ × α} :
    ∀ {pairs entries : List (κ × α)}, entry ∈ insertAll entries pairs →
      entry ∈ entries ∨ entry ∈ pairs
  | [], _, h => Or.inl h
  | pair :: rest, entries, h => by
    have hrest : entry ∈ insertAll (insert entries pair.1 pair.2) rest := h
    rcases mem_of_mem_insertAll hrest with h | h
    · rcases mem_of_mem_insert h with h | rfl
      · exact Or.inl h
      · exact Or.inr List.mem_cons_self
    · exact Or.inr (List.mem_cons_of_mem _ h)

/-- Only pairs that were given are entries. -/
theorem mem_of_mem_ofPairs {entry : κ × α} {pairs : List (κ × α)} (h : entry ∈ ofPairs pairs) :
    entry ∈ pairs := by
  rcases mem_of_mem_insertAll h with h | h
  · cases h
  · exact h

/-- If no pair was lost, no key was repeated. -/
theorem distinct_of_length_le {pairs : List (κ × α)} (h : pairs.length ≤ (ofPairs pairs).length) :
    Distinct pairs := by
  have hdistinct : (keys (ofPairs pairs)).Nodup := distinct_ofPairs pairs
  have hsubset : keys (ofPairs pairs) ⊆ keys pairs := by
    intro key hkey
    obtain ⟨entry, hentry, rfl⟩ := List.mem_map.mp hkey
    exact List.mem_map_of_mem (mem_of_mem_ofPairs hentry)
  have hlength : (keys pairs).length ≤ (keys (ofPairs pairs)).length := by
    simpa [keys] using h
  have hperm : (keys (ofPairs pairs)).Perm (keys pairs) :=
    (List.subperm_of_subset hdistinct hsubset).perm_of_length_le hlength
  exact hperm.nodup_iff.mp hdistinct

/-- Where keys are distinct, every entry is found under its key. -/
theorem get?_of_mem {key : κ} {value : α} : ∀ {entries : List (κ × α)}, Distinct entries →
    (key, value) ∈ entries → get? entries key = some value
  | (k, v) :: rest, hdistinct, h => by
    obtain ⟨hk, hrest⟩ := List.nodup_cons.mp hdistinct
    rcases List.mem_cons.mp h with heq | h
    · cases heq
      rw [get?, if_pos rfl]
    · have hne : ¬ k = key := by
        rintro rfl
        exact hk (List.mem_map.mpr ⟨_, h, rfl⟩)
      rw [get?, if_neg hne, get?_of_mem hrest h]

/-- What is found under a key is one of the entries. -/
theorem mem_of_get?_eq_some {key : κ} {value : α} : ∀ {entries : List (κ × α)},
    get? entries key = some value → (key, value) ∈ entries
  | (k, v) :: rest, h => by
    rw [get?] at h
    split at h
    · rename_i heq
      cases h
      rw [heq]
      exact List.mem_cons_self
    · exact List.mem_cons_of_mem _ (mem_of_get?_eq_some h)

theorem mem_keys_iff_exists {key : κ} {entries : List (κ × α)} :
    key ∈ keys entries ↔ ∃ value, get? entries key = some value := by
  rw [← Option.isSome_iff_exists, ← Option.ne_none_iff_isSome, Ne, get?_eq_none_iff, not_not]

theorem contains_iff {key : κ} {entries : List (κ × α)} :
    contains entries key = true ↔ key ∈ keys entries := by
  rw [mem_keys_iff_exists, contains, Option.isSome_iff_exists]

/-- The keys after an insertion: those from before, and the one that was inserted. -/
theorem mem_keys_insert {key other : κ} {value : α} {entries : List (κ × α)} :
    other ∈ keys (insert entries key value) ↔ other ∈ keys entries ∨ other = key := by
  rw [keys_insert]
  split
  · rename_i hkey
    exact ⟨Or.inl, fun h => h.elim id fun heq => heq ▸ hkey⟩
  · rw [List.mem_append, List.mem_singleton]

/-! ## 3. Other keys and other values -/

section Map

variable {κ' : Type} [DecidableEq κ'] {ρ : κ → κ'} (hρ : Function.Injective ρ) (g : α → β)

include hρ

theorem get?_map (key : κ) (entries : List (κ × α)) :
    get? (entries.map (Prod.map ρ g)) (ρ key) = (get? entries key).map g := by
  induction entries with
  | nil => rfl
  | cons entry rest ih =>
    obtain ⟨k, v⟩ := entry
    rw [List.map_cons, Prod.map_apply, get?, get?, ih]
    by_cases hk : k = key
    · rw [if_pos hk, if_pos (congrArg ρ hk), Option.map_some]
    · rw [if_neg hk, if_neg (hρ.ne hk)]

theorem insert_map (key : κ) (value : α) (entries : List (κ × α)) :
    insert (entries.map (Prod.map ρ g)) (ρ key) (g value) =
      (insert entries key value).map (Prod.map ρ g) := by
  induction entries with
  | nil => rfl
  | cons entry rest ih =>
    obtain ⟨k, v⟩ := entry
    rw [List.map_cons, Prod.map_apply, insert, insert, ih]
    by_cases hk : k = key
    · rw [if_pos hk, if_pos (congrArg ρ hk), List.map_cons, Prod.map_apply]
    · rw [if_neg hk, if_neg (hρ.ne hk), List.map_cons, Prod.map_apply]

theorem insertAll_map (pairs : List (κ × α)) : ∀ entries : List (κ × α),
    insertAll (entries.map (Prod.map ρ g)) (pairs.map (Prod.map ρ g)) =
      (insertAll entries pairs).map (Prod.map ρ g) := by
  induction pairs with
  | nil => exact fun _ => rfl
  | cons pair rest ih =>
    intro entries
    have hrest := ih (insert entries pair.1 pair.2)
    rw [← insert_map hρ g] at hrest
    exact hrest

/-- **Pairs with renamed keys build the entries with renamed keys**, repeated ones included. -/
theorem ofPairs_map (pairs : List (κ × α)) :
    ofPairs (pairs.map (Prod.map ρ g)) = (ofPairs pairs).map (Prod.map ρ g) :=
  insertAll_map hρ g pairs []

end Map

/-! ## 4. Entries that correspond -/

section Correspond

variable {entries : List (κ × α)} {others : List (κ × β)} {R : α → β → Prop}

omit [DecidableEq κ] in
theorem keys_eq_of_forall₂ (h : List.Forall₂ (fun e e' => e.1 = e'.1 ∧ R e.2 e'.2) entries others) :
    keys entries = keys others := by
  induction h with
  | nil => rfl
  | cons hentry _ ih => rw [keys_cons, keys_cons, hentry.1, ih]

/-- What is found under a key corresponds to what is found under it on the other side. -/
theorem related_of_get? {key : κ} {v : α} {w : β}
    (h : List.Forall₂ (fun e e' => e.1 = e'.1 ∧ R e.2 e'.2) entries others)
    (hv : get? entries key = some v) (hw : get? others key = some w) : R v w := by
  induction h with
  | nil => cases hv
  | cons hentry _ ih =>
    obtain ⟨hkey, hvalue⟩ := hentry
    rw [get?, hkey] at hv
    rw [get?] at hw
    split at hv
    · rename_i heq
      rw [if_pos heq] at hw
      cases hv
      cases hw
      exact hvalue
    · rename_i hne
      rw [if_neg hne] at hw
      exact ih hv hw

end Correspond

end TreeScript.Entries
