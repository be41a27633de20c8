import Mathlib.Data.List.Induction
import TreeScript.Proofs.Entries

/-!
# Entries as the history of their insertions

Entries that are made by insertions alone are known from the insertions.  The keys are those that
were inserted, each once, in the order in which they first came (`keys_ofPairs`).  Under a key stands
the value that came with it last (`get?_ofPairs`).  And what an insertion gives back is the value that
had come with its key last until then (`getElem?_insertEach`).

The inductions are on the history from its end: an insertion meets entries that are known already,
and `keys_insert` and `get?_insert` say what it does to them.
-/

namespace TreeScript.Entries

variable {κ α : Type} [DecidableEq κ]

/-! ## 1. Histories -/

/-- The value that came with a key last. -/
def latest? (history : List (κ × α)) (key : κ) : Option α := history.reverse.lookup key

/-- Inserts pairs one after the other: what each of the insertions gives back, and the entries after
the last of them. -/
def insertEach (entries : List (κ × α)) : List (κ × α) → List (Option α) × List (κ × α)
  | [] => ([], entries)
  | (key, value) :: rest =>
    let (previous, entries) := getThenInsert? entries key value
    let (more, entries) := insertEach entries rest
    (previous :: more, entries)

@[simp] theorem latest?_nil (key : κ) : latest? ([] : List (κ × α)) key = none := rfl

theorem latest?_concat (history : List (κ × α)) (pair : κ × α) (key : κ) :
    latest? (history ++ [pair]) key = if pair.1 = key then some pair.2 else latest? history key := by
  rw [latest?, List.reverse_concat, List.lookup_cons]
  by_cases hkey : pair.1 = key
  · simp [hkey]
  · have hne : (key == pair.1) = false := by simpa using fun h => hkey h.symm
    rw [hne, if_neg hkey]
    rfl

/-- What comes after the last insertion of a key is no matter for it. -/
theorem latest?_append_cons {key : κ} {after : List (κ × α)} (before : List (κ × α)) (value : α)
    (h : key ∉ keys after) : latest? (before ++ (key, value) :: after) key = some value := by
  induction after using List.reverseRecOn with
  | nil => rw [latest?_concat, if_pos rfl]
  | append_singleton after pair ih =>
    have hkeys : key ∉ keys after ∧ ¬ pair.1 = key := by
      simpa [keys, eq_comm] using h
    have hassoc : before ++ (key, value) :: (after ++ [pair]) =
        before ++ (key, value) :: after ++ [pair] := by simp
    rw [hassoc, latest?_concat, if_neg hkeys.2, ih hkeys.1]

/-! ## 2. What the insertions leave -/

theorem ofPairs_concat (history : List (κ × α)) (pair : κ × α) :
    ofPairs (history ++ [pair]) = insert (ofPairs history) pair.1 pair.2 := by
  rw [ofPairs, insertAll, List.foldl_concat]
  rfl

/-- **Under a key stands the value that came with it last.** -/
theorem get?_ofPairs (history : List (κ × α)) (key : κ) :
    get? (ofPairs history) key = latest? history key := by
  induction history using List.reverseRecOn with
  | nil => rfl
  | append_singleton history pair ih => rw [ofPairs_concat, get?_insert, latest?_concat, ih]

/-- **The keys are those that were inserted**, each once, in the order in which they first came. -/
theorem keys_ofPairs (history : List (κ × α)) :
    keys (ofPairs history) = (keys history).eraseDups := by
  induction history using List.reverseRecOn with
  | nil => rfl
  | append_singleton history pair ih =>
    have hkeys : keys (history ++ [pair]) = keys history ++ [pair.1] := by simp [keys]
    rw [ofPairs_concat, keys_insert, hkeys, List.eraseDups_append, ih]
    by_cases hmem : pair.1 ∈ keys history
    · simp [hmem, List.removeAll]
    · simp [hmem, List.removeAll, List.eraseDups_cons]

theorem mem_keys_ofPairs {history : List (κ × α)} {key : κ} :
    key ∈ keys (ofPairs history) ↔ key ∈ keys history := by
  rw [keys_ofPairs, List.mem_eraseDups]

/-- Where keys are distinct, the entries are the keys with what is found under them. -/
theorem map_some_eq {entries : List (κ × α)} (h : Distinct entries) :
    entries.map some = (keys entries).map fun key => (get? entries key).map (Prod.mk key) := by
  rw [keys, List.map_map]
  refine List.map_congr_left fun entry hentry => ?_
  rw [Function.comp_apply, get?_of_mem h hentry, Option.map_some]

/-- Where keys are distinct, the keys and what is found under them are all there is to entries. -/
theorem eq_of_get? {entries others : List (κ × α)} (h : Distinct entries)
    (hkeys : keys entries = keys others)
    (hget : ∀ key ∈ keys entries, get? entries key = get? others key) : entries = others := by
  have h' : Distinct others := by
    rw [Distinct, ← hkeys]
    exact h
  have hmap : entries.map some = others.map some := by
    rw [map_some_eq h, map_some_eq h', ← hkeys]
    exact List.map_congr_left fun key hkey => by rw [hget key hkey]
  exact List.map_injective_iff.mpr (fun _ _ => Option.some.inj) hmap

/-! ## 3. What the insertions give back -/

theorem insertEach_snd (entries history : List (κ × α)) :
    (insertEach entries history).2 = insertAll entries history := by
  induction history generalizing entries with
  | nil => rfl
  | cons pair rest ih =>
    rw [insertEach, getThenInsert?_eq]
    exact ih (insert entries pair.1 pair.2)

/-- **What an insertion gives back** is the value that came with its key last, among the insertions
before it. -/
theorem getElem?_insertEach (before history : List (κ × α)) (n : Nat) :
    (insertEach (ofPairs before) history).1[n]? =
      history[n]?.map fun pair => latest? (before ++ history.take n) pair.1 := by
  induction history generalizing before n with
  | nil => rfl
  | cons pair rest ih =>
    rw [insertEach, getThenInsert?_eq, ← ofPairs_concat]
    cases n with
    | zero => simp [get?_ofPairs]
    | succ n => simpa using ih (before ++ [pair]) n

/-- **Entries refine a finite map that keeps the order of insertion.**  After any insertions, made
one after the other or all at once, the keys are those that were inserted, in the order in which they
first came and none twice, and there are as many entries.  Under a key stands the value that came
with it last, and nothing if it never came; the entries are the keys with these values, in the order
of the keys.  Each of the insertions gave back the value that had come with its key last before it,
and nothing if it was the first. -/
theorem insertions_refine (history : List (κ × α)) :
    (insertEach [] history).2 = ofPairs history ∧
      keys (ofPairs history) = (keys history).eraseDups ∧
      (keys (ofPairs history)).Nodup ∧
      (ofPairs history).length = (keys history).eraseDups.length ∧
      (∀ key, get? (ofPairs history) key = latest? history key ∧
        (get? (ofPairs history) key = none ↔ key ∉ keys history)) ∧
      (ofPairs history).map some =
        (keys history).eraseDups.map (fun key => (latest? history key).map (Prod.mk key)) ∧
      ∀ n, (insertEach [] history).1[n]? =
        history[n]?.map fun pair => latest? (history.take n) pair.1 := by
  have hdistinct : Distinct (ofPairs history) := distinct_ofPairs history
  refine ⟨insertEach_snd [] history, keys_ofPairs history, hdistinct, ?_, fun key => ?_, ?_,
    getElem?_insertEach [] history⟩
  · rw [← keys_ofPairs, length_keys]
  · rw [get?_eq_none_iff, mem_keys_ofPairs]
    exact ⟨get?_ofPairs history key, Iff.rfl⟩
  · rw [map_some_eq hdistinct, keys_ofPairs]
    exact List.map_congr_left fun key _ => by rw [get?_ofPairs]

/-- A key that comes again keeps its place and takes the new value. -/
example :
    insertEach [] [("a", 1), ("b", 2), ("a", 3), ("c", 4), ("a", 5)] =
      ([none, none, some 1, none, some 3], [("a", 5), ("b", 2), ("c", 4)]) := by
  decide

end TreeScript.Entries
