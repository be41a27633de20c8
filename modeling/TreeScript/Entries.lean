/-
# Entries: insertion-ordered finite maps

A mapping value, a call frame, the function table and a directory tree are all the same thing: a
list of keyed entries in the order in which the keys were first inserted.  Inserting a key that is
present replaces its value **in place**, so its position stays that of the first insertion; a new
key goes to the end.

The carrier is a plain list of pairs, because a value contains mappings of values and a proof
inside that recursive type would get in the way of every recursion.  That keys are distinct is
therefore a predicate, `Entries.Distinct`, and `insert` and `ofPairs` are shown to keep it.

* `get?_insert` says what an insertion does to every look-up, and `getThenInsert?_eq` what it gives
  back;
* `keys_insert` says what it does to the keys;
* `Distinct.insert`, `distinct_ofPairs` say that keys stay distinct.
-/

namespace TreeScript

namespace Entries

variable {κ α : Type}

/-! ## 1. Keys -/

/-- The keys in insertion order. -/
def keys (entries : List (κ × α)) : List κ := entries.map Prod.fst

/-- Keys are pairwise distinct. -/
def Distinct (entries : List (κ × α)) : Prop := (keys entries).Nodup

@[simp] theorem keys_nil : keys ([] : List (κ × α)) = [] := rfl

@[simp] theorem keys_cons (pair : κ × α) (rest : List (κ × α)) :
    keys (pair :: rest) = pair.1 :: keys rest := rfl

theorem Distinct.nil : Distinct ([] : List (κ × α)) := List.nodup_nil

/-! ## 2. Operations -/

variable [DecidableEq κ]

/-- The value of a key, if it is present. -/
@[specialize] def get? (entries : List (κ × α)) (key : κ) : Option α :=
  match entries with
  | [] => none
  | (k, v) :: rest => if k = key then some v else get? rest key

/-- Binds a key: in place if it is present, at the end if not. -/
@[specialize] def insert (entries : List (κ × α)) (key : κ) (value : α) : List (κ × α) :=
  match entries with
  | [] => [(key, value)]
  | (k, v) :: rest => if k = key then (k, value) :: rest else (k, v) :: insert rest key value

/-- Binds a key like `insert`, and gives back the value that it had. -/
@[specialize] def getThenInsert? (entries : List (κ × α)) (key : κ) (value : α) :
    Option α × List (κ × α) :=
  match entries with
  | [] => (none, [(key, value)])
  | (k, v) :: rest =>
    if k = key then (some v, (k, value) :: rest)
    else
      let (previous, rest) := getThenInsert? rest key value
      (previous, (k, v) :: rest)

/-- Whether a key is present. -/
def contains (entries : List (κ × α)) (key : κ) : Bool := (get? entries key).isSome

/-- Inserts the pairs one after the other. -/
def insertAll (entries : List (κ × α)) (pairs : List (κ × α)) : List (κ × α) :=
  pairs.foldl (fun built pair => insert built pair.1 pair.2) entries

/-- The entries that a list of pairs builds: a later pair replaces an earlier one's value. -/
def ofPairs (pairs : List (κ × α)) : List (κ × α) := insertAll [] pairs

/-- What is looked up is a part of the entries. -/
theorem sizeOf_lt_of_get? [SizeOf κ] [SizeOf α] {key : κ} {v : α} :
    ∀ {entries : List (κ × α)}, get? entries key = some v → sizeOf v < sizeOf entries
  | [], h => by cases h
  | (k, w) :: rest, h => by
    rw [get?] at h
    split at h
    · cases h
      simp
      omega
    · have hrest := sizeOf_lt_of_get? h
      simp
      omega

/-! ## 3. What an insertion does -/

@[simp] theorem get?_nil (key : κ) : get? ([] : List (κ × α)) key = none := rfl

theorem get?_insert (key other : κ) (value : α) : ∀ entries : List (κ × α),
    get? (insert entries key value) other =
      if key = other then some value else get? entries other
  | [] => by simp [insert, get?]
  | (k, v) :: rest => by
    have ih := get?_insert key other value rest
    by_cases hk : k = key
    · subst hk
      by_cases ho : k = other <;> simp [insert, get?, ho]
    · by_cases ho : k = other
      · subst ho
        have : key ≠ k := fun h => hk h.symm
        simp [insert, get?, hk, this]
      · simp [insert, get?, hk, ho, ih]

/-- What is given back is what a look-up finds before the insertion. -/
theorem getThenInsert?_eq (key : κ) (value : α) : ∀ entries : List (κ × α),
    getThenInsert? entries key value = (get? entries key, insert entries key value)
  | [] => rfl
  | (k, v) :: rest => by
    have ih := getThenInsert?_eq key value rest
    by_cases hk : k = key <;> simp [getThenInsert?, get?, insert, hk, ih]

theorem get?_eq_none_iff (key : κ) : ∀ entries : List (κ × α),
    get? entries key = none ↔ key ∉ keys entries
  | [] => by simp
  | (k, v) :: rest => by
    have ih := get?_eq_none_iff key rest
    by_cases hk : k = key
    · simp [get?, hk]
    · have : key ≠ k := fun h => hk h.symm
      simp [get?, hk, this, ih]

theorem keys_insert (key : κ) (value : α) : ∀ entries : List (κ × α),
    keys (insert entries key value) =
      if key ∈ keys entries then keys entries else keys entries ++ [key]
  | [] => by simp [insert]
  | (k, v) :: rest => by
    have ih := keys_insert key value rest
    by_cases hk : k = key
    · simp [insert, hk]
    · have hne : key ≠ k := fun h => hk h.symm
      by_cases hm : key ∈ keys rest <;> simp [insert, hk, hne, hm, ih]

/-! ## 4. Distinct keys -/

theorem Distinct.insert {entries : List (κ × α)} (h : Distinct entries) (key : κ)
    (value : α) : Distinct (Entries.insert entries key value) := by
  unfold Distinct at *
  rw [keys_insert]
  split
  · exact h
  · rename_i hm
    rw [List.nodup_append]
    refine ⟨h, by simp, ?_⟩
    intro a ha b hb
    rw [List.mem_singleton] at hb
    exact fun hab => hm (hb ▸ hab ▸ ha)

theorem Distinct.insertAll : ∀ (pairs : List (κ × α)) {entries : List (κ × α)},
    Distinct entries → Distinct (Entries.insertAll entries pairs)
  | [], _, h => h
  | pair :: rest, _, h => Distinct.insertAll rest (h.insert pair.1 pair.2)

theorem distinct_ofPairs (pairs : List (κ × α)) : Distinct (ofPairs pairs) :=
  Distinct.insertAll pairs Distinct.nil

end Entries

end TreeScript
