import TreeScript.Proofs.Json.Depth

/-!
# The values that a program holds

A literal of a program holds a JSON value: its numbers are numbers of the format, and its objects
are maps, of which nothing is kept but which name has which value.  They are held with their names
in ascending order, and so sorting the members of such a value changes nothing: `canonical_eq`.
-/

namespace TreeScript.Json

/-! ## 1. Ordered objects -/

mutual

/-- Whether the names of the members ascend in every object of a value. -/
def Ordered : Json → Prop
  | .array items => OrderedItems items
  | .object members => (members.map Prod.fst).Pairwise (· < ·) ∧ OrderedMembers members
  | _ => True

/-- Whether they do in the items of an array. -/
def OrderedItems : List Json → Prop
  | [] => True
  | item :: rest => item.Ordered ∧ OrderedItems rest

/-- Whether they do in the values of the members of an object. -/
def OrderedMembers : List (String × Json) → Prop
  | [] => True
  | (_, value) :: rest => value.Ordered ∧ OrderedMembers rest

end

/-- **A value that a literal can hold**: every number is an integer of 64 bits or a finite double,
and every object has its names in ascending order, each once. -/
structure IsValue (v : Json) : Prop where
  legible : v.Legible
  ordered : v.Ordered

/-! ## 2. Sorting what is sorted -/

/-- A name above all others goes to the end. -/
theorem place_of_lt (name : String) (value : Json) : ∀ members : List (String × Json),
    (∀ member ∈ members, member.1 < name) → place members name value = members ++ [(name, value)]
  | [], _ => rfl
  | (n, v) :: rest, h => by
    have hn : n < name := h (n, v) List.mem_cons_self
    have hrest := place_of_lt name value rest
      fun member hmem => h member (List.mem_cons_of_mem _ hmem)
    rw [place, if_neg (ne_of_lt hn), if_neg (lt_asymm hn), hrest]
    rfl

theorem foldl_place : ∀ (members front : List (String × Json)),
    ((front ++ members).map Prod.fst).Pairwise (· < ·) →
    members.foldl (fun sorted member => place sorted member.1 member.2) front = front ++ members
  | [], front, _ => (List.append_nil front).symm
  | (name, value) :: rest, front, h => by
    have hlt : ∀ member ∈ front, member.1 < name := by
      intro member hmem
      rw [List.map_append, List.pairwise_append] at h
      exact h.2.2 member.1 (List.mem_map_of_mem hmem) name List.mem_cons_self
    have hassoc : front ++ (name, value) :: rest = front ++ [(name, value)] ++ rest := by simp
    rw [List.foldl_cons, place_of_lt name value front hlt, hassoc]
    exact foldl_place rest _ (hassoc ▸ h)

theorem sortMembers_eq {members : List (String × Json)}
    (h : (members.map Prod.fst).Pairwise (· < ·)) : sortMembers members = members :=
  foldl_place members [] h

mutual

/-- **A value whose names ascend is in canonical form.** -/
theorem canonical_eq : ∀ v : Json, v.Ordered → v.canonical = v
  | .array items, h => by rw [canonical, canonicalItems_eq items h]
  | .object members, h => by rw [canonical, canonicalMembers_eq members h.2, sortMembers_eq h.1]
  | .null, _ => by simp [canonical]
  | .boolean _, _ => by simp [canonical]
  | .integer _, _ => by simp [canonical]
  | .double _, _ => by simp [canonical]
  | .text _, _ => by simp [canonical]

theorem canonicalItems_eq : ∀ items : List Json, OrderedItems items → canonicalItems items = items
  | [], _ => by rw [canonicalItems]
  | item :: rest, h => by rw [canonicalItems, canonical_eq item h.1, canonicalItems_eq rest h.2]

theorem canonicalMembers_eq : ∀ members : List (String × Json), OrderedMembers members →
    canonicalMembers members = members
  | [], _ => by rw [canonicalMembers]
  | (name, value) :: rest, h => by
    rw [canonicalMembers, canonical_eq value h.1, canonicalMembers_eq rest h.2]

end

end TreeScript.Json
