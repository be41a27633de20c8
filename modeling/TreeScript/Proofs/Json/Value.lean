import TreeScript.Proofs.Json.Depth

/-!
# Values are read as they were written

The two loops that read arrays and objects are told how to read one item and one member.
`readItems_write` and `readMembers_write` say what they make of a written array and a written object
whatever that is, as long as it reads back one item or one member; they serve the values of this
module and the nodes of a program alike.  `readValue_write` closes the circle for values.

A value that nests too deep is refused with `tooDeep`, also inside other values: what stands before
it is read without complaint, and what stands after it is not reached.
-/

namespace TreeScript.Json

section Loops

variable {ε α σ : Type} (refuse : JsonError → ε) {read : Reader ε α} {limit : Nat}

/-! ## 1. Arrays -/

/-- How a reader has to deal with the text of a value: it gives back what the value stands for,
unless the value is too deep. -/
structure ReadsBack (read : Reader ε α) (limit : Nat) (a : α) (j : Json) : Prop where
  legible : j.Legible
  read_write : ∀ rest, Separated rest →
    read (j.write ++ rest) = limited refuse j.depth limit (a, rest)

theorem readMoreItems_end (t : Char) (turns rest : List Char) :
    readMoreItems refuse read (t :: turns) (']' :: rest) = .ok ([], rest) := rfl

theorem readMoreItems_comma {c : Char} (hc : IsFirst c) (t : Char) (turns tail : List Char) :
    readMoreItems refuse read (t :: turns) (',' :: c :: tail) = (do
      let (first, rest) ← read (c :: tail)
      let (others, rest) ← readMoreItems refuse read turns rest
      return (first :: others, rest)) := by
  obtain ⟨hspace, hend⟩ := hc
  have hcomma : dropSpace (',' :: c :: tail) = ',' :: c :: tail := dropSpace_cons rfl _
  rw [readMoreItems, hcomma]
  split
  · rename_i heq
    cases heq
  · rename_i heq
    exact absurd (List.cons.inj heq).1 (by decide)
  · rename_i heq
    obtain rfl := (List.cons.inj heq).2
    rw [dropSpace_cons hspace]
    split
    · rename_i heq
      cases heq
    · rename_i heq
      exact absurd (List.cons.inj heq).1 hend
    · rfl
  · rename_i hother
    exact absurd rfl (hother (c :: tail))

theorem readItems_first {c : Char} (hc : IsFirst c) (tail : List Char) :
    readItems refuse read (c :: tail) = (do
      let (first, rest) ← read (c :: tail)
      let (others, rest) ← readMoreItems refuse read rest rest
      return (first :: others, rest)) := by
  obtain ⟨hspace, hend⟩ := hc
  unfold readItems
  rw [dropSpace_cons hspace]
  split
  · rename_i heq
    cases heq
  · rename_i heq
    exact absurd (List.cons.inj heq).1 hend
  · rfl

theorem readMoreItems_write {as : List α} {js : List Json}
    (h : List.Forall₂ (ReadsBack refuse read limit) as js) (rest : List Char) :
    ∀ turns : List Char, js.length < turns.length →
      readMoreItems refuse read turns (writeMoreItems js ++ rest) =
        limited refuse (depthItems js) limit (as, rest) := by
  induction h with
  | nil =>
    intro turns hturns
    cases turns with
    | nil => cases hturns
    | cons t turns =>
      rw [writeMoreItems, List.singleton_append, readMoreItems_end, depthItems, limited_zero]
  | @cons a j as js hhead _ ih =>
    intro turns hturns
    cases turns with
    | nil => cases hturns
    | cons t turns =>
      have hmore := separated_writeMoreItems js rest
      obtain ⟨c, tail, hcs, hfirst⟩ := exists_write hhead.legible hmore
      have hothers := ih turns (Nat.lt_of_succ_lt_succ hturns)
      rw [writeMoreItems, List.cons_append, List.append_assoc, hcs,
        readMoreItems_comma refuse hfirst, ← hcs, hhead.read_write _ hmore, depthItems]
      refine limited_bind refuse ?_
      dsimp only
      rw [hothers]
      exact limited_then refuse rfl

/-- **A written array is read item by item.** -/
theorem readItems_write {as : List α} {js : List Json}
    (h : List.Forall₂ (ReadsBack refuse read limit) as js) (rest : List Char) :
    readItems refuse read (writeItems js ++ rest) =
      limited refuse (depthItems js) limit (as, rest) := by
  cases h with
  | nil =>
    simp only [writeItems, depthItems, limited_zero]
    rfl
  | @cons a j as js hhead htail =>
    have hmore := separated_writeMoreItems js rest
    obtain ⟨c, tail, hcs, hfirst⟩ := exists_write hhead.legible hmore
    rw [writeItems_cons, List.append_assoc, hcs, readItems_first refuse hfirst, ← hcs,
      hhead.read_write _ hmore, depthItems]
    refine limited_bind refuse ?_
    dsimp only
    rw [readMoreItems_write refuse htail rest _ (length_writeMoreItems rest js)]
    exact limited_then refuse rfl

/-! ## 2. Objects -/

variable {step : σ → String → Reader ε σ} {state : List (String × Json) → σ}

/-- How the step of an object has to deal with a member: it puts it before the members that were
read, unless the member's value is too deep. -/
def ReadsMember (step : σ → String → Reader ε σ) (limit : Nat) (state : List (String × Json) → σ)
    (member : String × Json) : Prop :=
  ∀ acc rest, Separated rest → step (state acc) member.1 (':' :: (member.2.write ++ rest)) =
    limited refuse member.2.depth limit (state (member :: acc), rest)

theorem readMember_write (s : σ) (name : String) (cs : List Char) :
    readMember refuse step s (name.toList.flatMap escapeChar ++ '"' :: cs) = step s name cs := by
  unfold readMember
  rw [readString_write]

theorem readMoreMembers_end (t : Char) (turns rest : List Char) (s : σ) :
    readMoreMembers refuse step (t :: turns) s ('\x7d' :: rest) = .ok (s, rest) := rfl

theorem readMoreMembers_comma (t : Char) (turns : List Char) (s : σ) (name : String)
    (cs : List Char) :
    readMoreMembers refuse step (t :: turns) s (',' :: (writeText name ++ cs)) = (do
      let (s, rest) ← step s name cs
      readMoreMembers refuse step turns s rest) := by
  have hcomma : readMoreMembers refuse step (t :: turns) s (',' :: (writeText name ++ cs)) = (do
      let (s, rest) ← readMember refuse step s (name.toList.flatMap escapeChar ++ ['"'] ++ cs)
      readMoreMembers refuse step turns s rest) := rfl
  rw [hcomma, List.append_assoc, List.singleton_append, readMember_write]

theorem readMembers_first (s : σ) (name : String) (cs : List Char) :
    readMembers refuse step s (writeText name ++ cs) = (do
      let (s, rest) ← step s name cs
      readMoreMembers refuse step rest s rest) := by
  have hfirst : readMembers refuse step s (writeText name ++ cs) = (do
      let (s, rest) ← readMember refuse step s (name.toList.flatMap escapeChar ++ ['"'] ++ cs)
      readMoreMembers refuse step rest s rest) := rfl
  rw [hfirst, List.append_assoc, List.singleton_append, readMember_write]

theorem readMoreMembers_write (rest : List Char) : ∀ members : List (String × Json),
    (∀ member ∈ members, ReadsMember refuse step limit state member) →
    ∀ (acc : List (String × Json)) (turns : List Char), members.length < turns.length →
      readMoreMembers refuse step turns (state acc) (writeMoreMembers members ++ rest) =
        limited refuse (depthMembers members) limit (state (members.reverse ++ acc), rest)
  | _, _, _, [], hturns => absurd hturns (Nat.not_lt_zero _)
  | [], _, acc, t :: turns, _ => by
    rw [writeMoreMembers, List.singleton_append, readMoreMembers_end, depthMembers, limited_zero]
    rfl
  | (name, value) :: members, h, acc, t :: turns, hturns => by
    have hmember := h (name, value) List.mem_cons_self
    have hothers := readMoreMembers_write rest members
      (fun member hmem => h member (List.mem_cons_of_mem _ hmem)) ((name, value) :: acc) turns
      (Nat.lt_of_succ_lt_succ hturns)
    rw [writeMoreMembers, List.cons_append, List.append_assoc, readMoreMembers_comma,
      List.cons_append, List.append_assoc,
      hmember acc _ (separated_writeMoreMembers members rest), depthMembers]
    refine limited_bind refuse ?_
    dsimp only
    rw [hothers, List.reverse_cons, List.append_assoc, List.singleton_append]

/-- **A written object is read member by member.** -/
theorem readMembers_write (rest : List Char) (members : List (String × Json))
    (h : ∀ member ∈ members, ReadsMember refuse step limit state member) :
    readMembers refuse step (state []) (writeMembers members ++ rest) =
      limited refuse (depthMembers members) limit (state members.reverse, rest) := by
  match members with
  | [] =>
    simp only [writeMembers, depthMembers, limited_zero]
    rfl
  | (name, value) :: members =>
    have hmember := h (name, value) List.mem_cons_self
    have hothers := readMoreMembers_write refuse rest members
      (fun member hmem => h member (List.mem_cons_of_mem _ hmem)) [(name, value)] _
      (length_writeMoreMembers rest members)
    rw [writeMembers_cons, List.append_assoc, readMembers_first, List.cons_append,
      List.append_assoc, hmember [] _ (separated_writeMoreMembers members rest), depthMembers]
    refine limited_bind refuse ?_
    dsimp only
    rw [hothers, List.reverse_cons]

end Loops

/-! ## 3. Values -/

/-- One member of an object that is read as a value. -/
def readValueMember (limit : Nat) (members : List (String × Json)) (name : String) :
    Reader JsonError (List (String × Json)) := fun rest => do
  let rest ← readColon id rest
  let (value, rest) ← readValue limit rest
  return ((name, value) :: members, rest)

theorem readValue_array (limit : Nat) (rest : List Char) :
    readValue (limit + 1) ('[' :: rest) = (do
      let (items, rest) ← readItems id (readValue limit) rest
      return (.array items, rest)) := rfl

theorem readValue_object (limit : Nat) (rest : List Char) :
    readValue (limit + 1) ('\x7b' :: rest) = (do
      let (members, rest) ← readMembers id (readValueMember limit) [] rest
      return (.object members.reverse, rest)) := rfl

theorem readsBack_leaf {j : Json} (limit : Nat) (hleaf : j.IsLeaf) (hj : j.Legible) :
    ReadsBack id (readValue limit) limit j j := by
  refine ⟨hj, fun rest hrest => ?_⟩
  rw [depth_of_isLeaf hleaf, limited_zero]
  exact readValue_of_readLeaf (readLeaf_write hleaf hj hrest) limit

mutual

/-- **A value is read as it was written**, unless it nests too deep. -/
theorem readValue_write (limit : Nat) : ∀ j : Json, j.Legible →
    ReadsBack id (readValue limit) limit j j
  | .array items, hj => by
    refine ⟨hj, fun rest hrest => ?_⟩
    rw [depth, write, List.cons_append]
    cases limit with
    | zero => exact (limited_succ_zero id _ _).symm
    | succ limit =>
      rw [limited_succ, readValue_array, readItems_write id (readValue_items limit items hj) rest]
      exact limited_then id rfl
  | .object members, hj => by
    refine ⟨hj, fun rest hrest => ?_⟩
    rw [depth, write, List.cons_append]
    cases limit with
    | zero => exact (limited_succ_zero id _ _).symm
    | succ limit =>
      have hread : readMembers id (readValueMember limit) [] (writeMembers members ++ rest) =
          limited id (depthMembers members) limit (members.reverse, rest) :=
        readMembers_write id rest members (readValue_members limit members hj)
      rw [limited_succ, readValue_object, hread]
      refine limited_then id ?_
      simp only [List.reverse_reverse]
      rfl
  | .null, hj => readsBack_leaf limit trivial hj
  | .boolean _, hj => readsBack_leaf limit trivial hj
  | .integer _, hj => readsBack_leaf limit trivial hj
  | .double _, hj => readsBack_leaf limit trivial hj
  | .text _, hj => readsBack_leaf limit trivial hj

theorem readValue_items (limit : Nat) : ∀ items : List Json, LegibleItems items →
    List.Forall₂ (ReadsBack id (readValue limit) limit) items items
  | [], _ => .nil
  | item :: rest, h => .cons (readValue_write limit item h.1) (readValue_items limit rest h.2)

theorem readValue_members (limit : Nat) : ∀ members : List (String × Json),
    LegibleMembers members →
    ∀ member ∈ members, ReadsMember id (readValueMember limit) limit id member
  | [], _, _, hmem => by cases hmem
  | (name, value) :: rest, h, member, hmem => by
    rcases List.mem_cons.mp hmem with rfl | hmem
    · intro acc after hafter
      have hvalue := (readValue_write limit value h.1).read_write after hafter
      have hcolon : readValueMember limit acc name (':' :: (value.write ++ after)) = (do
          let r ← readValue limit (value.write ++ after)
          return ((name, r.1) :: acc, r.2)) := rfl
      rw [hvalue] at hcolon
      exact hcolon.trans (limited_then id rfl)
    · exact readValue_members limit rest h.2 member hmem

end

end TreeScript.Json
