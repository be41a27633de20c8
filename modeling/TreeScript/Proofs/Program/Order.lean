import TreeScript.Proofs.Program.Shape

/-!
# The members of a node may stand in any order

The decoder goes over the members of an object from the front, with a list of the fields that it has
found so far.  Of that list only the look-ups matter, `decodeMembers_congr`, and a field is added to
it once at most, so that two members that change places leave the same look-ups behind.  From there
to any order it is an induction on the permutation: `decodeMembers_perm` for the fields,
`findTag_perm` for the tag, and `ofMembers_perm` for the node.

What is shown is that success does not depend on the order.  Which violation is reported does: it is
the first one in the text.
-/

namespace TreeScript.Tree

variable {fields : List Field} {found found' r : List (String × Tree)}
  {members members' : List (String × Json)}

/-! ## 1. One member after the other -/

/-- Whether two lists of fields give the same answer to every look-up. -/
def SameFound (found found' : List (String × Tree)) : Prop :=
  ∀ name, found.lookup name = found'.lookup name

theorem SameFound.cons (h : SameFound found found') (entry : String × Tree) :
    SameFound (entry :: found) (entry :: found') := by
  intro name
  rw [List.lookup_cons, List.lookup_cons, h name]

theorem SameFound.trans {found'' : List (String × Tree)} (h : SameFound found found')
    (h' : SameFound found' found'') : SameFound found found'' :=
  fun name => (h name).trans (h' name)

/-- Two fields of different names can be found in either order. -/
theorem sameFound_swap {a b : String × Tree} (h : a.1 ≠ b.1) (found : List (String × Tree)) :
    SameFound (a :: b :: found) (b :: a :: found) := by
  obtain ⟨nameA, treeA⟩ := a
  obtain ⟨nameB, treeB⟩ := b
  intro name
  by_cases ha : name = nameA
  · subst ha
    have hb : (name == nameB) = false := beq_eq_false_iff_ne.mpr h
    simp only [List.lookup_cons, hb, BEq.rfl]
  · have ha' : (name == nameA) = false := beq_eq_false_iff_ne.mpr ha
    simp only [List.lookup_cons, ha']

/-- What it takes to decode one member more: either no field is called like it, or one is that was
not found before, and its value is decoded. -/
theorem decodeMembers_cons {name : String} {value : Json} {rest : List (String × Json)} :
    decodeMembers fields found ((name, value) :: rest) = .ok r ↔
      (fields.find? (fun f => f.isCalled name) = none ∧
        decodeMembers fields found rest = .ok r) ∨
      ∃ f t, fields.find? (fun f => f.isCalled name) = some f ∧ found.lookup f.name = none ∧
        decode f.count f.atom value = .ok t ∧
        decodeMembers fields ((f.name, t) :: found) rest = .ok r := by
  rw [decodeMembers]
  cases hfind : fields.find? (fun f => f.isCalled name) with
  | none => simp
  | some f =>
    cases hfound : found.lookup f.name with
    | some t => simp [hfound, -List.lookup_eq_none_iff]
    | none =>
      cases hdecode : decode f.count f.atom value with
      | error e => simp [hfound, hdecode, bind, Except.bind, -List.lookup_eq_none_iff]
      | ok t => simp [hfound, hdecode, bind, Except.bind, -List.lookup_eq_none_iff]

/-- **Of what was found before, only the look-ups matter.** -/
theorem decodeMembers_congr (hsame : SameFound found found')
    (h : decodeMembers fields found members = .ok r) :
    ∃ r', decodeMembers fields found' members = .ok r' ∧ SameFound r r' := by
  induction members generalizing found found' with
  | nil =>
    simp only [decodeMembers, Except.ok.injEq] at h ⊢
    exact ⟨found', rfl, h ▸ hsame⟩
  | cons member rest ih =>
    obtain ⟨name, value⟩ := member
    rcases decodeMembers_cons.mp h with ⟨hfind, hrest⟩ | ⟨f, t, hfind, hnew, ht, hrest⟩
    · obtain ⟨r', hr', hsame'⟩ := ih hsame hrest
      exact ⟨r', decodeMembers_cons.mpr (.inl ⟨hfind, hr'⟩), hsame'⟩
    · obtain ⟨r', hr', hsame'⟩ := ih (hsame.cons (f.name, t)) hrest
      have hnew' : found'.lookup f.name = none := (hsame f.name).symm.trans hnew
      exact ⟨r', decodeMembers_cons.mpr (.inr ⟨f, t, hfind, hnew', ht, hr'⟩), hsame'⟩

/-- Two members can change places. -/
theorem decodeMembers_swap {a b : String × Json} {rest : List (String × Json)}
    (h : decodeMembers fields found (a :: b :: rest) = .ok r) :
    ∃ r', decodeMembers fields found (b :: a :: rest) = .ok r' ∧ SameFound r r' := by
  obtain ⟨nameA, valueA⟩ := a
  obtain ⟨nameB, valueB⟩ := b
  rcases decodeMembers_cons.mp h with ⟨hfindA, h⟩ | ⟨f, t, hfindA, hnewA, htA, h⟩
  · rcases decodeMembers_cons.mp h with ⟨hfindB, h⟩ | ⟨g, u, hfindB, hnewB, htB, h⟩
    · exact ⟨r, decodeMembers_cons.mpr (.inl ⟨hfindB, decodeMembers_cons.mpr (.inl ⟨hfindA, h⟩)⟩),
        fun _ => rfl⟩
    · exact ⟨r, decodeMembers_cons.mpr (.inr ⟨g, u, hfindB, hnewB, htB,
        decodeMembers_cons.mpr (.inl ⟨hfindA, h⟩)⟩), fun _ => rfl⟩
  · rcases decodeMembers_cons.mp h with ⟨hfindB, h⟩ | ⟨g, u, hfindB, hnewB, htB, h⟩
    · exact ⟨r, decodeMembers_cons.mpr (.inl ⟨hfindB,
        decodeMembers_cons.mpr (.inr ⟨f, t, hfindA, hnewA, htA, h⟩)⟩), fun _ => rfl⟩
    · -- both are fields: the second was not found after the first, so they are different ones
      have hne : g.name ≠ f.name := by
        intro heq
        simp [heq] at hnewB
      have hnewB' : found.lookup g.name = none := by
        rwa [List.lookup_cons, beq_eq_false_iff_ne.mpr hne] at hnewB
      have hnewA' : ((g.name, u) :: found).lookup f.name = none := by
        rwa [List.lookup_cons, beq_eq_false_iff_ne.mpr hne.symm]
      obtain ⟨r', hr', hsame⟩ := decodeMembers_congr
        (sameFound_swap (a := (g.name, u)) (b := (f.name, t)) hne found) h
      exact ⟨r', decodeMembers_cons.mpr (.inr ⟨g, u, hfindB, hnewB', htB,
        decodeMembers_cons.mpr (.inr ⟨f, t, hfindA, hnewA', htA, hr'⟩)⟩), hsame⟩

/-! ## 2. Any order -/

/-- **The fields of a node are found in any order of its members.** -/
theorem decodeMembers_perm (hperm : members.Perm members')
    (h : decodeMembers fields found members = .ok r) :
    ∃ r', decodeMembers fields found members' = .ok r' ∧ SameFound r r' := by
  induction hperm generalizing found r with
  | nil => exact ⟨r, h, fun _ => rfl⟩
  | cons member _ ih =>
    obtain ⟨name, value⟩ := member
    rcases decodeMembers_cons.mp h with ⟨hfind, h⟩ | ⟨f, t, hfind, hnew, ht, h⟩
    · obtain ⟨r', hr', hsame⟩ := ih h
      exact ⟨r', decodeMembers_cons.mpr (.inl ⟨hfind, hr'⟩), hsame⟩
    · obtain ⟨r', hr', hsame⟩ := ih h
      exact ⟨r', decodeMembers_cons.mpr (.inr ⟨f, t, hfind, hnew, ht, hr'⟩), hsame⟩
  | swap a b rest => exact decodeMembers_swap h
  | trans _ _ ih ih' =>
    obtain ⟨r', hr', hsame⟩ := ih h
    obtain ⟨r'', hr'', hsame'⟩ := ih' hr'
    exact ⟨r'', hr'', hsame.trans hsame'⟩

theorem assemble_congr (h : SameFound found found') : ∀ fields : List Field,
    assemble found fields = assemble found' fields
  | [] => rfl
  | f :: fields => by
    rw [assemble, assemble, h f.name, assemble_congr h fields]

/-- **A node is decoded in any order of its members.** -/
theorem ofMembers_perm {tag : Tag} {t : Tree} (hperm : members.Perm members')
    (h : ofMembers tag members = .ok t) : ofMembers tag members' = .ok t := by
  unfold ofMembers at h ⊢
  cases hdecode : decodeMembers tag.fields [] members with
  | error e =>
    rw [hdecode] at h
    cases h
  | ok r =>
    obtain ⟨r', hr', hsame⟩ := decodeMembers_perm hperm hdecode
    rw [hdecode] at h
    rw [hr']
    simp only [bind, Except.bind] at h ⊢
    rw [← assemble_congr hsame]
    exact h

/-- What it takes to look at one member more for the tag: it is not the tag, or it is the first
that is. -/
theorem findTag_cons {cls : NodeClass} {tag? r : Option Tag} {name : String} {value : Json}
    {rest : List (String × Json)} :
    findTag cls tag? ((name, value) :: rest) = .ok r ↔
      (name ≠ "type" ∧ findTag cls tag? rest = .ok r) ∨
      (name = "type" ∧ tag? = none ∧
        ∃ tag, decodeTag cls value = .ok tag ∧ findTag cls (some tag) rest = .ok r) := by
  rw [findTag]
  by_cases hname : name = "type"
  · cases tag? with
    | some tag => simp [hname]
    | none => cases decodeTag cls value <;> simp [hname, bind, Except.bind]
  · simp [hname]

/-- **The tag of a node is found in any order of its members.** -/
theorem findTag_perm {cls : NodeClass} {found r : Option Tag} (hperm : members.Perm members')
    (h : findTag cls found members = .ok r) : findTag cls found members' = .ok r := by
  induction hperm generalizing found r with
  | nil => exact h
  | cons member _ ih =>
    obtain ⟨name, value⟩ := member
    rcases findTag_cons.mp h with ⟨hname, h⟩ | ⟨hname, hfound, tag, htag, h⟩
    · exact findTag_cons.mpr (.inl ⟨hname, ih h⟩)
    · exact findTag_cons.mpr (.inr ⟨hname, hfound, tag, htag, ih h⟩)
  | swap a b rest =>
    obtain ⟨nameA, valueA⟩ := a
    obtain ⟨nameB, valueB⟩ := b
    rcases findTag_cons.mp h with ⟨hnameB, h⟩ | ⟨hnameB, hfound, tag, htag, h⟩
    · rcases findTag_cons.mp h with ⟨hnameA, h⟩ | ⟨hnameA, hfound, tag, htag, h⟩
      · exact findTag_cons.mpr (.inl ⟨hnameA, findTag_cons.mpr (.inl ⟨hnameB, h⟩)⟩)
      · exact findTag_cons.mpr (.inr ⟨hnameA, hfound, tag, htag,
          findTag_cons.mpr (.inl ⟨hnameB, h⟩)⟩)
    · rcases findTag_cons.mp h with ⟨hnameA, h⟩ | ⟨hnameA, hfound', _, _, _⟩
      · exact findTag_cons.mpr (.inl ⟨hnameA,
          findTag_cons.mpr (.inr ⟨hnameB, hfound, tag, htag, h⟩)⟩)
      · cases hfound'
  | trans _ _ ih ih' => exact ih' (ih h)

theorem objectTag_perm {cls : NodeClass} {tag : Tag} (hperm : members.Perm members')
    (h : objectTag cls members = .ok tag) : objectTag cls members' = .ok tag := by
  unfold objectTag at h ⊢
  cases hrecord : cls.record? with
  | some record =>
    rw [hrecord] at h
    exact h
  | none =>
    rw [hrecord] at h
    cases hfind : findTag cls none members with
    | error e =>
      rw [hfind] at h
      cases h
    | ok tag? =>
      rw [hfind] at h
      rw [findTag_perm hperm hfind]
      exact h

theorem decode_object {count : Count} (hcount : count ≠ .many) (cls : NodeClass)
    (members : List (String × Json)) :
    decode count (.node cls) (.object members) = (do
      let tag ← objectTag cls members
      ofMembers tag members) := by
  cases count with
  | many => exact absurd rfl hcount
  | _ =>
    simp only [decode]
    rfl

/-- **An object is the same node in any order of its members.** -/
theorem decode_object_perm {count : Count} {cls : NodeClass} {t : Tree} (hcount : count ≠ .many)
    (hperm : members.Perm members') (h : decode count (.node cls) (.object members) = .ok t) :
    decode count (.node cls) (.object members') = .ok t := by
  rw [decode_object hcount] at h ⊢
  cases htag : objectTag cls members with
  | error e =>
    rw [htag] at h
    cases h
  | ok tag =>
    rw [htag] at h
    rw [objectTag_perm hperm htag]
    exact ofMembers_perm hperm h

end TreeScript.Tree
