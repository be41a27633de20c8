import TreeScript.Launch
import TreeScript.Proofs.Json.Value
import TreeScript.Proofs.Program.Spelling
import TreeScript.Proofs.Program.Tree

/-!
# A program is loaded as it was saved

The reader of programs checks the root and the top-level statements while the text is read, and
everything below them when it was read.  On the text of a program both come to the same: a
statement is read member by member, its tag first, and what its members hold is decoded into the
tree that was written.

**Depth.**  The root, the list of its statements and each statement open one object or array
themselves, so that `Program.statementDepth` is what is left of the limit of the format inside a
statement.  `ReadsBack` adds the three again, and the limit of the whole is exact: a program whose
text nests 127 deep is loaded, and one whose text nests deeper is not, see
`Launch.programOfText_toText`.
-/

namespace TreeScript

namespace Program

open Json (Separated ReadsBack ReadsMember limited writeText writeMembers writeMoreMembers)
open TreeScript.Tree (Fits FitsAll FitsFields)

/-! ## 1. Members of a statement -/

theorem liftJson_limited {α : Type} (depth limit : Nat) (a : α) :
    liftJson (limited id depth limit a) = limited .json depth limit a := by
  unfold limited
  split <;> rfl

/-- The tag of a statement is read as it was written. -/
theorem readTag_write {tag : Tag} (htag : tag ∈ NodeClass.statement.tags) (rest : List Char) :
    readTag (writeText tag.word ++ rest) = .ok (tag, rest) := by
  have hquote : readTag (writeText tag.word ++ rest) = (do
      let r ← liftJson
        (Json.readString (tag.word.toList.flatMap Json.escapeChar ++ ['"'] ++ rest))
      let tag ← liftSchema (Tree.tagOfWord .statement r.1)
      return (tag, r.2)) := rfl
  rw [hquote, List.append_assoc, List.singleton_append, Json.readString_write]
  simp only [liftJson, Except.mapError, bind, Except.bind, Tree.tagOfWord_word htag]
  rfl

theorem readStatementMember_tag (limit : Nat) {tag : Tag}
    (htag : tag ∈ NodeClass.statement.tags) (rest : List Char) :
    readStatementMember limit (none, []) "type" (':' :: (writeText tag.word ++ rest)) =
      .ok ((some tag, []), rest) := by
  have hcolon : readStatementMember limit (none, []) "type"
      (':' :: (writeText tag.word ++ rest)) = (do
        let r ← readTag (writeText tag.word ++ rest)
        return ((some r.1, []), r.2)) := rfl
  rw [hcolon, readTag_write htag]
  rfl

/-- The other members are read like the members of any object. -/
theorem readStatementMember_write (limit : Nat) (tag : Tag) {member : String × Json}
    (hname : member.1 ≠ "type") (hvalue : member.2.Legible) :
    ReadsMember .json (readStatementMember limit) limit (fun acc => (some tag, acc)) member := by
  intro acc rest hrest
  have hread := (Json.readValue_write limit member.2 hvalue).read_write rest hrest
  have hcolon : readStatementMember limit (some tag, acc) member.1
      (':' :: (member.2.write ++ rest)) = (do
        let r ← liftJson (Json.readValue limit (member.2.write ++ rest))
        return ((some tag, (member.1, r.1) :: acc), r.2)) := by
    unfold readStatementMember
    rw [if_neg hname]
    rfl
  rw [hcolon, hread, liftJson_limited]
  exact Json.limited_then LoadError.json rfl

theorem legible_of_mem {member : String × Json} : ∀ {members : List (String × Json)},
    Json.LegibleMembers members → member ∈ members → member.2.Legible
  | [], _, hmem => by cases hmem
  | _ :: _, h, hmem => by
    rcases List.mem_cons.mp hmem with rfl | hmem
    · exact h.1
    · exact legible_of_mem h.2 hmem

/-! ## 2. Statements -/

theorem isNamed_statement : ∀ {tag : Tag}, tag ∈ NodeClass.statement.tags → tag.isNamed = true := by
  decide

/-- The fields of a written statement are read after its tag. -/
theorem readMembers_statement (limit : Nat) {tag : Tag} {fields : List Tree}
    (htag : tag ∈ NodeClass.statement.tags) (hfields : FitsFields tag.fields fields)
    (rest : List Char) :
    Json.readMembers .json (readStatementMember limit) (none, [])
        (writeMembers (("type", .text tag.word) :: Tree.toJsonMembers tag.fields fields) ++ rest) =
      limited .json (Json.depthMembers (Tree.toJsonMembers tag.fields fields)) limit
        ((some tag, (Tree.toJsonMembers tag.fields fields).reverse), rest) := by
  have hmembers : ∀ member ∈ Tree.toJsonMembers tag.fields fields,
      ReadsMember .json (readStatementMember limit) limit (fun acc => (some tag, acc)) member := by
    intro member hmem
    refine readStatementMember_write limit tag (fun htype => ?_) ?_
    · exact Tree.type_not_mem (isNamed_statement htag) (htype ▸ Tree.mem_toJsonMembers hmem)
    · exact legible_of_mem (Tree.legible_toJsonMembers tag.fields fields hfields) hmem
  have hothers := Json.readMoreMembers_write LoadError.json rest _ hmembers [] _
    (Json.length_writeMoreMembers rest _)
  rw [Json.writeMembers_cons, List.append_assoc, Json.readMembers_first, List.cons_append,
    List.append_assoc, Json.write, readStatementMember_tag limit htag]
  refine hothers.trans ?_
  rw [List.append_nil]

/-- **A statement is read as it was written.** -/
theorem readStatement_write (limit : Nat) {tag : Tag} {fields : List Tree}
    (htag : tag ∈ NodeClass.statement.tags) (hfields : FitsFields tag.fields fields) :
    ReadsBack .json (readStatement limit) (limit + 1) (.node tag fields)
      (Tree.toJson (.node tag fields)) := by
  have hfits : Fits .one (.node .statement) (.node tag fields) := Tree.fits_node htag hfields
  have hjson : Tree.toJson (.node tag fields) =
      .object (("type", .text tag.word) :: Tree.toJsonMembers tag.fields fields) := by
    rw [Tree.toJson, isNamed_statement htag]
    rfl
  refine ⟨Tree.legible_toJson _ hfits, fun rest _ => ?_⟩
  have hdepth : Json.depthMembers (("type", .text tag.word) ::
      Tree.toJsonMembers tag.fields fields) =
      Json.depthMembers (Tree.toJsonMembers tag.fields fields) := by
    simp [Json.depthMembers, Json.depth]
  have hobject : readStatement limit ('\x7b' :: (writeMembers (("type", .text tag.word) ::
      Tree.toJsonMembers tag.fields fields) ++ rest)) = readStatementObject limit
        (writeMembers (("type", .text tag.word) :: Tree.toJsonMembers tag.fields fields) ++ rest) :=
    rfl
  rw [hjson, Json.depth, hdepth, Json.limited_succ, Json.write, List.cons_append, hobject]
  unfold readStatementObject
  rw [readMembers_statement limit htag hfields]
  refine Json.limited_then LoadError.json ?_
  simp only [bind, Except.bind, List.reverse_reverse, Tree.ofMembers_toJson hfields]
  rfl

theorem readStatement_writes (limit : Nat) : ∀ {ts : List Tree},
    FitsAll (.node .statement) ts →
    List.Forall₂ (ReadsBack .json (readStatement limit) (limit + 1)) ts (Tree.toJsonItems ts)
  | [], _ => by
    rw [Tree.toJsonItems]
    exact .nil
  | _ :: _, .cons (.node _ htag hfields) hrest => by
    rw [Tree.toJsonItems]
    exact .cons (readStatement_write limit htag hfields) (readStatement_writes limit hrest)

/-- The list of the statements is read as it was written. -/
theorem readStatements_write (limit : Nat) {ts : List Tree} (h : FitsAll (.node .statement) ts) :
    ReadsBack .json (readStatements limit) (limit + 2) ts (.array (Tree.toJsonItems ts)) := by
  refine ⟨Tree.legible_toJsonItems ts h, fun rest _ => ?_⟩
  have hitems := Json.readItems_write LoadError.json (readStatement_writes limit h) rest
  rw [Json.depth, Json.limited_succ, Json.write, List.cons_append]
  exact hitems

/-! ## 3. The root -/

theorem readRootMember_write {ts : List Tree} (h : FitsAll (.node .statement) ts)
    {rest : List Char} (hrest : Separated rest) :
    readRootMember none "statements"
        (':' :: ((Json.array (Tree.toJsonItems ts)).write ++ rest)) =
      limited .json (Json.array (Tree.toJsonItems ts)).depth (statementDepth + 2)
        (some ts, rest) := by
  have hcolon : readRootMember none "statements"
      (':' :: ((Json.array (Tree.toJsonItems ts)).write ++ rest)) = (do
        let r ← readStatements statementDepth ((Json.array (Tree.toJsonItems ts)).write ++ rest)
        return (some r.1, r.2)) := rfl
  rw [hcolon, (readStatements_write statementDepth h).read_write rest hrest]
  exact Json.limited_then LoadError.json rfl

/-- **The root of a program is read as it was written.** -/
theorem readRoot_write {ts : List Tree} (h : FitsAll (.node .statement) ts) (rest : List Char) :
    readRoot ((Tree.toJson (.node .program [.list ts])).write ++ rest) =
      limited .json (Tree.toJson (.node .program [.list ts])).depth Json.depthLimit (ts, rest) := by
  have hjson : Tree.toJson (.node .program [.list ts]) =
      .object [("statements", .array (Tree.toJsonItems ts))] := by
    simp [Tree.toJson, Tree.toJsonMembers, Tag.fields, Tag.isNamed]
  have hlimit : Json.depthLimit = statementDepth + 2 + 1 := rfl
  have hobject (members : List Char) : readRoot ('\x7b' :: members) = (do
      let r ← Json.readMembers .json readRootMember none members
      return (r.1.getD [], r.2)) := rfl
  have hmembers : Json.readMembers .json readRootMember none
      (writeMembers [("statements", .array (Tree.toJsonItems ts))] ++ rest) =
      limited .json (Json.array (Tree.toJsonItems ts)).depth (statementDepth + 2)
        (some ts, rest) := by
    rw [Json.writeMembers_cons, List.append_assoc, Json.readMembers_first, List.cons_append,
      List.append_assoc, readRootMember_write h (Json.separated_writeMoreMembers [] rest)]
    exact Json.limited_then LoadError.json rfl
  rw [hjson, Json.depth, hlimit, Json.limited_succ, Json.write, List.cons_append, hobject, hmembers,
    Json.depthMembers, Json.depthMembers, Nat.max_zero]
  exact Json.limited_then LoadError.json rfl

/-! ## 4. Programs -/

/-- A program whose trees fit the schema is loaded as it was saved, unless its text nests too
deep. -/
theorem ofText_toText_of_fits (p : Program)
    (h : FitsAll (.node .statement) (Stmt.toTrees p.statements)) :
    ofText p.toText = limited .json p.toJson.depth Json.depthLimit p := by
  have hread := readRoot_write h []
  have htree : Tree.toJson (.node .program [.list (Stmt.toTrees p.statements)]) = p.toJson := rfl
  rw [List.append_nil, htree] at hread
  have htrees : readTrees p.toText =
      limited .json p.toJson.depth Json.depthLimit (Stmt.toTrees p.statements) := by
    unfold readTrees toText Json.toText
    rw [String.toList_ofList, hread]
    exact Json.limited_then LoadError.json rfl
  unfold ofText
  rw [htrees]
  refine Json.limited_then LoadError.json ?_
  simp only [Stmt.ofTrees?_toTrees p.statements]
  rfl

/-- **A program is loaded as it was saved**, unless its text nests too deep. -/
theorem ofText_toText (p : Program) (h : ∀ v ∈ p.payloads, v.IsValue) :
    ofText p.toText = limited .json p.toJson.depth Json.depthLimit p :=
  p.ofText_toText_of_fits (Stmt.fits_toTrees p.statements h)

end Program

/-! ## 5. Launching -/

/-- **Loading undoes saving, up to the depth that the format allows.**  A program whose literals
hold values comes back from its text; if the arrays and objects of the text nest too deep, it is
malformed. -/
theorem Launch.programOfText_toText (p : Program) (h : ∀ v ∈ p.payloads, v.IsValue) :
    (p.toJson.depth ≤ 127 → programOfText p.toText = .ok p) ∧
    (127 < p.toJson.depth →
      programOfText p.toText = .error (.malformedTree "recursion limit exceeded")) := by
  have hload := p.ofText_toText h
  unfold programOfText
  constructor
  · intro hdepth
    have hok : Program.ofText p.toText = .ok p := by
      rw [hload]
      exact if_pos hdepth
    rw [hok]
    rfl
  · intro hdepth
    have herror : Program.ofText p.toText = .error (.json .tooDeep) := by
      rw [hload]
      exact if_neg (Nat.not_le.mpr hdepth)
    rw [herror]
    rfl

/-- A literal inside 61 blocks.  The payload begins at a depth of 126. -/
def Program.buried (payload : Json) : Program :=
  ⟨[(fun s => Stmt.block [s])^[61] (.evaluate (.literal payload .text))]⟩

/-- One more object still fits; an array in it does not. -/
theorem Launch.programOfText_buried :
    programOfText (Program.buried (.object [("a", .double 2.5), ("b", .integer (-7))])).toText =
      .ok (Program.buried (.object [("a", .double 2.5), ("b", .integer (-7))])) ∧
    programOfText (Program.buried (.object [("a", .array [])])).toText =
      .error (.malformedTree "recursion limit exceeded") := by
  constructor
  · refine (programOfText_toText _ fun v hv => ?_).1 (by decide +kernel)
    obtain rfl : v = .object [("a", .double 2.5), ("b", .integer (-7))] := by
      simpa [Program.buried, Program.payloads, Stmt.payloadsAll, Stmt.payloads,
        Expr.payloads] using hv
    have hdouble : Binary64.ofFloat 2.5 = .finite false 5629499534213120 1023 := by decide +kernel
    refine ⟨⟨⟨false, 5629499534213120, 1023, hdouble⟩, ⟨by decide, by decide⟩, trivial⟩, ?_⟩
    refine ⟨by decide, trivial, trivial, trivial⟩
  · refine (programOfText_toText _ fun v hv => ?_).2 (by decide +kernel)
    obtain rfl : v = .object [("a", .array [])] := by
      simpa [Program.buried, Program.payloads, Stmt.payloadsAll, Stmt.payloads,
        Expr.payloads] using hv
    exact ⟨⟨trivial, trivial⟩, by decide, trivial, trivial⟩

end TreeScript
