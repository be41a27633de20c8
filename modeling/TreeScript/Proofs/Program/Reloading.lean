import TreeScript.Proofs.Program.Checked
import TreeScript.Proofs.Program.Decoded
import TreeScript.Proofs.Program.Unique

/-!
# What was loaded can be saved and loaded again

A program that was loaded from a text, whatever text that was, has trees that fit the schema, and so
its own text is loaded again and gives the same program, as far as nesting allows.

**Depth.**  The text of a program writes what the text that it was loaded from could leave out.  An
empty list is then the one thing at its depth, so that the program's text can nest one deeper than
the text before it, and at the limit of the format it is refused.  `Launch.programOfText_reload` is
exact: the text nests at most 128 deep, it is loaded up to 127, and it is refused at 128.
-/

namespace TreeScript

namespace Program

open Json (IsReadable)

variable {limit : Nat} {cs rest : List Char}

/-! ## 1. What is read of a program -/

theorem mem_tags_of_readTag {tag : Tag} (h : readTag cs = .ok (tag, rest)) :
    tag ∈ NodeClass.statement.tags := by
  unfold readTag at h
  split at h
  · obtain ⟨⟨word, after⟩, -, hthen⟩ := bind_eq_ok.mp h
    obtain ⟨named, hnamed, hend⟩ := bind_eq_ok.mp hthen
    cases hend
    exact (Tree.tagOfWord_eq_ok (mapError_eq_ok.mp hnamed)).1
  · exact absurd h (refuseValue_ne_ok _ _ _)

/-- What is known of a statement while its members are read: its tag is that of a statement, and
what is kept of its members is readable. -/
structure OpenedReadable (limit : Nat) (opened : Opened) : Prop where
  tag : ∀ tag ∈ opened.1, tag ∈ NodeClass.statement.tags
  members : ∀ member ∈ opened.2, member.2.IsReadable limit

theorem openedReadable_step {opened opened' : Opened} {name : String}
    (hopened : OpenedReadable limit opened)
    (h : readStatementMember limit opened name cs = .ok (opened', rest)) :
    OpenedReadable limit opened' := by
  unfold readStatementMember at h
  split at h
  · split at h
    · cases h
    · obtain ⟨after, -, hthen⟩ := bind_eq_ok.mp h
      obtain ⟨⟨tag, after'⟩, htag, hend⟩ := bind_eq_ok.mp hthen
      cases hend
      refine ⟨fun other hother => ?_, hopened.members⟩
      cases hother
      exact mem_tags_of_readTag htag
  · obtain ⟨after, -, hthen⟩ := bind_eq_ok.mp h
    obtain ⟨⟨value, after'⟩, hvalue, hend⟩ := bind_eq_ok.mp hthen
    cases hend
    have hreadable := Json.isReadable_of_readValue (mapError_eq_ok.mp hvalue)
    exact ⟨hopened.tag, List.forall_mem_cons.mpr ⟨hreadable, hopened.members⟩⟩

theorem holds_of_readStatementObject {t : Tree}
    (h : readStatementObject limit cs = .ok (t, rest)) :
    Tree.Holds .one (.node .statement) (limit + 2) t := by
  unfold readStatementObject at h
  obtain ⟨⟨⟨tag?, others⟩, after⟩, hread, hthen⟩ := bind_eq_ok.mp h
  have hopened : OpenedReadable limit (tag?, others) :=
    Json.keeps_of_readMembers LoadError.json (fun _ _ _ _ _ => openedReadable_step)
      ⟨fun _ hnone => absurd hnone (Option.not_mem_none _), List.forall_mem_nil _⟩ hread
  cases tag? with
  | none => cases hthen
  | some tag =>
    obtain ⟨tree, htree, hend⟩ := bind_eq_ok.mp hthen
    cases hend
    refine Tree.holds_of_ofMembers (by decide) (hopened.tag tag rfl) (fun member hmember => ?_)
      (mapError_eq_ok.mp htree)
    exact Tree.decodes_of_isReadable (hopened.members member (List.mem_reverse.mp hmember))

theorem holds_of_readStatementArray {t : Tree} (h : readStatementArray limit cs = .ok (t, rest)) :
    Tree.Holds .one (.node .statement) (limit + 2) t := by
  unfold readStatementArray at h
  split at h
  · cases h
  · cases h
  · obtain ⟨⟨tag, after⟩, htag, hthen⟩ := bind_eq_ok.mp h
    obtain ⟨⟨items, after'⟩, hitems, hfields⟩ := bind_eq_ok.mp hthen
    obtain ⟨tree, htree, hend⟩ := bind_eq_ok.mp hfields
    cases hend
    have hreadable := Json.forall_of_readMoreItems id
      (fun _ _ _ hread => Json.isReadable_of_readValue hread) (mapError_eq_ok.mp hitems)
    exact Tree.holds_of_ofPositions (by decide) (mem_tags_of_readTag htag)
      (fun item hitem => Tree.decodes_of_isReadable (hreadable item hitem)) (mapError_eq_ok.mp htree)

/-- **Every statement that is read fits the schema**, and nests at most one deeper than it may. -/
theorem holds_of_readStatement {t : Tree} (h : readStatement limit cs = .ok (t, rest)) :
    Tree.Holds .one (.node .statement) (limit + 2) t := by
  unfold readStatement at h
  split at h
  · exact holds_of_readStatementArray h
  · exact holds_of_readStatementObject h
  · exact absurd h (refuseValue_ne_ok _ _ _)

theorem holds_of_readStatements {ts : List Tree} (h : readStatements limit cs = .ok (ts, rest)) :
    ∀ t ∈ ts, Tree.Holds .one (.node .statement) (limit + 2) t := by
  unfold readStatements at h
  split at h
  · exact Json.forall_of_readItems LoadError.json (fun _ _ _ => holds_of_readStatement) h
  · exact absurd h (refuseValue_ne_ok _ _ _)

/-- Whether a list of statements fits and nests at most one deeper than the statements may. -/
def AllHold (ts : List Tree) : Prop :=
  ∀ t ∈ ts, Tree.Holds .one (.node .statement) (statementDepth + 2) t

theorem allHold_step {found found' : Option (List Tree)} {name : String}
    (hfound : ∀ ts ∈ found, AllHold ts) (h : readRootMember found name cs = .ok (found', rest)) :
    ∀ ts ∈ found', AllHold ts := by
  unfold readRootMember at h
  split at h
  · split at h
    · cases h
    · obtain ⟨after, -, hthen⟩ := bind_eq_ok.mp h
      obtain ⟨⟨ts, after'⟩, hread, hend⟩ := bind_eq_ok.mp hthen
      cases hend
      intro us hus
      cases hus
      exact holds_of_readStatements hread
  · obtain ⟨after, -, hthen⟩ := bind_eq_ok.mp h
    obtain ⟨after', -, hend⟩ := bind_eq_ok.mp hthen
    cases hend
    exact hfound

theorem allHold_of_readRootArray {ts : List Tree} (h : readRootArray cs = .ok (ts, rest)) :
    AllHold ts := by
  unfold readRootArray at h
  split at h
  · cases h
  · cases h
    exact List.forall_mem_nil _
  · obtain ⟨⟨statements, after⟩, hread, hthen⟩ := bind_eq_ok.mp h
    have hhold : AllHold statements := holds_of_readStatements hread
    dsimp only at hthen
    split at hthen
    · cases hthen
    · cases hthen
      exact hhold
    · split at hthen <;> cases hthen
    · cases hthen

theorem allHold_of_readRoot {ts : List Tree} (h : readRoot cs = .ok (ts, rest)) : AllHold ts := by
  unfold readRoot at h
  split at h
  · exact allHold_of_readRootArray h
  · obtain ⟨⟨found, after⟩, hread, hend⟩ := bind_eq_ok.mp h
    have hfound : ∀ ts ∈ found, AllHold ts :=
      Json.keeps_of_readMembers LoadError.json (fun _ _ _ _ _ => allHold_step)
        (fun _ hnone => absurd hnone (Option.not_mem_none _)) hread
    cases hend
    cases found with
    | none => exact List.forall_mem_nil _
    | some ts => exact hfound ts rfl
  · exact absurd h (refuseValue_ne_ok _ _ _)

/-! ## 2. The text of a program that was loaded -/

theorem statements_of_ofText {text : String} {p : Program} (h : ofText text = .ok p) :
    AllHold (Stmt.toTrees p.statements) := by
  unfold ofText at h
  obtain ⟨ts, htrees, hend⟩ := bind_eq_ok.mp h
  unfold readTrees at htrees
  obtain ⟨⟨trees, after⟩, hread, hthen⟩ := bind_eq_ok.mp htrees
  have hhold := allHold_of_readRoot hread
  dsimp only at hthen
  split at hthen
  · cases hthen
    split at hend
    · rename_i statements hsome
      cases hend
      rwa [Stmt.toTrees_of_ofTrees? hsome]
    · cases hend
  · cases hthen

/-- **The text of a program that was loaded** nests at most one deeper than the format allows. -/
theorem depth_le_of_ofText {text : String} {p : Program} (h : ofText text = .ok p) :
    p.toJson.depth ≤ 128 := by
  have hlist := Tree.holds_list (statements_of_ofText h)
  have hroot : Tree.Holds .one (.node .program) (statementDepth + 2 + 2) p.toTree :=
    Tree.holds_node (by decide) (by decide) (.cons hlist .nil)
  exact hroot.depth_le

/-- **A program that was loaded is loaded again from its text**, unless that nests too deep. -/
theorem ofText_reload {text : String} {p : Program} (h : ofText text = .ok p) :
    ofText p.toText = Json.limited .json p.toJson.depth Json.depthLimit p := by
  have hfits := (Tree.holds_list (statements_of_ofText h)).fits
  cases hfits with
  | list hitems => exact p.ofText_toText_of_fits hitems

/-- The text of a program nests at most one deeper than any value that it was loaded from. -/
theorem depth_le_of_isWrittenIn {j : Json} {text : String} {p : Program}
    (htext : j.IsWrittenIn text) (h : ofText text = .ok p) : p.toJson.depth ≤ j.depth + 1 := by
  obtain ⟨ts, hstatements, hdecode⟩ := decode_of_ofText htext h
  obtain ⟨before, cs, after, -, hcs, -, -⟩ := htext
  have hroot := Tree.decodes_of_legible j hcs.legible (Tree.allows_one _) hdecode
  have htree : p.toTree = .node .program [.list ts] := by
    rw [Program.toTree, Stmt.toTrees_of_ofTrees? hstatements]
  rw [Program.toJson, htree]
  exact hroot.depth_le

end Program

/-! ## 3. Blocks at the limit -/

/-- Blocks inside one another, the innermost of them empty. -/
def Stmt.nested : Nat → Stmt
  | 0 => .block []
  | n + 1 => .block [Stmt.nested n]

/-- How they can be spelled: the innermost block leaves out its list. -/
def Json.hollow : Nat → Json
  | 0 => .object [("type", .text "block")]
  | n + 1 => .object [("type", .text "block"), ("statements", .array [Json.hollow n])]

/-- A program of nested blocks. -/
def Program.nested (n : Nat) : Program := ⟨[Stmt.nested n]⟩

/-- A text of it in which the innermost block leaves out its list. -/
def Program.hollowText (n : Nat) : String :=
  (Json.object [("statements", .array [Json.hollow n])]).toText

namespace Program

theorem depth_hollow : ∀ n : Nat, (Json.hollow n).depth = 2 * n + 1
  | 0 => rfl
  | n + 1 => by
    have h := depth_hollow n
    simp only [Json.hollow, Json.depth, Json.depthMembers, Json.depthItems]
    omega

theorem depth_nested (n : Nat) : (Program.nested n).toJson.depth = 2 * n + 4 := by
  have hstatement : ∀ n : Nat, (Stmt.nested n).toTree.toJson.depth = 2 * n + 2 := by
    intro n
    induction n with
    | zero => rfl
    | succ n ih =>
      simp only [Stmt.nested, Stmt.toTree, Stmt.toTrees, Tree.toJson, Tag.isNamed, if_true,
        Tag.fields, Tree.toJsonMembers, Tree.toJsonItems, List.singleton_append, Json.depth,
        Json.depthMembers, Json.depthItems]
      omega
  have h := hstatement n
  have hroot : (Program.nested n).toJson =
      .object [("statements", .array [(Stmt.nested n).toTree.toJson])] := by
    simp [Program.toJson, Program.toTree, Program.nested, Stmt.toTrees, Tree.toJson, Tag.isNamed,
      Tag.fields, Tree.toJsonMembers, Tree.toJsonItems]
  simp only [hroot, Json.depth, Json.depthMembers, Json.depthItems]
  omega

theorem spelledBy_hollow : ∀ n : Nat,
    Tree.SpelledBy .one (.node .statement) (Stmt.nested n).toTree (Json.hollow n)
  | 0 => by
    rw [Stmt.nested, Stmt.toTree, Stmt.toTrees, Json.hollow]
    exact .object (by decide) (by decide) (.omitted .empty .nil)
      (fun _ hm => absurd hm List.not_mem_nil) (.refl _)
  | n + 1 => by
    rw [Stmt.nested, Stmt.toTree, Stmt.toTrees, Stmt.toTrees, Json.hollow]
    exact .object (by decide) (by decide)
      (.member (.inl rfl) (.list (.cons (spelledBy_hollow n) .nil)) .nil)
      (fun _ hm => absurd hm List.not_mem_nil) (.refl _)

theorem nested_spelledBy_hollow (n : Nat) :
    (Program.nested n).SpelledBy (.object [("statements", .array [Json.hollow n])]) :=
  .object (by decide) (by decide)
    (.member (.inl rfl) (.list (.cons (spelledBy_hollow n) .nil)) .nil)
    (fun _ hm => absurd hm List.not_mem_nil) (.refl _)

/-- What is written for blocks is one of their texts. -/
theorem hollow_spelledBy_write (n : Nat) : Json.SpelledBy (Json.hollow n) (Json.hollow n).write := by
  have hnil := Json.isBlank_nil
  have htype := Json.MemberSpelledBy.intro (Json.charsSpelledBy_write "type".toList) hnil hnil
    (.text (Json.charsSpelledBy_write "block".toList))
  induction n with
  | zero =>
    have h := Json.SpelledBy.object (.some hnil htype (.done hnil))
    simpa [Json.hollow, Json.write, Json.writeMembers, Json.writeText, Json.quote] using h
  | succ n ih =>
    have hlist := Json.SpelledBy.array (.some hnil ih (.done hnil))
    have h := Json.SpelledBy.object (.some hnil htype (.next hnil hnil
      (.intro (Json.charsSpelledBy_write "statements".toList) hnil hnil hlist) (.done hnil)))
    simpa [Json.hollow, Json.write, Json.writeMembers, Json.writeItems, Json.writeText,
      Json.quote] using h

theorem isWrittenIn_hollowText (n : Nat) :
    (Json.object [("statements", .array [Json.hollow n])]).IsWrittenIn (hollowText n) := by
  have hnil := Json.isBlank_nil
  have hlist := Json.SpelledBy.array (.some hnil (hollow_spelledBy_write n) (.done hnil))
  have h := Json.SpelledBy.object (.some hnil
    (.intro (Json.charsSpelledBy_write "statements".toList) hnil hnil hlist) (.done hnil))
  refine ⟨[], _, [], hnil, h, hnil, ?_⟩
  simp [hollowText, Json.toText, Json.write, Json.writeMembers, Json.writeItems, Json.writeText,
    Json.quote]

/-- **Up to 63 blocks inside one another are loaded.** -/
theorem ofText_hollowText {n : Nat} (h : n ≤ 62) : ofText (hollowText n) = .ok (nested n) := by
  refine ofText_spelled (nested_spelledBy_hollow n) (isWrittenIn_hollowText n) ?_
  have hdepth := depth_hollow n
  simp only [Json.depth, Json.depthMembers, Json.depthItems]
  omega

end Program

/-! ## 4. Loading again -/

/-- **What was loaded can be saved and loaded again, up to the depth that the format allows.**  The
text of a program that was loaded nests at most 128 deep.  If it nests no deeper than 127, which it
does whenever the text before it nested no deeper than 126, then it gives the same program; if it
nests 128 deep, it is malformed. -/
theorem Launch.programOfText_reload (text : String) (p : Program)
    (h : programOfText text = .ok p) :
    p.toJson.depth ≤ 128 ∧
    (p.toJson.depth ≤ 127 → programOfText p.toText = .ok p) ∧
    (p.toJson.depth = 128 →
      programOfText p.toText = .error (.malformedTree "recursion limit exceeded")) ∧
    ∀ j : Json, j.IsWrittenIn text → j.depth ≤ 126 → programOfText p.toText = .ok p := by
  have hload : Program.ofText text = .ok p := mapError_eq_ok.mp h
  have hreload := Program.ofText_reload hload
  have hok : p.toJson.depth ≤ 127 → programOfText p.toText = .ok p := by
    intro hdepth
    have hagain : Program.ofText p.toText = .ok p := hreload.trans (if_pos hdepth)
    exact mapError_eq_ok.mpr hagain
  refine ⟨Program.depth_le_of_ofText hload, hok, fun hdepth => ?_, fun j htext hdepth => ?_⟩
  · have hdeep : Program.ofText p.toText = .error (.json .tooDeep) :=
      hreload.trans (if_neg (by rw [hdepth]; decide))
    unfold programOfText
    rw [hdeep]
    rfl
  · exact hok (Nat.le_trans (Program.depth_le_of_isWrittenIn htext hload) (Nat.succ_le_succ hdepth))

/-- **At the limit a program is loaded and its own text is not**: 63 blocks, the innermost of which
leaves out its list. -/
theorem Launch.programOfText_not_reload : ¬ ∀ (text : String) (p : Program),
    programOfText text = .ok p → programOfText p.toText = .ok p := by
  intro h
  have hload := Program.ofText_hollowText (n := 62) (Nat.le_refl _)
  have hagain := mapError_eq_ok.mp (h _ _ (mapError_eq_ok.mpr hload))
  rw [Program.ofText_reload hload, Program.depth_nested] at hagain
  cases hagain

/-- With one block less the text of the program is loaded. -/
theorem Launch.programOfText_reload_nested :
    programOfText (Program.hollowText 61) = .ok (Program.nested 61) ∧
    programOfText (Program.nested 61).toText = .ok (Program.nested 61) := by
  have hload : programOfText (Program.hollowText 61) = .ok (Program.nested 61) :=
    mapError_eq_ok.mpr (Program.ofText_hollowText (by decide))
  have hdepth : (Program.nested 61).toJson.depth ≤ 127 := by
    rw [Program.depth_nested]
    decide
  exact ⟨hload, (programOfText_reload _ _ hload).2.1 hdepth⟩

end TreeScript
