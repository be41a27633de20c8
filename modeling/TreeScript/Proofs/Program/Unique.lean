import TreeScript.Proofs.Program.Tree

/-!
# No tree is two programs'

A tree that fits the shapes is read as one program.  That program has no other tree: what
`Program.toTree` makes of it is the tree that it was found in, `Stmt.toTrees_of_ofTrees?`.  Together
with the way back, finding a program in a tree and taking its tree undo one another.

The proofs follow the recursion of `Expr.ofTree?` and `Stmt.ofTree?`, one case for each of their
equations; the last case of each is a tree of no program.
-/

namespace TreeScript

/-! ## 1. Parameters and expressions -/

/-- A parameter that is found in a tree has no other tree. -/
theorem Parameter.toTree_of_ofTree? {t : Tree} {p : Parameter} (h : Parameter.ofTree? t = some p) :
    p.toTree = t := by
  unfold Parameter.ofTree? at h
  split at h
  · cases h
    rfl
  · cases h
    rfl
  · cases h

theorem Parameter.toTrees_of_ofTrees? : ∀ {ts : List Tree} {ps : List Parameter},
    Parameter.ofTrees? ts = some ps → ps.map Parameter.toTree = ts
  | [], _, h => by
    cases h
    rfl
  | t :: rest, _, h => by
    obtain ⟨p, hp, hthen⟩ := Option.bind_eq_some_iff.mp h
    obtain ⟨ps, hps, hend⟩ := Option.bind_eq_some_iff.mp hthen
    cases hend
    rw [List.map_cons, Parameter.toTree_of_ofTree? hp, Parameter.toTrees_of_ofTrees? hps]

theorem Expr.toTree_of_found :
    (∀ t e, Expr.ofTree? t = some e → e.toTree = t) ∧
    (∀ ts entries, Expr.ofEntryTrees? ts = some entries → Expr.entryTrees entries = ts) ∧
    (∀ ts es, Expr.ofTrees? ts = some es → Expr.toTrees es = ts) := by
  refine Expr.ofTree?.mutual_induct (fun t => ∀ e, Expr.ofTree? t = some e → e.toTree = t)
    (fun ts => ∀ entries, Expr.ofEntryTrees? ts = some entries → Expr.entryTrees entries = ts)
    (fun ts => ∀ es, Expr.ofTrees? ts = some es → Expr.toTrees es = ts)
    ?literal ?identifier ?binary ?unary ?call ?index ?sequence ?mapping ?other
    ?noEntries ?entry ?otherEntry ?nil ?cons
  case literal =>
    intro payload kind e h
    rw [Expr.ofTree?] at h
    cases h
    rw [Expr.toTree]
  case identifier =>
    intro name e h
    rw [Expr.ofTree?] at h
    cases h
    rw [Expr.toTree]
  case binary =>
    intro op left right ihLeft ihRight e h
    rw [Expr.ofTree?] at h
    obtain ⟨l, hl, hthen⟩ := Option.bind_eq_some_iff.mp h
    obtain ⟨r, hr, hend⟩ := Option.bind_eq_some_iff.mp hthen
    cases hend
    rw [Expr.toTree, ihLeft l hl, ihRight r hr]
  case unary =>
    intro op operand ih e h
    rw [Expr.ofTree?] at h
    obtain ⟨o, ho, hend⟩ := Option.bind_eq_some_iff.mp h
    cases hend
    rw [Expr.toTree, ih o ho]
  case call =>
    intro name arguments ih e h
    rw [Expr.ofTree?] at h
    obtain ⟨es, hes, hend⟩ := Option.bind_eq_some_iff.mp h
    cases hend
    rw [Expr.toTree, ih es hes]
  case index =>
    intro base position ihBase ihPosition e h
    rw [Expr.ofTree?] at h
    obtain ⟨b, hb, hthen⟩ := Option.bind_eq_some_iff.mp h
    obtain ⟨p, hp, hend⟩ := Option.bind_eq_some_iff.mp hthen
    cases hend
    rw [Expr.toTree, ihBase b hb, ihPosition p hp]
  case sequence =>
    intro elements ih e h
    rw [Expr.ofTree?] at h
    obtain ⟨es, hes, hend⟩ := Option.bind_eq_some_iff.mp h
    cases hend
    rw [Expr.toTree, ih es hes]
  case mapping =>
    intro entries ih e h
    rw [Expr.ofTree?] at h
    obtain ⟨es, hes, hend⟩ := Option.bind_eq_some_iff.mp h
    cases hend
    rw [Expr.toTree, ih es hes]
  case other =>
    intro t h₁ h₂ h₃ h₄ h₅ h₆ h₇ h₈ e h
    rw [Expr.ofTree?] at h
    · cases h
    all_goals assumption
  case noEntries =>
    intro entries h
    rw [Expr.ofEntryTrees?] at h
    cases h
    rw [Expr.entryTrees]
  case entry =>
    intro key value rest ihValue ihRest entries h
    rw [Expr.ofEntryTrees?] at h
    obtain ⟨v, hv, hthen⟩ := Option.bind_eq_some_iff.mp h
    obtain ⟨es, hes, hend⟩ := Option.bind_eq_some_iff.mp hthen
    cases hend
    rw [Expr.entryTrees, ihValue v hv, ihRest es hes]
  case otherEntry =>
    intro ts hnil hcons entries h
    rw [Expr.ofEntryTrees?] at h
    · cases h
    all_goals assumption
  case nil =>
    intro es h
    rw [Expr.ofTrees?] at h
    cases h
    rw [Expr.toTrees]
  case cons =>
    intro t rest ih ihRest es h
    rw [Expr.ofTrees?] at h
    obtain ⟨e, he, hthen⟩ := Option.bind_eq_some_iff.mp h
    obtain ⟨others, hothers, hend⟩ := Option.bind_eq_some_iff.mp hthen
    cases hend
    rw [Expr.toTrees, ih e he, ihRest others hothers]

/-- **An expression that is found in a tree has no other tree.** -/
theorem Expr.toTree_of_ofTree? {t : Tree} {e : Expr} (h : Expr.ofTree? t = some e) : e.toTree = t :=
  Expr.toTree_of_found.1 t e h

theorem Expr.toTree?_of_ofOptional? {t : Tree} {e : Option Expr}
    (h : Expr.ofOptional? t = some e) : Expr.toTree? e = t := by
  unfold Expr.ofOptional? at h
  split at h
  · cases h
    rw [Expr.toTree?]
  · obtain ⟨found, hfound, rfl⟩ := Option.map_eq_some_iff.mp h
    rw [Expr.toTree?, Expr.toTree_of_ofTree? hfound]

/-! ## 2. Statements -/

theorem Stmt.toTree_of_found :
    (∀ t s, Stmt.ofTree? t = some s → s.toTree = t) ∧
    (∀ ts ss, Stmt.ofTrees? ts = some ss → Stmt.toTrees ss = ts) := by
  refine Stmt.ofTree?.mutual_induct (fun t => ∀ s, Stmt.ofTree? t = some s → s.toTree = t)
    (fun ts => ∀ ss, Stmt.ofTrees? ts = some ss → Stmt.toTrees ss = ts)
    ?assignment ?branch ?loop ?loopFor ?forEach ?function ?giveBack ?expression ?block ?other ?nil ?cons
  case assignment =>
    intro name value s h
    rw [Stmt.ofTree?] at h
    obtain ⟨v, hv, hend⟩ := Option.bind_eq_some_iff.mp h
    cases hend
    rw [Stmt.toTree, Expr.toTree_of_ofTree? hv]
  case branch =>
    intro condition thenBlock elseBlock ihThen ihElse s h
    rw [Stmt.ofTree?] at h
    obtain ⟨c, hc, hthen⟩ := Option.bind_eq_some_iff.mp h
    obtain ⟨b, hb, helse⟩ := Option.bind_eq_some_iff.mp hthen
    split at helse
    · cases helse
      rw [Stmt.toTree, Expr.toTree_of_ofTree? hc, ihThen b hb, Stmt.toTree?]
    · rename_i hpresent
      obtain ⟨e, he, hend⟩ := Option.bind_eq_some_iff.mp helse
      cases hend
      have helseTree : e.toTree = elseBlock := by
        split at ihElse
        · exact absurd rfl hpresent
        · exact ihElse e he
      rw [Stmt.toTree, Expr.toTree_of_ofTree? hc, ihThen b hb, Stmt.toTree?, helseTree]
  case loop =>
    intro condition body ih s h
    rw [Stmt.ofTree?] at h
    obtain ⟨c, hc, hthen⟩ := Option.bind_eq_some_iff.mp h
    obtain ⟨b, hb, hend⟩ := Option.bind_eq_some_iff.mp hthen
    cases hend
    rw [Stmt.toTree, Expr.toTree_of_ofTree? hc, ih b hb]
  case loopFor =>
    intro init condition increment body ihInit ihIncrement ihBody s h
    rw [Stmt.ofTree?] at h
    obtain ⟨i, hi, hthen⟩ := Option.bind_eq_some_iff.mp h
    obtain ⟨c, hc, hthen⟩ := Option.bind_eq_some_iff.mp hthen
    obtain ⟨n, hn, hthen⟩ := Option.bind_eq_some_iff.mp hthen
    obtain ⟨b, hb, hend⟩ := Option.bind_eq_some_iff.mp hthen
    cases hend
    rw [Stmt.toTree, ihInit i hi, Expr.toTree_of_ofTree? hc, ihIncrement n hn, ihBody b hb]
  case forEach =>
    intro item collection body ih s h
    rw [Stmt.ofTree?] at h
    obtain ⟨c, hc, hthen⟩ := Option.bind_eq_some_iff.mp h
    obtain ⟨b, hb, hend⟩ := Option.bind_eq_some_iff.mp hthen
    cases hend
    rw [Stmt.toTree, Expr.toTree_of_ofTree? hc, ih b hb]
  case function =>
    intro name parameters body ih s h
    rw [Stmt.ofTree?] at h
    obtain ⟨ps, hps, hthen⟩ := Option.bind_eq_some_iff.mp h
    obtain ⟨b, hb, hend⟩ := Option.bind_eq_some_iff.mp hthen
    cases hend
    rw [Stmt.toTree, Parameter.toTrees_of_ofTrees? hps, ih b hb]
  case giveBack =>
    intro value s h
    rw [Stmt.ofTree?] at h
    obtain ⟨v, hv, hend⟩ := Option.bind_eq_some_iff.mp h
    cases hend
    rw [Stmt.toTree, Expr.toTree?_of_ofOptional? hv]
  case expression =>
    intro expr s h
    rw [Stmt.ofTree?] at h
    obtain ⟨e, he, hend⟩ := Option.bind_eq_some_iff.mp h
    cases hend
    rw [Stmt.toTree, Expr.toTree_of_ofTree? he]
  case block =>
    intro statements ih s h
    rw [Stmt.ofTree?] at h
    obtain ⟨ss, hss, hend⟩ := Option.bind_eq_some_iff.mp h
    cases hend
    rw [Stmt.toTree, ih ss hss]
  case other =>
    intro t h₁ h₂ h₃ h₄ h₅ h₆ h₇ h₈ h₉ s h
    rw [Stmt.ofTree?] at h
    · cases h
    all_goals assumption
  case nil =>
    intro ss h
    rw [Stmt.ofTrees?] at h
    cases h
    rw [Stmt.toTrees]
  case cons =>
    intro t rest ih ihRest ss h
    rw [Stmt.ofTrees?] at h
    obtain ⟨s, hs, hthen⟩ := Option.bind_eq_some_iff.mp h
    obtain ⟨others, hothers, hend⟩ := Option.bind_eq_some_iff.mp hthen
    cases hend
    rw [Stmt.toTrees, ih s hs, ihRest others hothers]

/-- **The statements that are found in trees have no others.** -/
theorem Stmt.toTrees_of_ofTrees? {ts : List Tree} {ss : List Stmt}
    (h : Stmt.ofTrees? ts = some ss) : Stmt.toTrees ss = ts :=
  Stmt.toTree_of_found.2 ts ss h

end TreeScript
