import TreeScript.Proofs.Run.Nodes
import TreeScript.Proofs.Run.Regime

/-!
# Literals that do not fit

A literal keeps the payload that it was loaded with, and only when it is evaluated does it become a
value or a malformed tree.  `LiteralKind.admits` says which payloads fit a kind, and a payload that
fits has a value.  So a run of a program in which all payloads fit, those in the bodies of functions
included, never ends in a malformed tree; the body that a call runs comes from the table, and in it
there are only functions that the program declared.
-/

namespace TreeScript

/-! ## 1. Payloads -/

/-- **Whether a payload fits a kind of literal**: a number is a JSON number or a text that reads as a
number when its blanks are trimmed, a text is a text, a truth value is one or the word for one, and
for absence anything will do. -/
def LiteralKind.admits : LiteralKind → Json → Bool
  | .number, .integer _ => true
  | .number, .double _ => true
  | .number, .text s => (Numeral.read? (Text.trim s.toList)).isSome
  | .text, .text _ => true
  | .boolean, .boolean _ => true
  | .boolean, .text s => s = "true" || s = "false"
  | .absence, _ => true
  | _, _ => false

/-- A payload that fits has a value. -/
theorem Value.ofLiteral_of_admits {payload : Json} {kind : LiteralKind}
    (h : kind.admits payload = true) : ∃ v, Value.ofLiteral payload kind = .ok v := by
  cases kind with
  | number =>
    have hnumber : ∃ x, Value.numberOfJson? payload = some x := by
      cases payload with
      | integer i => exact ⟨_, rfl⟩
      | double x => exact ⟨x, rfl⟩
      | text s => exact Option.isSome_iff_exists.mp h
      | _ => cases h
    obtain ⟨x, hx⟩ := hnumber
    refine ⟨.number x, ?_⟩
    simp only [Value.ofLiteral, hx]
  | text =>
    cases payload with
    | text s => exact ⟨.text s, rfl⟩
    | _ => cases h
  | boolean =>
    cases payload with
    | boolean b => exact ⟨.boolean b, rfl⟩
    | text s =>
      unfold Value.ofLiteral
      dsimp only
      split
      · exact ⟨_, rfl⟩
      · rename_i htrue
        have hfalse : s = "false" := by simpa [LiteralKind.admits, htrue] using h
        exact ⟨_, if_pos hfalse⟩
    | _ => cases h
  | absence => exact ⟨.absence, rfl⟩

/-- If an expression is a literal, its payload fits. -/
def Expr.FitsKind (e : Expr) : Prop :=
  ∀ payload kind, e = .literal payload kind → kind.admits payload = true

/-- Every literal in the body of a function has a payload that fits. -/
def FunctionDef.FitsKinds (f : FunctionDef) : Prop := ∀ n ∈ f.body.nodes, n.FitsKind

/-! ## 2. Runs -/

/-- From a table of functions whose literals fit one comes to another, and not to a malformed
tree. -/
def Change.wellFormed : Change where
  holds st how st' := st.EachFunction FunctionDef.FitsKinds →
    st'.EachFunction FunctionDef.FitsKinds ∧ ∀ detail, how ≠ some (.malformedTree detail)
  refl _ h := ⟨h, nofun⟩
  trans h h₁ hst := h₁ (h hst).1

/-- What leaves the table alone and ends in no malformed tree. -/
theorem Change.wellFormed_of_functions {st st' : State} {how : Option RunError}
    (h : st'.functions = st.functions) (hhow : ∀ detail, how ≠ some (.malformedTree detail)) :
    Change.wellFormed.holds st how st' := by
  intro hst
  refine ⟨?_, hhow⟩
  unfold State.EachFunction
  rw [h]
  exact hst

theorem Change.wellFormed_of_kind {st : State} {error : RunError} (h : error.kind ≠ .malformedTree) :
    Change.wellFormed.holds st (some error) st := by
  refine Change.wellFormed_of_functions rfl fun detail heq => h ?_
  rw [Option.some.inj heq]
  rfl

/-- **Literals that fit are evaluated to values**, wherever they stand. -/
def Regime.wellFormed (limit : Nat) : Regime limit where
  expr e := ∀ n ∈ e.nodes, n.FitsKind
  stmt s := ∀ n ∈ s.nodes, n.FitsKind
  change := .wellFormed
  expr_part h he n hn := h n (Expr.nodes_of_mem_parts he hn)
  stmt_expr h he n hn := h n (Stmt.nodes_of_mem_exprs he hn)
  stmt_part h ht n hn := h n (Stmt.nodes_of_mem_parts ht hn)
  stack _ h := h
  fail _ h _ := Change.wellFormed_of_kind h.2.2.1
  overflow _ := Change.wellFormed_of_kind (by nofun)
  literal h := by
    obtain ⟨v, hv⟩ := Value.ofLiteral_of_admits (h _ (Expr.mem_nodes_self _) _ _ rfl)
    rw [hv]
    exact Action.within_pure v
  note _ _ _ := Change.wellFormed_of_functions rfl nofun
  print _ := Builtin.printLine_within (fun _ _ => Change.wellFormed_of_functions rfl nofun)
    fun _ _ => Change.wellFormed_of_kind (by nofun)
  read _ := Builtin.readRows_within fun _ _ _ => Change.wellFormed_of_functions rfl nofun
  write _ := Builtin.writeRows_within (fun _ _ _ => Change.wellFormed_of_functions rfl nofun)
    fun _ _ => Change.wellFormed_of_functions rfl nofun
  register f h _ hst := ⟨hst.register h, nofun⟩
  table hf _ _ h hst := h (hst _ _ hf) hst

namespace Interpreter

/-- **A malformed tree comes from a literal of the program** whose payload does not fit. -/
theorem exists_literal_of_execute {limit fuel : Nat} {p : Program} {console : Console}
    {files : Files} {detail : String} {st : State}
    (h : execute limit fuel p { console := console, files := files } =
      .failed (.malformedTree detail) st) :
    ∃ payload kind, .literal payload kind ∈ p.nodes ∧ kind.admits payload = false := by
  refine Classical.byContradiction fun hnone => ?_
  have hfits : ∀ s ∈ p.statements, ∀ n ∈ s.nodes, n.FitsKind := by
    rintro s hs n hn payload kind rfl
    exact Bool.of_not_eq_false fun hmisfit =>
      hnone ⟨payload, kind, Stmt.mem_nodesAll hn hs, hmisfit⟩
  have hrun := (Regime.wellFormed limit).execute_within fuel hfits
    { console := console, files := files }
  rw [h] at hrun
  exact (hrun fun _ _ hf => by cases hf).2 detail rfl

end Interpreter

end TreeScript
