import TreeScript.Proofs.Entries
import TreeScript.Proofs.Program.Declarations
import TreeScript.Proofs.Run.Regime

/-!
# Where the functions in the table come from

A run registers a function when it executes its declaration, and what it executes stands in the
program: as a part of a statement that it executes, or as the body of a function that it registered
before.  So the table and the program are spoken of together.  In a table that `State.Lists` only
functions of the program, every body is a statement of the program, and registering one more
declaration of the program leaves such a table.

The names in the table are distinct, so there are no more of them than declarations in the program.
-/

namespace TreeScript

/-! ## 1. What a statement executes -/

/-- What is in a part of a statement is in the statement. -/
theorem Stmt.tree_subset_of_mem_parts {s t : Stmt} (h : t ∈ s.parts) :
    t.toTree.nodes ⊆ s.toTree.nodes := by
  cases Stmt.isPart_of_mem_parts h with
  | inBlock h =>
    have hlist := Tree.nodes_subset_list (Stmt.toTree_mem_toTrees h)
    rw [Stmt.toTree]
    exact List.Subset.trans hlist (Tree.nodes_subset_node (List.mem_singleton_self _))
  | _ =>
    simp only [Stmt.toTree, Stmt.toTree?]
    exact Tree.nodes_subset_node (by simp)

/-- What is in the body of a function is in its declaration. -/
theorem FunctionDef.tree_body_subset (f : FunctionDef) :
    f.body.toTree.nodes ⊆ f.toStmt.toTree.nodes := by
  rw [FunctionDef.toStmt, Stmt.toTree]
  exact Tree.nodes_subset_node (by simp)

/-- What is in a statement of a program is in the program. -/
theorem Program.tree_subset_of_mem {p : Program} {s : Stmt} (h : s ∈ p.statements) :
    s.toTree.nodes ⊆ p.toTree.nodes := by
  rw [Program.toTree]
  exact List.Subset.trans (Tree.nodes_subset_list (Stmt.toTree_mem_toTrees h))
    (Tree.nodes_subset_node (by simp))

/-! ## 2. Tables of declarations of a program -/

/-- The table holds, each under its own name and no name twice, functions whose declarations stand
in a program. -/
structure State.Lists (p : Program) (st : State) : Prop where
  distinct : Entries.Distinct st.functions
  named : ∀ entry ∈ st.functions, entry.2.name = entry.1
  declared : ∀ entry ∈ st.functions, entry.2.toStmt.toTree.nodes ⊆ p.toTree.nodes

namespace State.Lists

variable {p : Program} {st : State}

theorem fresh (p : Program) (console : Console) (files : Files) :
    State.Lists p { console := console, files := files } where
  distinct := Entries.Distinct.nil
  named _ h := absurd h List.not_mem_nil
  declared _ h := absurd h List.not_mem_nil

/-- A declaration of the program may be registered. -/
theorem register (h : st.Lists p) {f : FunctionDef}
    (hf : f.toStmt.toTree.nodes ⊆ p.toTree.nodes) : (st.register f).Lists p where
  distinct := h.distinct.insert f.name f
  named entry hentry := by
    rcases Entries.mem_of_mem_insert hentry with hold | rfl
    · exact h.named entry hold
    · rfl
  declared entry hentry := by
    rcases Entries.mem_of_mem_insert hentry with hold | rfl
    · exact h.declared entry hold
    · exact hf

/-- The body of a function in the table stands in the program. -/
theorem body_subset (h : st.Lists p) {name : String} {f : FunctionDef}
    (hf : Entries.get? st.functions name = some f) : f.body.toTree.nodes ⊆ p.toTree.nodes :=
  List.Subset.trans f.tree_body_subset (h.declared _ (Entries.mem_of_get?_eq_some hf))

theorem declared_of_mem (h : st.Lists p) {entry : String × FunctionDef}
    (hentry : entry ∈ st.functions) : entry.2.Declared p :=
  List.mem_filter.mpr
    ⟨h.declared entry hentry (Tree.mem_nodes_self _), entry.2.isFunction_toTree⟩

/-- **There are no more functions in the table than declarations in the program.** -/
theorem length_le (h : st.Lists p) : st.functions.length ≤ p.functionCount := by
  have hnames : Entries.keys st.functions ⊆ p.functionNodes.map Tree.title := by
    intro name hname
    obtain ⟨entry, hentry, rfl⟩ := List.mem_map.mp hname
    refine List.mem_map.mpr ⟨_, h.declared_of_mem hentry, ?_⟩
    rw [entry.2.title_toTree, h.named entry hentry]
  have hlength := (List.subperm_of_subset h.distinct hnames).length_le
  rwa [Entries.length_keys, List.length_map, p.length_functionNodes] at hlength

end State.Lists

/-! ## 3. Runs -/

/-- **Statements of a program leave a table of its declarations**, if they find one. -/
def Regime.declaring (limit : Nat) (p : Program) : Regime limit where
  expr _ := True
  stmt s := s.toTree.nodes ⊆ p.toTree.nodes
  change := .preserving (State.Lists p)
  expr_part _ _ := trivial
  stmt_expr _ _ := trivial
  stmt_part hs ht := List.Subset.trans (Stmt.tree_subset_of_mem_parts ht) hs
  stack _ h hst := ⟨(h hst).distinct, (h hst).named, (h hst).declared⟩
  fail _ _ _ h := h
  overflow _ h := h
  literal _ := Action.within_ofResult fun _ _ _ h => h
  note _ _ _ h := ⟨h.distinct, h.named, h.declared⟩
  print _ := Builtin.printLine_within (fun _ _ h => ⟨h.distinct, h.named, h.declared⟩)
    fun _ _ h => h
  read _ := Builtin.readRows_within fun _ _ _ h => ⟨h.distinct, h.named, h.declared⟩
  write _ := Builtin.writeRows_within (fun _ _ _ h => ⟨h.distinct, h.named, h.declared⟩)
    fun _ _ h => ⟨h.distinct, h.named, h.declared⟩
  register _ hf _ h := h.register hf
  table hf _ _ hbody h := hbody (h.body_subset hf) h

namespace Interpreter

/-- **The function table holds functions of the program only.**  Whatever program is executed on a
fresh interpreter, and however that ends: each entry of the table is, under its own name, a function
whose declaration stands somewhere in the program, and there are at most as many as the program
counts.  And what it counts are the declarations anywhere in its tree. -/
theorem functions_declared (limit fuel : Nat) (p : Program) (console : Console) (files : Files) :
    ((execute limit fuel p { console := console, files := files }).Leaves fun _ st' =>
      (∀ entry ∈ st'.functions, entry.2.name = entry.1 ∧ entry.2.Declared p) ∧
        st'.functions.length ≤ p.functionCount) ∧
      p.functionCount = p.functionNodes.length := by
  refine ⟨?_, p.length_functionNodes.symm⟩
  have hstmts : ∀ s ∈ p.statements, s.toTree.nodes ⊆ p.toTree.nodes := fun s hs =>
    Program.tree_subset_of_mem hs
  have hrun := (Regime.declaring limit p).execute_within fuel hstmts
    { console := console, files := files }
  refine hrun.mono fun _ st' h => ?_
  have hst' : st'.Lists p := h (State.Lists.fresh p console files)
  exact ⟨fun entry hentry => ⟨hst'.named entry hentry, hst'.declared_of_mem hentry⟩,
    hst'.length_le⟩

end Interpreter

end TreeScript
