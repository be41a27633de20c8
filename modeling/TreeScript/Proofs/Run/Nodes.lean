import TreeScript.Proofs.Run.Plan

/-!
# Everything inside a program

`Program.nodes` lists every expression that stands anywhere in a program: in a statement, in another
expression, or in the body of a function that is declared somewhere in it.  What is inside the parts
of a statement or an expression is inside the whole, so what all nodes of a program have is had by
all that a run of it evaluates.
-/

namespace TreeScript

/-! ## 1. The nodes of a program -/

mutual

/-- An expression and all expressions inside it. -/
def Expr.nodes : Expr → List Expr
  | .literal payload kind => [.literal payload kind]
  | .identifier name => [.identifier name]
  | .binary op left right => .binary op left right :: (left.nodes ++ right.nodes)
  | .unary op operand => .unary op operand :: operand.nodes
  | .call name arguments => .call name arguments :: Expr.nodesAll arguments
  | .index base position => .index base position :: (base.nodes ++ position.nodes)
  | .sequence elements => .sequence elements :: Expr.nodesAll elements
  | .mapping entries => .mapping entries :: Expr.nodesEntries entries

/-- All expressions in a list of expressions. -/
def Expr.nodesAll : List Expr → List Expr
  | [] => []
  | e :: rest => e.nodes ++ Expr.nodesAll rest

/-- All expressions in the entries of a mapping. -/
def Expr.nodesEntries : List (String × Expr) → List Expr
  | [] => []
  | (_, e) :: rest => e.nodes ++ Expr.nodesEntries rest

end

/-- All expressions in an optional expression. -/
def Expr.nodes? : Option Expr → List Expr
  | none => []
  | some e => e.nodes

mutual

/-- All expressions inside a statement, those in the bodies of declared functions included. -/
def Stmt.nodes : Stmt → List Expr
  | .assign _ value => value.nodes
  | .branch condition thenBlock elseBlock =>
    condition.nodes ++ thenBlock.nodes ++ Stmt.nodesElse elseBlock
  | .loop condition body => condition.nodes ++ body.nodes
  | .loopFor init condition increment body =>
    init.nodes ++ condition.nodes ++ increment.nodes ++ body.nodes
  | .loopEach _ collection body => collection.nodes ++ body.nodes
  | .declare _ _ body => body.nodes
  | .giveBack value => Expr.nodes? value
  | .evaluate e => e.nodes
  | .block statements => Stmt.nodesAll statements

/-- All expressions in the else part of a branch. -/
def Stmt.nodesElse : Option Stmt → List Expr
  | none => []
  | some s => s.nodes

/-- All expressions in a list of statements. -/
def Stmt.nodesAll : List Stmt → List Expr
  | [] => []
  | s :: rest => s.nodes ++ Stmt.nodesAll rest

end

/-- **All expressions anywhere in a program.** -/
def Program.nodes (p : Program) : List Expr := Stmt.nodesAll p.statements

/-! ## 2. Nodes of parts -/

theorem Expr.mem_nodes_self (e : Expr) : e ∈ e.nodes := by
  cases e <;> simp [Expr.nodes]

theorem Expr.mem_nodesAll {n e : Expr} (hn : n ∈ e.nodes) :
    ∀ {es : List Expr}, e ∈ es → n ∈ Expr.nodesAll es
  | first :: rest, h => by
    rw [Expr.nodesAll, List.mem_append]
    rcases List.mem_cons.mp h with rfl | h
    · exact Or.inl hn
    · exact Or.inr (Expr.mem_nodesAll hn h)

theorem Expr.exists_of_mem_nodesAll {n : Expr} : ∀ {es : List Expr}, n ∈ Expr.nodesAll es →
    ∃ e ∈ es, n ∈ e.nodes
  | e :: rest, h => by
    rw [Expr.nodesAll, List.mem_append] at h
    rcases h with h | h
    · exact ⟨e, List.mem_cons_self, h⟩
    · obtain ⟨e', he', hn⟩ := Expr.exists_of_mem_nodesAll h
      exact ⟨e', List.mem_cons_of_mem _ he', hn⟩

theorem Expr.mem_nodesEntries {n e : Expr} (hn : n ∈ e.nodes) :
    ∀ {entries : List (String × Expr)}, e ∈ entries.map Prod.snd → n ∈ Expr.nodesEntries entries
  | (key, first) :: rest, h => by
    rw [Expr.nodesEntries, List.mem_append]
    rcases List.mem_cons.mp h with rfl | h
    · exact Or.inl hn
    · exact Or.inr (Expr.mem_nodesEntries hn h)

theorem Stmt.mem_nodesAll {n : Expr} {s : Stmt} (hn : n ∈ s.nodes) :
    ∀ {ss : List Stmt}, s ∈ ss → n ∈ Stmt.nodesAll ss
  | first :: rest, h => by
    rw [Stmt.nodesAll, List.mem_append]
    rcases List.mem_cons.mp h with rfl | h
    · exact Or.inl hn
    · exact Or.inr (Stmt.mem_nodesAll hn h)

theorem Stmt.exists_of_mem_nodesAll {n : Expr} : ∀ {ss : List Stmt}, n ∈ Stmt.nodesAll ss →
    ∃ s ∈ ss, n ∈ s.nodes
  | s :: rest, h => by
    rw [Stmt.nodesAll, List.mem_append] at h
    rcases h with h | h
    · exact ⟨s, List.mem_cons_self, h⟩
    · obtain ⟨s', hs', hn⟩ := Stmt.exists_of_mem_nodesAll h
      exact ⟨s', List.mem_cons_of_mem _ hs', hn⟩

/-- What is inside a part of an expression is inside the expression. -/
theorem Expr.nodes_of_mem_parts {e e' n : Expr} (h : e' ∈ e.parts) (hn : n ∈ e'.nodes) :
    n ∈ e.nodes := by
  cases e with
  | literal payload kind => cases h
  | identifier name => cases h
  | binary op left right =>
    simp only [Expr.parts, List.mem_cons, List.not_mem_nil, or_false] at h
    rw [Expr.nodes, List.mem_cons, List.mem_append]
    rcases h with rfl | rfl
    · exact Or.inr (Or.inl hn)
    · exact Or.inr (Or.inr hn)
  | unary op operand =>
    rcases List.mem_singleton.mp h with rfl
    exact List.mem_cons_of_mem _ hn
  | call name arguments => exact List.mem_cons_of_mem _ (Expr.mem_nodesAll hn h)
  | index base position =>
    simp only [Expr.parts, List.mem_cons, List.not_mem_nil, or_false] at h
    rw [Expr.nodes, List.mem_cons, List.mem_append]
    rcases h with rfl | rfl
    · exact Or.inr (Or.inl hn)
    · exact Or.inr (Or.inr hn)
  | sequence elements => exact List.mem_cons_of_mem _ (Expr.mem_nodesAll hn h)
  | mapping entries => exact List.mem_cons_of_mem _ (Expr.mem_nodesEntries hn h)

/-- What is inside an expression that a statement evaluates is inside the statement. -/
theorem Stmt.nodes_of_mem_exprs {s : Stmt} {e n : Expr} (h : e ∈ s.exprs) (hn : n ∈ e.nodes) :
    n ∈ s.nodes := by
  cases s with
  | declare name parameters body => cases h
  | block statements => cases h
  | giveBack value =>
    cases value with
    | none => cases h
    | some e' =>
      rcases List.mem_singleton.mp h with rfl
      exact hn
  | _ =>
    rcases List.mem_singleton.mp h with rfl
    simp only [Stmt.nodes, List.mem_append, hn, true_or, or_true]

/-- What is inside a part of a statement is inside the statement. -/
theorem Stmt.nodes_of_mem_parts {s t : Stmt} {n : Expr} (h : t ∈ s.parts) (hn : n ∈ t.nodes) :
    n ∈ s.nodes := by
  cases Stmt.isPart_of_mem_parts h with
  | inBlock h => exact Stmt.mem_nodesAll hn h
  | elseBlock => exact List.mem_append_right _ hn
  | _ => simp [Stmt.nodes, hn]

end TreeScript
