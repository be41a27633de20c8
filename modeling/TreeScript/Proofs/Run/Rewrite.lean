import TreeScript.Proofs.Run.Twin

/-!
# Rewriting a program everywhere

`s.rewrite f` applies `f` to every statement in `s`, in the bodies of declared functions too, and to
the parts of a statement before the statement itself.  Up to that last application it changes the
parts and nothing else (`Stmt.exists_alike_rewrite`).  So to compare the runs of a program and a
rewritten one only what `f` does to a single statement has to be looked at.
-/

namespace TreeScript

/-! ## 1. Trees that are alike, from the other side -/

theorem Expr.Alike.converse {R : Expr → Expr → Prop} {e e' : Expr} (h : Expr.Alike R e e') :
    Expr.Alike (flip R) e' e := by
  cases h with
  | literal payload kind => exact .literal payload kind
  | identifier name => exact .identifier name
  | binary op left right => exact .binary op left right
  | unary op operand => exact .unary op operand
  | call name arguments => exact .call name arguments.flip
  | index base position => exact .index base position
  | sequence elements => exact .sequence elements.flip
  | mapping keys values => exact .mapping keys.symm values.flip

theorem Stmt.Alike.converse {R : Expr → Expr → Prop} {Q : Stmt → Stmt → Prop} {s s' : Stmt}
    (h : Stmt.Alike R Q s s') : Stmt.Alike (flip R) (flip Q) s' s := by
  cases h with
  | assign name value => exact .assign name value
  | branch condition thenBlock elseBlock =>
    refine .branch condition thenBlock ?_
    cases elseBlock with
    | some block => exact .some block
    | none => exact .none
  | loop condition body => exact .loop condition body
  | loopFor init condition increment body => exact .loopFor init condition increment body
  | loopEach item collection body => exact .loopEach item collection body
  | declare name parameters body => exact .declare name parameters body
  | giveBack value =>
    refine .giveBack ?_
    cases value with
    | some e => exact .some e
    | none => exact .none
  | evaluate expr => exact .evaluate expr
  | block statements => exact .block statements.flip

theorem Expr.flip_eq : flip (Eq : Expr → Expr → Prop) = Eq := by
  funext e e'
  exact propext eq_comm

theorem Stmt.Alike.flip {Q : Stmt → Stmt → Prop} {s s' : Stmt} (h : Stmt.Alike Eq Q s s') :
    Stmt.Alike Eq (flip Q) s' s := by
  rw [← Expr.flip_eq]
  exact h.converse

/-! ## 2. Rewriting -/

mutual

/-- **A statement with `f` applied to every statement in it**, to parts before the whole. -/
def Stmt.rewrite (f : Stmt → Stmt) : Stmt → Stmt
  | .assign name value => f (.assign name value)
  | .branch condition thenBlock elseBlock =>
    f (.branch condition (thenBlock.rewrite f) (Stmt.rewriteElse f elseBlock))
  | .loop condition body => f (.loop condition (body.rewrite f))
  | .loopFor init condition increment body =>
    f (.loopFor (init.rewrite f) condition (increment.rewrite f) (body.rewrite f))
  | .loopEach item collection body => f (.loopEach item collection (body.rewrite f))
  | .declare name parameters body => f (.declare name parameters (body.rewrite f))
  | .giveBack value => f (.giveBack value)
  | .evaluate e => f (.evaluate e)
  | .block statements => f (.block (Stmt.rewriteAll f statements))

/-- An else part with `f` applied to every statement in it. -/
def Stmt.rewriteElse (f : Stmt → Stmt) : Option Stmt → Option Stmt
  | none => none
  | some s => some (s.rewrite f)

/-- A list of statements with `f` applied to every statement in it. -/
def Stmt.rewriteAll (f : Stmt → Stmt) : List Stmt → List Stmt
  | [] => []
  | s :: rest => s.rewrite f :: Stmt.rewriteAll f rest

end

/-- A program with `f` applied to every statement in it. -/
def Program.rewrite (f : Stmt → Stmt) (p : Program) : Program :=
  ⟨Stmt.rewriteAll f p.statements⟩

/-- A statement and what becomes of it. -/
def Stmt.RewritesTo (f : Stmt → Stmt) (s s' : Stmt) : Prop := s.rewrite f = s'

theorem Stmt.forall₂_rewriteAll (f : Stmt → Stmt) (statements : List Stmt) :
    List.Forall₂ (Stmt.RewritesTo f) statements (Stmt.rewriteAll f statements) := by
  induction statements with
  | nil => exact .nil
  | cons s rest ih => exact .cons rfl ih

theorem Stmt.rel_rewriteElse (f : Stmt → Stmt) : ∀ elseBlock : Option Stmt,
    Option.Rel (Stmt.RewritesTo f) elseBlock (Stmt.rewriteElse f elseBlock)
  | none => .none
  | some _ => .some rfl

/-- **Rewriting changes the parts of a statement**, and then applies `f` to the whole. -/
theorem Stmt.exists_alike_rewrite (f : Stmt → Stmt) (s : Stmt) :
    ∃ t, Stmt.Alike Eq (Stmt.RewritesTo f) s t ∧ s.rewrite f = f t := by
  cases s with
  | assign name value => exact ⟨_, .assign name rfl, rfl⟩
  | branch condition thenBlock elseBlock =>
    exact ⟨_, .branch rfl rfl (Stmt.rel_rewriteElse f elseBlock), rfl⟩
  | loop condition body => exact ⟨_, .loop rfl rfl, rfl⟩
  | loopFor init condition increment body => exact ⟨_, .loopFor rfl rfl rfl rfl, rfl⟩
  | loopEach item collection body => exact ⟨_, .loopEach item rfl rfl, rfl⟩
  | declare name parameters body => exact ⟨_, .declare name parameters rfl, rfl⟩
  | giveBack value =>
    refine ⟨_, .giveBack ?_, rfl⟩
    cases value with
    | none => exact .none
    | some e => exact .some rfl
  | evaluate e => exact ⟨_, .evaluate rfl, rfl⟩
  | block statements => exact ⟨_, .block (Stmt.forall₂_rewriteAll f statements), rfl⟩

end TreeScript
