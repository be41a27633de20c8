import TreeScript.Proofs.Run.Rewrite

/-!
# Built-in functions cannot be replaced

A call looks among the built-in functions first, so that a function that a program registers under
one of their names is never found.  Leaving such declarations out of a program, wherever they stand,
changes nothing but the records of their registration: both runs agree on every name that a call
can look up in the table.
-/

namespace TreeScript

/-- Whether a name is that of a built-in function. -/
def Builtin.isName (name : String) : Bool := (Builtin.ofName? name).isSome

example : ["print", "read_csv", "write_csv", "len", "sum", "max", "min"].all Builtin.isName = true :=
  by decide

/-- A declaration under the name of a built-in function, left out; all other statements stay. -/
def Stmt.withoutShadow : Stmt → Stmt
  | .declare name parameters body =>
    if Builtin.isName name then .block [] else .declare name parameters body
  | s => s

/-- A program without the declarations under names of built-in functions. -/
def Program.withoutShadows (p : Program) : Program := p.rewrite Stmt.withoutShadow

/-- A statement that does not declare such a function stays, with its parts changed. -/
theorem Stmt.alike_or_shadow {s s' : Stmt} (h : s.RewritesTo Stmt.withoutShadow s') :
    Stmt.Alike Eq (Stmt.RewritesTo Stmt.withoutShadow) s s' ∨
      ∃ name parameters body, s = .declare name parameters body ∧ s' = .block [] ∧
        Builtin.isName name = true := by
  obtain ⟨t, halike, ht⟩ := Stmt.exists_alike_rewrite Stmt.withoutShadow s
  obtain rfl : Stmt.withoutShadow t = s' := ht.symm.trans h
  cases halike with
  | declare name parameters body =>
    by_cases hname : Builtin.isName name = true
    · exact Or.inr ⟨_, _, _, rfl, if_pos hname, hname⟩
    · refine Or.inl ?_
      rw [Stmt.withoutShadow, if_neg hname]
      exact .declare name parameters body
  | loopFor init condition increment body => exact Or.inl (.loopFor init condition increment body)
  | assign name value => exact Or.inl (.assign name value)
  | branch condition thenBlock elseBlock => exact Or.inl (.branch condition thenBlock elseBlock)
  | loop condition body => exact Or.inl (.loop condition body)
  | loopEach item collection body => exact Or.inl (.loopEach item collection body)
  | giveBack value => exact Or.inl (.giveBack value)
  | evaluate expr => exact Or.inl (.evaluate expr)
  | block statements => exact Or.inl (.block statements)

namespace Interpreter

variable {Q : Stmt → Stmt → Prop} {limit m n : Nat} {name : String}

theorem supports_twin_builtin : (Simulation.twin Q Builtin.isName).Supports limit Q :=
  supports_twin fun _ hname => Option.isSome_iff_ne_none.mp hname

/-- A declaration that is never looked up does nothing that shows. -/
theorem declare_followedBy_nothing (parameters : List Parameter) (body : Stmt)
    (hname : Builtin.isName name = true) :
    (exec limit (m + 1) (.declare name parameters body)).FollowedBy (.twin Q Builtin.isName)
      (exec limit (n + 1) (.block [])) := by
  intro st st' hst
  simp only [exec]
  exact ⟨st', rfl, State.Twin.register_hidden hst hname⟩

theorem nothing_followedBy_declare (parameters : List Parameter) (body : Stmt)
    (hname : Builtin.isName name = true) :
    (exec limit (m + 1) (.block [])).FollowedBy (.twin (flip Q) Builtin.isName)
      (exec limit (n + 1) (.declare name parameters body)) := by
  intro st st' hst
  simp only [exec]
  exact ⟨_, rfl, (State.Twin.register_hidden (State.Twin.flip hst) hname).flip⟩

/-- **Built-in functions cannot be replaced.**  If the declarations under the names of built-in
functions are left out of a program, it runs for ever if it did before, and else ends in the same
report, but for the records that registered them. -/
theorem builtin_not_shadowed (limit : Nat) (p : Program) (console : Console) (files : Files)
    (seen : Report) :
    (∃ report, p.EndsIn limit console files report ∧
        report.hiding Builtin.isName = seen) ↔
      ∃ report, p.withoutShadows.EndsIn limit console files report ∧
        report.hiding Builtin.isName = seen := by
  have hforth : ∀ bound, FollowsBelow (.twin (Stmt.RewritesTo Stmt.withoutShadow) Builtin.isName)
      limit Eq (Stmt.RewritesTo Stmt.withoutShadow) 1 bound := by
    refine run_followedBy_of_stmts supports_twin_builtin Nat.one_pos fun _ _ s s' h => ?_
    rcases Stmt.alike_or_shadow h with halike | ⟨name, parameters, body, rfl, rfl, hname⟩
    · exact Or.inl halike
    · exact Or.inr (declare_followedBy_nothing parameters body hname)
  have hback : ∀ bound, FollowsBelow
      (.twin (flip (Stmt.RewritesTo Stmt.withoutShadow)) Builtin.isName)
      limit Eq (flip (Stmt.RewritesTo Stmt.withoutShadow)) 1 bound := by
    refine run_followedBy_of_stmts supports_twin_builtin Nat.one_pos fun _ _ s' s h => ?_
    rcases Stmt.alike_or_shadow h with halike | ⟨name, parameters, body, rfl, rfl, hname⟩
    · exact Or.inl halike.flip
    · exact Or.inr (nothing_followedBy_declare parameters body hname)
  exact Program.endsIn_hiding_iff (Stmt.forall₂_rewriteAll Stmt.withoutShadow p.statements) hforth
    hback console files seen

end Interpreter

end TreeScript
