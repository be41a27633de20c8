import TreeScript.Proofs.Run.Change
import TreeScript.Proofs.Run.Errors

/-!
# The induction over a run

A run is made of expressions and statements, and these of their parts.  A `Plan` says which of them
may be run and what each of them may change, and shows it where it does not follow from the parts:
for an error, for a literal, for a binding, for a registration, and for a call on the assumption
that statements keep to the plan with the fuel that is left.  Then everything that may be run keeps
to the plan, however long it runs and however it ends (`Plan.eval_within`, `Plan.exec_within`).

The induction is on the fuel, because the body of a called function is no part of the call; below
that it follows the constructs of the language.
-/

namespace TreeScript

/-! ## 1. Parts -/

/-- The expressions that an expression evaluates itself. -/
def Expr.parts : Expr → List Expr
  | .literal _ _ => []
  | .identifier _ => []
  | .binary _ left right => [left, right]
  | .unary _ operand => [operand]
  | .call _ arguments => arguments
  | .index base position => [base, position]
  | .sequence elements => elements
  | .mapping entries => entries.map Prod.snd

/-- The expressions that a statement evaluates itself. -/
def Stmt.exprs : Stmt → List Expr
  | .assign _ value => [value]
  | .branch condition _ _ => [condition]
  | .loop condition _ => [condition]
  | .loopFor _ condition _ _ => [condition]
  | .loopEach _ collection _ => [collection]
  | .declare _ _ _ => []
  | .giveBack value => value.toList
  | .evaluate e => [e]
  | .block _ => []

/-- The statements that a statement executes itself.  The body of a function that it declares is
not among them. -/
def Stmt.parts : Stmt → List Stmt
  | .branch _ thenBlock elseBlock => thenBlock :: elseBlock.toList
  | .loop _ body => [body]
  | .loopFor init _ increment body => [init, increment, body]
  | .loopEach _ _ body => [body]
  | .block statements => statements
  | .assign _ _ => []
  | .declare _ _ _ => []
  | .giveBack _ => []
  | .evaluate _ => []

/-- The places at which a statement executes another one. -/
inductive Stmt.IsPart : Stmt → Stmt → Prop where
  | thenBlock {condition : Expr} {t : Stmt} {elseBlock : Option Stmt} :
    IsPart t (.branch condition t elseBlock)
  | elseBlock {condition : Expr} {thenBlock t : Stmt} :
    IsPart t (.branch condition thenBlock (some t))
  | whileBody {condition : Expr} {t : Stmt} : IsPart t (.loop condition t)
  | init {condition : Expr} {t increment body : Stmt} :
    IsPart t (.loopFor t condition increment body)
  | increment {condition : Expr} {init t body : Stmt} : IsPart t (.loopFor init condition t body)
  | forBody {condition : Expr} {init increment t : Stmt} :
    IsPart t (.loopFor init condition increment t)
  | eachBody {item : String} {collection : Expr} {t : Stmt} :
    IsPart t (.loopEach item collection t)
  | inBlock {statements : List Stmt} {t : Stmt} (h : t ∈ statements) : IsPart t (.block statements)

/-- **A part of a statement stands at one of these places.** -/
theorem Stmt.isPart_of_mem_parts {s t : Stmt} (h : t ∈ s.parts) : Stmt.IsPart t s := by
  cases s with
  | branch condition thenBlock elseBlock =>
    rcases List.mem_cons.mp h with rfl | h
    · exact .thenBlock
    · cases elseBlock with
      | none => cases h
      | some block =>
        rcases List.mem_singleton.mp h with rfl
        exact .elseBlock
  | loop condition body =>
    rcases List.mem_singleton.mp h with rfl
    exact .whileBody
  | loopFor init condition increment body =>
    simp only [Stmt.parts, List.mem_cons, List.not_mem_nil, or_false] at h
    rcases h with rfl | rfl | rfl
    · exact .init
    · exact .increment
    · exact .forBody
  | loopEach item collection body =>
    rcases List.mem_singleton.mp h with rfl
    exact .eachBody
  | block statements => exact .inBlock h
  | assign => cases h
  | declare => cases h
  | giveBack => cases h
  | evaluate => cases h

/-- The names that a statement binds itself. -/
def Stmt.binds : Stmt → List String
  | .assign name _ => [name]
  | .loopEach item _ _ => [item]
  | _ => []

/-! ## 2. Errors and built-in functions -/

namespace Builtin

variable {c : Change} (hnote : ∀ record : Record, record.level = .warn ∨ record.level = .error →
  ∀ st, c.holds st none (st.note record))

/-- Printing changes the console, and may fail after that. -/
theorem printLine_within (hconsole : ∀ st console, c.holds st none { st with console := console })
    (hfail : ∀ reason st, c.holds st (some (.inputOutput reason)) st) (line : String) :
    (printLine line).Within c := by
  intro st
  unfold printLine
  rcases st.console.print line with ⟨_ | reason, console⟩
  · exact hconsole st console
  · exact c.trans (hconsole st console) (hfail reason _)

include hnote

/-- Reading a table changes nothing, or adds a record. -/
theorem readRows_within (path : String) : (readRows path).Within c := by
  intro st
  unfold readRows
  cases st.files.read path with
  | ok text => exact c.refl st
  | error failure => exact hnote _ (Or.inr rfl) st

/-- Writing a table may add a record, and then changes the files or adds another record. -/
theorem writeRows_within (hfiles : ∀ st files, c.holds st none { st with files := files })
    (path : String) (fields : List String) (rows : List (List (String × Value))) :
    (writeRows path fields rows).Within c := by
  intro st
  unfold writeRows
  have hwarn : c.holds st none
      (if 0 < Table.countUnfaithful rows then
        st.note (.unfaithfulCells path (Table.countUnfaithful rows)) else st) := by
    split
    · exact hnote _ (Or.inl rfl) st
    · exact c.refl st
  dsimp only
  generalize (if 0 < Table.countUnfaithful rows then
    st.note (.unfaithfulCells path (Table.countUnfaithful rows)) else st) = noted at hwarn ⊢
  cases noted.files.write path (Table.render fields rows) with
  | ok files => exact c.trans hwarn (hfiles noted files)
  | error failure => exact c.trans hwarn (hnote _ (Or.inr rfl) noted)

end Builtin

section Plain

variable {c : Change}
  (hfail : ∀ error : RunError, error.kind.IsPlain → ∀ st, c.holds st (some error) st)

include hfail

/-- The result of an operation that raises errors of one plain kind. -/
theorem Action.within_ofResult_of_kind {α : Type} {result : Except RunError α} {kind : ErrorKind}
    (h : ∀ {error}, result = .error error → error.kind = kind)
    (hkind : kind.IsPlain := by decide) : (ofResult result).Within c :=
  within_ofResult fun error hr => hfail error (h hr ▸ hkind)

namespace Builtin

variable (hnote : ∀ record : Record, record.level = .warn → ∀ st,
  c.holds st none (st.note record))

include hnote in
theorem checkArity_within (b : Builtin) (found : Nat) : (b.checkArity found).Within c := by
  unfold checkArity
  split
  · exact Action.within_fail (hfail _ ⟨nofun, nofun, nofun, nofun⟩)
  · split
    · exact Action.within_pure ()
    · split
      · exact Action.within_update (hnote _ rfl)
      · exact Action.within_pure ()

include hnote in
/-- **What a built-in function changes** is what printing, reading and writing change.  The arity
check has established every argument that is read after it. -/
theorem call_within (b : Builtin) (arguments : List Value)
    (hprint : b = .print → ∀ line, (printLine line).Within c)
    (hread : b = .readTable → ∀ path, (readRows path).Within c)
    (hwrite : b = .writeTable → ∀ path fields rows, (writeRows path fields rows).Within c) :
    (b.call arguments).Within c := by
  have hcheck : (b.checkArity arguments.length).Within c := checkArity_within hfail hnote b _
  by_cases hfew : arguments.length < b.arity.1
  · intro st
    have hst := hcheck st
    unfold checkArity at hst
    rw [if_pos hfew] at hst
    unfold call checkArity
    rw [if_pos hfew]
    exact hst
  have hargument : ∀ n, n < b.arity.1 →
      (Action.ofResult (argument arguments n)).Within c := by
    intro n hn
    rw [argument_of_lt (by omega : n < arguments.length)]
    exact Action.within_pure _
  have hnumbers : ∀ v, (Action.ofResult (numbers v)).Within c := fun v =>
    Action.within_ofResult_of_kind hfail kind_of_numbers
  have hpath : ∀ v, (Action.ofResult (pathOf v)).Within c := fun v =>
    Action.within_ofResult_of_kind hfail kind_of_pathOf
  refine hcheck.bind fun _ => ?_
  cases b with
  | print => exact hprint rfl _
  | len => exact (hargument 0 Nat.one_pos).bind fun _ => Action.within_pure _
  | sum =>
    refine (hargument 0 Nat.one_pos).bind fun v => ?_
    exact (hnumbers v).bind fun _ => Action.within_pure _
  | max =>
    refine (hargument 0 Nat.one_pos).bind fun v => ?_
    exact (hnumbers v).bind fun _ => Action.within_pure _
  | min =>
    refine (hargument 0 Nat.one_pos).bind fun v => ?_
    exact (hnumbers v).bind fun _ => Action.within_pure _
  | readTable =>
    refine (hargument 0 Nat.one_pos).bind fun v => ?_
    exact (hpath v).bind fun _ => hread rfl _
  | writeTable =>
    refine (hargument 0 Nat.two_pos).bind fun v => (hpath v).bind fun _ => ?_
    refine (hargument 1 Nat.one_lt_two).bind fun _ => ?_
    refine (Action.within_ofResult_of_kind hfail kind_of_rowsOf).bind fun _ => ?_
    refine (Action.within_ofResult_of_kind hfail kind_of_headerOf).bind fun _ => ?_
    exact hwrite rfl _ _ _

end Builtin

end Plain

/-! ## 3. Plans -/

/-- What may be run, what it may change, and that the steps of a run keep to it. -/
structure Plan (limit : Nat) where
  expr : Expr → Prop
  stmt : Stmt → Prop
  ofExpr : Change
  ofStmt : Stmt → Change
  expr_part : ∀ {e e'}, expr e → e' ∈ e.parts → expr e'
  stmt_expr : ∀ {s e}, stmt s → e ∈ s.exprs → expr e
  stmt_part : ∀ {s t}, stmt s → t ∈ s.parts → stmt t
  expr_le : ∀ s, ofExpr ≤ ofStmt s
  part_le : ∀ s, ∀ t ∈ s.parts, ofStmt t ≤ ofStmt s
  fail : ∀ error : RunError, error.kind.IsPlain → ∀ st, ofExpr.holds st (some error) st
  literal : ∀ {payload kind}, expr (.literal payload kind) →
    (Action.ofResult (Value.ofLiteral payload kind)).Within ofExpr
  bind : ∀ s, ∀ name ∈ s.binds, ∀ st value,
    (ofStmt s).holds st none { st with stack := st.stack.define name value }
  register : ∀ f : FunctionDef, stmt f.toStmt → ∀ st,
    (ofStmt f.toStmt).holds st none (st.register f)
  call : ∀ {fuel}, (∀ s, stmt s → (Interpreter.exec limit fuel s).Within (ofStmt s)) →
    ∀ {name arguments}, expr (.call name arguments) → ∀ values : List Value,
      (Interpreter.callWith limit (Interpreter.exec limit fuel) name values).Within ofExpr

namespace Plan

variable {limit : Nat} (d : Plan limit)

/-! ## 4. Steps -/

/-- The result of an operation that raises only plain errors. -/
theorem ofResult_within {α : Type} {result : Except RunError α}
    (h : ∀ error, result = .error error → error.kind.IsPlain) :
    (Action.ofResult result).Within d.ofExpr :=
  Action.within_ofResult fun error hr => d.fail error (h error hr)

theorem readVariable_within (name : String) :
    (Interpreter.readVariable name).Within d.ofExpr := by
  refine Action.within_state.bind fun st => ?_
  cases st.stack.get? name with
  | some v => exact Action.within_pure v
  | none => exact Action.within_fail (d.fail _ ⟨nofun, nofun, nofun, nofun⟩)

theorem assign_within {s : Stmt} {name : String} (h : name ∈ s.binds) (value : Value) :
    (Interpreter.assign name value).Within (d.ofStmt s) :=
  Action.within_update fun st => d.bind s name h st value

/-! ## 5. Expressions and statements -/

section Step

variable {fuel : Nat}
  (heval : ∀ e, d.expr e → (Interpreter.eval limit fuel e).Within d.ofExpr)
  (hexec : ∀ s, d.stmt s → (Interpreter.exec limit fuel s).Within (d.ofStmt s))

include heval hexec

/-- One unit of fuel more for expressions. -/
theorem eval_step (e : Expr) (he : d.expr e) :
    (Interpreter.eval limit (fuel + 1) e).Within d.ofExpr := by
  have hpart : ∀ e' ∈ e.parts, (Interpreter.eval limit fuel e').Within d.ofExpr := fun e' h =>
    heval e' (d.expr_part he h)
  cases e with
  | literal payload kind =>
    simp only [Interpreter.eval]
    exact d.literal he
  | identifier name =>
    simp only [Interpreter.eval]
    exact d.readVariable_within name
  | binary op left right =>
    have hleft := hpart left (by simp [Expr.parts])
    have hright := hpart right (by simp [Expr.parts])
    by_cases hand : op = .and
    · subst hand
      simp only [Interpreter.eval]
      refine hleft.bind fun v => ?_
      split
      · exact hright.bind fun _ => Action.within_pure _
      · exact Action.within_pure _
    · by_cases hor : op = .or
      · subst hor
        simp only [Interpreter.eval]
        refine hleft.bind fun v => ?_
        split
        · exact Action.within_pure _
        · exact hright.bind fun _ => Action.within_pure _
      · rw [Interpreter.eval.eq_6 limit fuel op left right hand hor]
        refine hleft.bind fun a => hright.bind fun b => d.ofResult_within fun error h => ?_
        rcases Value.kind_of_binary hand hor h with hk | hk
        · exact hk ▸ (by decide)
        · exact hk ▸ (by decide)
  | unary op operand =>
    simp only [Interpreter.eval]
    exact (hpart operand (by simp [Expr.parts])).bind fun _ =>
      Action.within_ofResult_of_kind d.fail Value.kind_of_unary
  | call name arguments =>
    simp only [Interpreter.eval]
    exact (Action.within_collect arguments hpart).bind fun values => d.call hexec he values
  | index base position =>
    simp only [Interpreter.eval]
    refine (hpart base (by simp [Expr.parts])).bind fun a =>
      (hpart position (by simp [Expr.parts])).bind fun b => d.ofResult_within fun error h => ?_
    rcases Value.kind_of_index h with hk | hk | hk
    · exact hk ▸ (by decide)
    · exact hk ▸ (by decide)
    · exact hk ▸ (by decide)
  | sequence elements =>
    simp only [Interpreter.eval]
    exact (Action.within_collect elements hpart).bind fun _ => Action.within_pure _
  | mapping entries =>
    simp only [Interpreter.eval]
    refine (Action.within_collect entries fun entry h => ?_).bind fun _ => Action.within_pure _
    exact hpart entry.2 (List.mem_map_of_mem h)

/-- One unit of fuel more for statements. -/
theorem exec_step (s : Stmt) (hs : d.stmt s) :
    (Interpreter.exec limit (fuel + 1) s).Within (d.ofStmt s) := by
  have hexpr : ∀ e ∈ s.exprs, (Interpreter.eval limit fuel e).Within (d.ofStmt s) := fun e h =>
    (heval e (d.stmt_expr hs h)).mono (d.expr_le s)
  have hpart : ∀ t ∈ s.parts, (Interpreter.exec limit fuel t).Within (d.ofStmt s) := fun t ht =>
    (hexec t (d.stmt_part hs ht)).mono (d.part_le s t ht)
  cases s with
  | assign name value =>
    simp only [Interpreter.exec]
    exact (hexpr value (by simp [Stmt.exprs])).bind fun v =>
      (d.assign_within (by simp [Stmt.binds]) v).bind fun _ => Action.within_pure _
  | branch condition thenBlock elseBlock =>
    simp only [Interpreter.exec]
    refine (hexpr condition (by simp [Stmt.exprs])).bind fun v => ?_
    split
    · exact hpart thenBlock (by simp [Stmt.parts])
    · cases elseBlock with
      | some block => exact hpart block (by simp [Stmt.parts])
      | none => exact Action.within_pure _
  | loop condition body =>
    simp only [Interpreter.exec]
    exact Action.within_runWhile (hexpr condition (by simp [Stmt.exprs]))
      (hpart body (by simp [Stmt.parts])) fuel
  | loopFor init condition increment body =>
    simp only [Interpreter.exec]
    refine (hpart init (by simp [Stmt.parts])).bind fun signal => ?_
    cases signal with
    | returned v => exact Action.within_pure _
    | normal v =>
      exact Action.within_runCounting (hexpr condition (by simp [Stmt.exprs]))
        (hpart body (by simp [Stmt.parts])) (hpart increment (by simp [Stmt.parts])) fuel
  | loopEach item collection body =>
    simp only [Interpreter.exec]
    refine (hexpr collection (by simp [Stmt.exprs])).bind fun c => ?_
    have hitems : (Action.ofResult (Interpreter.itemsOf c)).Within d.ofExpr :=
      Action.within_ofResult_of_kind d.fail Interpreter.kind_of_itemsOf
    refine (hitems.mono (d.expr_le _)).bind fun items => ?_
    refine Action.within_runEach (fun v => ?_) items
    exact (d.assign_within (by simp [Stmt.binds]) v).bind fun _ =>
      hpart body (by simp [Stmt.parts])
  | declare name parameters body =>
    simp only [Interpreter.exec]
    exact (Action.within_update (d.register ⟨name, parameters, body⟩ hs)).bind fun _ =>
      Action.within_pure _
  | giveBack value =>
    cases value with
    | some e =>
      simp only [Interpreter.exec]
      exact (hexpr e (by simp [Stmt.exprs])).bind fun _ => Action.within_pure _
    | none =>
      simp only [Interpreter.exec]
      exact Action.within_pure _
  | evaluate e =>
    simp only [Interpreter.exec]
    exact (hexpr e (by simp [Stmt.exprs])).bind fun _ => Action.within_pure _
  | block statements =>
    simp only [Interpreter.exec]
    exact Action.within_runAll statements _ hpart

end Step

/-- Expressions and statements keep to the plan, whatever the fuel. -/
theorem run_within (fuel : Nat) :
    (∀ e, d.expr e → (Interpreter.eval limit fuel e).Within d.ofExpr) ∧
      ∀ s, d.stmt s → (Interpreter.exec limit fuel s).Within (d.ofStmt s) := by
  induction fuel with
  | zero =>
    refine ⟨fun e _ => ?_, fun s _ => ?_⟩
    · rw [Interpreter.eval.eq_1]
      exact Action.within_exhaust
    · rw [Interpreter.exec.eq_1]
      exact Action.within_exhaust
  | succ fuel ih => exact ⟨d.eval_step ih.1 ih.2, d.exec_step ih.1 ih.2⟩

/-- **Every expression that may be evaluated keeps to the plan.** -/
theorem eval_within (fuel : Nat) {e : Expr} (he : d.expr e) :
    (Interpreter.eval limit fuel e).Within d.ofExpr := (d.run_within fuel).1 e he

/-- **Every statement that may be executed keeps to the plan.** -/
theorem exec_within (fuel : Nat) {s : Stmt} (hs : d.stmt s) :
    (Interpreter.exec limit fuel s).Within (d.ofStmt s) := (d.run_within fuel).2 s hs

theorem executeAll_within {c : Change} (fuel : Nat) :
    ∀ (statements : List Stmt) (last : Value),
      (∀ s ∈ statements, d.stmt s ∧ d.ofStmt s ≤ c) →
      (Interpreter.executeAll limit fuel last statements).Within c
  | [], _, _ => Action.within_pure _
  | s :: rest, _, h => by
    obtain ⟨hs, hle⟩ := h s (by simp)
    have hfirst : (Interpreter.exec limit fuel s).Within c := (d.exec_within fuel hs).mono hle
    exact hfirst.bind fun signal =>
      executeAll_within fuel rest signal.value fun t ht => h t (by simp [ht])

end Plan

end TreeScript
