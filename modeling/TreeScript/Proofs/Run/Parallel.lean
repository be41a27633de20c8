import TreeScript.Proofs.Run.Accord
import TreeScript.Proofs.Run.Frames

/-!
# Parallel trees

Two expressions or statements are `Parallel` if they are made by the same construct, of related
parts, and if related names stand where the construct has a variable.  A `Correspondence` relates
only trees that are parallel.

What an accord has to show for itself is what reading and binding corresponding variables,
registering corresponding functions and calling do to corresponding states (`Accord.Supports`); then
corresponding trees go in step, whatever the fuel (`run_inStep`).  A call goes in step if the body
does, in states that may correspond in another way than those of the call (`Accord.Enters`).
-/

namespace TreeScript

/-! ## 1. Trees -/

/-- Expressions made by the same construct of related names and parts. -/
inductive Expr.Parallel (N : String → String → Prop) (R : Expr → Expr → Prop) :
    Expr → Expr → Prop where
  | literal (payload : Json) (kind : LiteralKind) :
    Parallel N R (.literal payload kind) (.literal payload kind)
  | identifier {x x' : String} (name : N x x') : Parallel N R (.identifier x) (.identifier x')
  | binary (op : BinaryOp) {l l' r r' : Expr} (left : R l l') (right : R r r') :
    Parallel N R (.binary op l r) (.binary op l' r')
  | unary (op : UnaryOp) {e e' : Expr} (operand : R e e') :
    Parallel N R (.unary op e) (.unary op e')
  | call (name : String) {es es' : List Expr} (arguments : List.Forall₂ R es es') :
    Parallel N R (.call name es) (.call name es')
  | index {b b' i i' : Expr} (base : R b b') (position : R i i') :
    Parallel N R (.index b i) (.index b' i')
  | sequence {es es' : List Expr} (elements : List.Forall₂ R es es') :
    Parallel N R (.sequence es) (.sequence es')
  | mapping {es es' : List (String × Expr)} (keys : es.map Prod.fst = es'.map Prod.fst)
    (values : List.Forall₂ (fun entry entry' => R entry.2 entry'.2) es es') :
    Parallel N R (.mapping es) (.mapping es')

/-- Statements made by the same construct of related names and parts; what they declare are related
functions. -/
inductive Stmt.Parallel (N : String → String → Prop) (R : Expr → Expr → Prop)
    (Q : Stmt → Stmt → Prop) (F : FunctionDef → FunctionDef → Prop) : Stmt → Stmt → Prop where
  | assign {x x' : String} {e e' : Expr} (name : N x x') (value : R e e') :
    Parallel N R Q F (.assign x e) (.assign x' e')
  | branch {c c' : Expr} {t t' : Stmt} {e e' : Option Stmt} (condition : R c c')
    (thenBlock : Q t t') (elseBlock : Option.Rel Q e e') :
    Parallel N R Q F (.branch c t e) (.branch c' t' e')
  | loop {c c' : Expr} {b b' : Stmt} (condition : R c c') (body : Q b b') :
    Parallel N R Q F (.loop c b) (.loop c' b')
  | loopFor {i i' k k' b b' : Stmt} {c c' : Expr} (init : Q i i') (condition : R c c')
    (increment : Q k k') (body : Q b b') :
    Parallel N R Q F (.loopFor i c k b) (.loopFor i' c' k' b')
  | loopEach {x x' : String} {c c' : Expr} {b b' : Stmt} (item : N x x') (collection : R c c')
    (body : Q b b') : Parallel N R Q F (.loopEach x c b) (.loopEach x' c' b')
  | declare {f f' : FunctionDef} (function : F f f') : Parallel N R Q F f.toStmt f'.toStmt
  | giveBack {e e' : Option Expr} (value : Option.Rel R e e') :
    Parallel N R Q F (.giveBack e) (.giveBack e')
  | evaluate {e e' : Expr} (expr : R e e') : Parallel N R Q F (.evaluate e) (.evaluate e')
  | block {ss ss' : List Stmt} (statements : List.Forall₂ Q ss ss') :
    Parallel N R Q F (.block ss) (.block ss')

/-- **Which names, trees and functions of two runs correspond.**  Trees that correspond are
parallel. -/
structure Correspondence where
  name : String → String → Prop
  expr : Expr → Expr → Prop
  stmt : Stmt → Stmt → Prop
  function : FunctionDef → FunctionDef → Prop
  expr_parallel : ∀ {e e'}, expr e e' → Expr.Parallel name expr e e'
  stmt_parallel : ∀ {s s'}, stmt s s' → Stmt.Parallel name expr stmt function s s'

/-- An expression is parallel to itself, if its variable and its parts are related to themselves. -/
theorem Expr.parallel_self {N : String → String → Prop} {R : Expr → Expr → Prop} {e : Expr}
    (hN : ∀ x, e = .identifier x → N x x) (hR : ∀ e' ∈ e.parts, R e' e') :
    Expr.Parallel N R e e := by
  cases e with
  | literal payload kind => exact .literal payload kind
  | identifier x => exact .identifier (hN x rfl)
  | binary op left right =>
    exact .binary op (hR left (by simp [Expr.parts])) (hR right (by simp [Expr.parts]))
  | unary op operand => exact .unary op (hR operand (by simp [Expr.parts]))
  | call name arguments => exact .call name (List.forall₂_same.mpr hR)
  | index base position =>
    exact .index (hR base (by simp [Expr.parts])) (hR position (by simp [Expr.parts]))
  | sequence elements => exact .sequence (List.forall₂_same.mpr hR)
  | mapping entries =>
    refine .mapping rfl (List.forall₂_same.mpr fun entry hentry => ?_)
    exact hR entry.2 (List.mem_map_of_mem hentry)

/-- A statement is parallel to itself, if what stands in it is related to itself. -/
theorem Stmt.parallel_self {N : String → String → Prop} {R : Expr → Expr → Prop}
    {Q : Stmt → Stmt → Prop} {F : FunctionDef → FunctionDef → Prop} {s : Stmt}
    (hN : ∀ x ∈ s.binds, N x x) (hR : ∀ e ∈ s.exprs, R e e) (hQ : ∀ t ∈ s.parts, Q t t)
    (hF : ∀ f, F f f) : Stmt.Parallel N R Q F s s := by
  cases s with
  | assign name value =>
    exact .assign (hN name (by simp [Stmt.binds])) (hR value (by simp [Stmt.exprs]))
  | branch condition thenBlock elseBlock =>
    refine .branch (hR condition (by simp [Stmt.exprs])) (hQ thenBlock (by simp [Stmt.parts])) ?_
    cases elseBlock with
    | none => exact .none
    | some block => exact .some (hQ block (by simp [Stmt.parts]))
  | loop condition body =>
    exact .loop (hR condition (by simp [Stmt.exprs])) (hQ body (by simp [Stmt.parts]))
  | loopFor init condition increment body =>
    exact .loopFor (hQ init (by simp [Stmt.parts])) (hR condition (by simp [Stmt.exprs]))
      (hQ increment (by simp [Stmt.parts])) (hQ body (by simp [Stmt.parts]))
  | loopEach item collection body =>
    exact .loopEach (hN item (by simp [Stmt.binds])) (hR collection (by simp [Stmt.exprs]))
      (hQ body (by simp [Stmt.parts]))
  | declare name parameters body => exact .declare (hF ⟨name, parameters, body⟩)
  | giveBack value =>
    refine .giveBack ?_
    cases value with
    | none => exact .none
    | some e => exact .some (hR e (by simp [Stmt.exprs]))
  | evaluate e => exact .evaluate (hR e (by simp [Stmt.exprs]))
  | block statements => exact .block (List.forall₂_same.mpr hQ)

/-- Everything corresponds to itself. -/
def Correspondence.identity : Correspondence where
  name := Eq
  expr := Eq
  stmt := Eq
  function := Eq
  expr_parallel h := h ▸ Expr.parallel_self (fun _ _ => rfl) fun _ _ => rfl
  stmt_parallel h := h ▸ Stmt.parallel_self (fun _ _ => rfl) (fun _ _ => rfl) (fun _ _ => rfl)
    fun _ => rfl

/-! ## 2. Accords that a run supports -/

open Interpreter

/-- **Variables, registrations and calls go in step**, as far as what they are made of corresponds. -/
structure Accord.Supports (A : Accord) (C : Correspondence) (limit limit' : Nat) : Prop
    extends A.Sound where
  read : ∀ {x x'}, C.name x x' → (readVariable x).InStep A A.value (readVariable x')
  assign : ∀ {x x' v}, C.name x x' → A.value v →
    (assign x v).InStep A (fun _ => True) (assign x' v)
  register : ∀ {f f'}, C.function f f' →
    (Action.update (·.register f)).InStep A (fun _ => True) (Action.update (·.register f'))
  call : ∀ {fuel}, (∀ s s', C.stmt s s' →
      (exec limit fuel s).InStep A A.signal (exec limit' fuel s')) →
    ∀ name values, (∀ v ∈ values, A.value v) →
      (callWith limit (exec limit fuel) name values).InStep A A.value
        (callWith limit' (exec limit' fuel) name values)

namespace Interpreter

/-- Variables are read in step if they are found, or missing, in corresponding states together. -/
theorem readVariable_inStep {A : Accord} {x x' : String}
    (hget : ∀ {st st'}, A.states st st' → st'.stack.get? x' = st.stack.get? x)
    (hvalue : ∀ {st st' v}, A.states st st' → st.stack.get? x = some v → A.value v)
    (herror : A.error (.unboundName x) = .unboundName x') :
    (readVariable x).InStep A A.value (readVariable x') := by
  intro st st' hst
  unfold readVariable
  simp only [Action.bind_apply, Action.state, hget hst]
  cases hv : st.stack.get? x with
  | some v => exact ⟨hvalue hst hv, st', rfl, hst⟩
  | none => exact Action.inStep_fail herror st st' hst

section Run

variable {A : Accord} {C : Correspondence} {limit limit' fuel : Nat}
  (hA : A.Supports C limit limit')

section Step

variable
  (heval : ∀ e e', C.expr e e' → (eval limit fuel e).InStep A A.value (eval limit' fuel e'))
  (hexec : ∀ s s', C.stmt s s' → (exec limit fuel s).InStep A A.signal (exec limit' fuel s'))

include hA heval hexec

/-- One unit of fuel more for expressions. -/
theorem eval_inStep_step {e e' : Expr} (h : C.expr e e') :
    (eval limit (fuel + 1) e).InStep A A.value (eval limit' (fuel + 1) e') := by
  cases C.expr_parallel h with
  | literal payload kind =>
    simp only [eval]
    exact hA.ofResult (fun h => hA.value.atom (Value.isAtom_of_ofLiteral h)) Value.kind_of_ofLiteral
  | identifier name =>
    simp only [eval]
    exact hA.read name
  | @binary op l l' r r' left right =>
    have hboolean : ∀ b : Bool, A.value (.boolean b) := fun _ => hA.value.atom rfl
    by_cases hand : op = .and
    · subst hand
      simp only [eval]
      refine (heval _ _ left).bind fun v _ => ?_
      split
      · exact (heval _ _ right).bind fun _ _ => Action.inStep_pure (hboolean _)
      · exact Action.inStep_pure (hboolean _)
    by_cases hor : op = .or
    · subst hor
      simp only [eval]
      refine (heval _ _ left).bind fun v _ => ?_
      split
      · exact Action.inStep_pure (hboolean _)
      · exact (heval _ _ right).bind fun _ _ => Action.inStep_pure (hboolean _)
    rw [eval.eq_6 limit fuel op l r hand hor, eval.eq_6 limit' fuel op l' r' hand hor]
    refine (heval _ _ left).bind fun a _ => (heval _ _ right).bind fun b _ => ?_
    refine Action.inStep_ofResult (fun h => hA.value.atom (Value.isAtom_of_binary h)) fun h => ?_
    rcases Value.kind_of_binary hand hor h with hk | hk
    · exact hA.error (hk ▸ (by decide))
    · exact hA.error (hk ▸ (by decide))
  | unary op operand =>
    simp only [eval]
    refine (heval _ _ operand).bind fun a _ => ?_
    exact hA.ofResult (fun h => hA.value.atom (Value.isAtom_of_unary h)) Value.kind_of_unary
  | call name arguments =>
    simp only [eval]
    exact (Action.inStep_collect heval arguments).bind fun values hvalues =>
      hA.call hexec name values hvalues
  | index base position =>
    simp only [eval]
    refine (heval _ _ base).bind fun a ha => (heval _ _ position).bind fun b _ => ?_
    refine Action.inStep_ofResult (fun h => hA.value.index ha h) fun h => ?_
    rcases Value.kind_of_index h with hk | hk | hk
    · exact hA.error (hk ▸ (by decide))
    · exact hA.error (hk ▸ (by decide))
    · exact hA.error (hk ▸ (by decide))
  | sequence elements =>
    simp only [eval]
    refine (Action.inStep_collect heval elements).bind fun values hvalues => ?_
    exact Action.inStep_pure (hA.value.sequence hvalues)
  | mapping keys values =>
    simp only [eval, keys]
    refine (Action.inStep_collect (fun _ _ h => heval _ _ h) values).bind fun vs hvs => ?_
    refine Action.inStep_pure (hA.value.mapping fun pair hpair => hvs pair.2 ?_)
    exact (List.of_mem_zip hpair).2

/-- One unit of fuel more for statements. -/
theorem exec_inStep_step {s s' : Stmt} (h : C.stmt s s') :
    (exec limit (fuel + 1) s).InStep A A.signal (exec limit' (fuel + 1) s') := by
  have habsence : A.signal (.normal .absence) := hA.absence
  cases C.stmt_parallel h with
  | assign name value =>
    simp only [exec]
    refine (heval _ _ value).bind fun v hv => ?_
    exact (hA.assign name hv).bind fun _ _ => Action.inStep_pure hv
  | branch condition thenBlock elseBlock =>
    simp only [exec]
    refine (heval _ _ condition).bind fun v _ => ?_
    split
    · exact hexec _ _ thenBlock
    · cases elseBlock with
      | some block => exact hexec _ _ block
      | none => exact Action.inStep_pure habsence
  | loop condition body =>
    simp only [exec]
    exact Action.inStep_runWhile hA.absence (heval _ _ condition) (hexec _ _ body) fuel
  | loopFor init condition increment body =>
    simp only [exec]
    refine (hexec _ _ init).bind fun signal hsignal => ?_
    cases signal with
    | returned v => exact Action.inStep_pure hsignal
    | normal v =>
      exact Action.inStep_runCounting hA.absence (heval _ _ condition) (hexec _ _ body)
        (hexec _ _ increment) fuel
  | loopEach item collection body =>
    simp only [exec]
    refine (heval _ _ collection).bind fun c hc => ?_
    have hitems : (Action.ofResult (itemsOf c)).InStep A (fun items => ∀ v ∈ items, A.value v)
        (Action.ofResult (itemsOf c)) := hA.ofResult (fun h => hA.value.items hc h) kind_of_itemsOf
    refine hitems.bind fun items hitems => ?_
    refine Action.inStep_runEach hA.absence fun v hv => ?_
    exact (hA.assign item (hitems v hv)).bind fun _ _ => hexec _ _ body
  | declare function =>
    simp only [FunctionDef.toStmt, exec]
    exact (hA.register function).bind fun _ _ => Action.inStep_pure habsence
  | giveBack value =>
    cases value with
    | some e =>
      simp only [exec]
      exact (heval _ _ e).bind fun v hv => Action.inStep_pure hv
    | none =>
      simp only [exec]
      exact Action.inStep_pure habsence
  | evaluate e =>
    simp only [exec]
    exact (heval _ _ e).bind fun v hv => Action.inStep_pure hv
  | block statements =>
    simp only [exec]
    exact Action.inStep_runAll hexec hA.absence statements

end Step

include hA

/-- **Corresponding trees go in step**, whatever the fuel. -/
theorem run_inStep (fuel : Nat) :
    (∀ e e', C.expr e e' → (eval limit fuel e).InStep A A.value (eval limit' fuel e')) ∧
      ∀ s s', C.stmt s s' → (exec limit fuel s).InStep A A.signal (exec limit' fuel s') := by
  -- on the fuel and not on the trees: the body of a called function is no part of the call
  induction fuel with
  | zero =>
    constructor
    · intro e e' _
      rw [eval.eq_1, eval.eq_1]
      exact Action.inStep_exhaust
    · intro s s' _
      rw [exec.eq_1, exec.eq_1]
      exact Action.inStep_exhaust
  | succ fuel ih =>
    exact ⟨fun _ _ h => eval_inStep_step hA ih.1 ih.2 h,
      fun _ _ h => exec_inStep_step hA ih.1 ih.2 h⟩

theorem executeAll_inStep (fuel : Nat) :
    ∀ {ss ss' : List Stmt} {last : Value}, A.value last → List.Forall₂ C.stmt ss ss' →
      (executeAll limit fuel last ss).InStep A A.value (executeAll limit' fuel last ss')
  | _, _, _, hlast, .nil => Action.inStep_pure hlast
  | _, _, _, _, .cons hs hrest =>
    ((run_inStep hA fuel).2 _ _ hs).bind fun _ hsignal => executeAll_inStep fuel hsignal hrest

theorem call_inStep (fuel : Nat) (name : String) {values : List Value}
    (hvalues : ∀ v ∈ values, A.value v) :
    (call limit fuel name values).InStep A A.value (call limit' fuel name values) :=
  hA.call (run_inStep hA fuel).2 name values hvalues

end Run

end Interpreter

/-! ## 3. Calls -/

/-- **What functions and states have to keep**, so that calls go in step as soon as bodies do.
`inner` says which states correspond while a body runs. -/
structure Accord.Enters (A : Accord) (inner : State → State → Prop)
    (F : FunctionDef → FunctionDef → Prop) (limit limit' : Nat) : Prop where
  name : ∀ {f f'}, F f f' → f'.name = f.name
  arity : ∀ {f f'}, F f f' → f'.parameters.length = f.parameters.length
  lookup : ∀ {st st'}, A.states st st' → ∀ name,
    Option.Rel F (Entries.get? st.functions name) (Entries.get? st'.functions name)
  room : ∀ {st st'}, A.states st st' → (limit < st.stack.depth ↔ limit' < st'.stack.depth)
  overflow : A.error (.stackOverflow limit) = .stackOverflow limit'
  enter : ∀ {f f' values st st'}, F f f' → (∀ v ∈ values, A.value v) → A.states st st' →
    inner (st.enter f.name (parameterFrame f.parameters values))
      (st'.enter f'.name (parameterFrame f'.parameters values))
  leave : ∀ {outer outer' st st'}, A.states outer outer' → inner st st' →
    A.states { st with stack := outer.stack } { st' with stack := outer'.stack }

/-- In the same table the same functions are found. -/
theorem rel_get?_self {F : FunctionDef → FunctionDef → Prop} (hF : ∀ f, F f f)
    (functions : List (String × FunctionDef)) (name : String) :
    Option.Rel F (Entries.get? functions name) (Entries.get? functions name) := by
  cases Entries.get? functions name with
  | some f => exact .some (hF f)
  | none => exact .none

namespace Interpreter

section Call

variable {A : Accord} {inner : State → State → Prop} {F : FunctionDef → FunctionDef → Prop}
  {limit limit' fuel : Nat} (hA : A.Sound) (hE : A.Enters inner F limit limit')

include hA hE

theorem noteExtra_inStep {f f' : FunctionDef} (hf : F f f') (values : List Value)
    {st st' : State} (hst : A.states st st') :
    A.states (st.noteExtra f values) (st'.noteExtra f' values) := by
  unfold State.noteExtra
  rw [hE.name hf, hE.arity hf]
  split
  · exact hA.world.note (Or.inl rfl) hst
  · exact hst

/-- Corresponding functions are let in together. -/
theorem callFunction_inStep {f f' : FunctionDef} (hf : F f f')
    (hbody : (exec limit fuel f.body).InStep { A with states := inner } A.signal
      (exec limit' fuel f'.body))
    {values : List Value} (hvalues : ∀ v ∈ values, A.value v) :
    (callFunction limit (exec limit fuel) f values).InStep A A.value
      (callFunction limit' (exec limit' fuel) f' values) := by
  intro st st' hst
  have harity : f'.parameters.length = f.parameters.length := hE.arity hf
  -- refused for too few arguments, refused for the depth, or let in: on both sides the same
  rcases Nat.lt_or_ge values.length f.parameters.length with hfew | henough
  · rw [callFunction_few hfew, callFunction_few (harity ▸ hfew), hE.name hf, harity]
    have herror : A.error (.arityMismatch f.name f.parameters.length values.length) =
        .arityMismatch f.name f.parameters.length values.length := hA.error ⟨nofun, nofun⟩
    exact ⟨st', by rw [herror], hst⟩
  have henough' : f'.parameters.length ≤ values.length := harity ▸ henough
  have hnoted := noteExtra_inStep hA hE hf values hst
  rcases Nat.lt_or_ge limit st.stack.depth with hdeep | hroom
  · rw [callFunction_deep henough hdeep, callFunction_deep henough' ((hE.room hst).mp hdeep)]
    exact ⟨_, by rw [hE.overflow], hnoted⟩
  · have hroom' : st'.stack.depth ≤ limit' :=
      Nat.not_lt.mp fun h => Nat.not_lt.mpr hroom ((hE.room hst).mpr h)
    rw [callFunction_eq_restore henough hroom (exec_callers limit fuel f.body _),
      callFunction_eq_restore henough' hroom' (exec_callers limit' fuel f'.body _)]
    have hends := hbody _ _ (hE.enter hf hvalues hnoted)
    exact hends.restore (fun _ hsignal => hsignal) fun _ _ h => hE.leave hst h

/-- **Calls by name go in step** if the bodies of corresponding functions do. -/
theorem callWith_inStep
    (hbody : ∀ {f f'}, F f f' → (exec limit fuel f.body).InStep { A with states := inner } A.signal
      (exec limit' fuel f'.body))
    (name : String) {values : List Value} (hvalues : ∀ v ∈ values, A.value v) :
    (callWith limit (exec limit fuel) name values).InStep A A.value
      (callWith limit' (exec limit' fuel) name values) := by
  unfold callWith
  cases Builtin.ofName? name with
  | some b => exact Builtin.call_inStep hA b values
  | none =>
    intro st st' hst
    have hlookup := hE.lookup hst name
    simp only [Action.bind_apply, Action.state]
    generalize Entries.get? st.functions name = found at hlookup ⊢
    generalize Entries.get? st'.functions name = found' at hlookup ⊢
    cases hlookup with
    | some hf => exact callFunction_inStep hA hE hf (hbody hf) hvalues st st' hst
    | none =>
      have hcommon : ErrorKind.unknownFunction.IsCommon := by decide
      have hfail : (Action.fail (.unknownFunction name)).InStep A A.value
          (Action.fail (.unknownFunction name)) := hA.fail hcommon
      exact hfail st st' hst

end Call

end Interpreter

end TreeScript
