import TreeScript.Proofs.Binary64.Unpacked
import TreeScript.Proofs.Run.Literals

/-!
# Programs that are built, not loaded

A program need not come from a text: its tree can be made by constructors, one for every kind of
expression and statement.  The constructors of literals pair a payload with the kind that it fits,
so that what is built is never malformed, with one exception: a double that is not finite has no
JSON form, `Expr.number` keeps null in its place, and null is no number.  So a run of a program that
was built from finite doubles never ends in a malformed tree, and each of the doubles is evaluated
to itself (`built_runs`); a program with NaN in it ends at once (`built_runs_not_nan`).
-/

namespace TreeScript

open Binary64

/-! ## 1. Built trees -/

/-- **An expression that is made by constructors**, from doubles of which `given` holds. -/
inductive Expr.Built (given : Float → Prop) : Expr → Prop where
  | number {x : Float} (h : given x) : Built given (Expr.number x)
  | text (s : String) : Built given (Expr.text s)
  | boolean (b : Bool) : Built given (Expr.boolean b)
  | absence : Built given Expr.absence
  | identifier (name : String) : Built given (.identifier name)
  | binary (op : BinaryOp) {left right : Expr} (hleft : Built given left)
      (hright : Built given right) : Built given (.binary op left right)
  | unary (op : UnaryOp) {operand : Expr} (h : Built given operand) :
      Built given (.unary op operand)
  | call (name : String) {arguments : List Expr} (h : ∀ e ∈ arguments, Built given e) :
      Built given (.call name arguments)

/-- **A statement that is made of built expressions.** -/
inductive Stmt.Built (given : Float → Prop) : Stmt → Prop where
  | assign (name : String) {value : Expr} (h : value.Built given) : Built given (.assign name value)
  | branch {condition : Expr} {thenBlock : Stmt} {elseBlock : Option Stmt}
      (hcondition : condition.Built given) (hthen : Built given thenBlock)
      (helse : ∀ s ∈ elseBlock, Built given s) :
      Built given (.branch condition thenBlock elseBlock)
  | loop {condition : Expr} {body : Stmt} (hcondition : condition.Built given)
      (hbody : Built given body) : Built given (.loop condition body)
  | loopFor {init : Stmt} {condition : Expr} {increment body : Stmt} (hinit : Built given init)
      (hcondition : condition.Built given) (hincrement : Built given increment)
      (hbody : Built given body) : Built given (.loopFor init condition increment body)
  | loopEach (item : String) {collection : Expr} {body : Stmt}
      (hcollection : collection.Built given) (hbody : Built given body) :
      Built given (.loopEach item collection body)
  | declare (name : String) (parameters : List Parameter) {body : Stmt} (h : Built given body) :
      Built given (.declare name parameters body)
  | giveBack {value : Option Expr} (h : ∀ e ∈ value, e.Built given) : Built given (.giveBack value)
  | evaluate {e : Expr} (h : e.Built given) : Built given (.evaluate e)
  | block {statements : List Stmt} (h : ∀ s ∈ statements, Built given s) :
      Built given (.block statements)

/-- A program that is made of built statements. -/
def Program.Built (given : Float → Prop) (p : Program) : Prop :=
  ∀ s ∈ p.statements, s.Built given

/-! ## 2. The literal of a double -/

namespace Expr

variable {x : Float}

theorem number_of_finite (h : x.isFinite = true) :
    Expr.number x = .literal (.double x) .number := by
  rw [isFinite_eq] at h
  unfold Expr.number
  cases hx : ofFloat x <;> simp_all [value?]

theorem number_of_not_finite (h : x.isFinite = false) :
    Expr.number x = .literal .null .number := by
  rw [isFinite_eq] at h
  unfold Expr.number
  cases hx : ofFloat x <;> simp_all [value?]

end Expr

/-! ## 3. Payloads that fit -/

theorem Expr.fitsKind_of_literal {payload : Json} {kind : LiteralKind}
    (h : kind.admits payload = true) : (Expr.literal payload kind).FitsKind := by
  rintro payload' kind' heq
  cases heq
  exact h

section Fits

variable {given : Float → Prop}

/-- **The literals of a built expression fit**, if no double in it is infinite or NaN. -/
theorem Expr.Built.fitsKind (hfinite : ∀ x, given x → x.isFinite = true) {e : Expr}
    (h : e.Built given) : ∀ n ∈ e.nodes, n.FitsKind := by
  induction h with
  | number h =>
    rw [Expr.number_of_finite (hfinite _ h)]
    exact List.forall_mem_singleton.mpr (Expr.fitsKind_of_literal rfl)
  | text s => exact List.forall_mem_singleton.mpr (Expr.fitsKind_of_literal rfl)
  | boolean b => exact List.forall_mem_singleton.mpr (Expr.fitsKind_of_literal rfl)
  | absence => exact List.forall_mem_singleton.mpr (Expr.fitsKind_of_literal rfl)
  | identifier name => exact List.forall_mem_singleton.mpr nofun
  | binary op _ _ ihleft ihright =>
    exact List.forall_mem_cons.mpr ⟨nofun, List.forall_mem_append.mpr ⟨ihleft, ihright⟩⟩
  | unary op _ ih => exact List.forall_mem_cons.mpr ⟨nofun, ih⟩
  | call name _ ih =>
    refine List.forall_mem_cons.mpr ⟨nofun, fun n hn => ?_⟩
    obtain ⟨e, he, hn⟩ := Expr.exists_of_mem_nodesAll hn
    exact ih e he n hn

theorem Stmt.Built.fitsKind (hfinite : ∀ x, given x → x.isFinite = true) {s : Stmt}
    (h : s.Built given) : ∀ n ∈ s.nodes, n.FitsKind := by
  induction h with
  | assign name hvalue => exact hvalue.fitsKind hfinite
  | @branch condition thenBlock elseBlock hcondition _ _ ihthen ihelse =>
    have helse : ∀ n ∈ Stmt.nodesElse elseBlock, n.FitsKind := by
      cases elseBlock with
      | none => exact List.forall_mem_nil _
      | some s => exact ihelse s rfl
    exact List.forall_mem_append.mpr ⟨List.forall_mem_append.mpr
      ⟨hcondition.fitsKind hfinite, ihthen⟩, helse⟩
  | loop hcondition _ ih =>
    exact List.forall_mem_append.mpr ⟨hcondition.fitsKind hfinite, ih⟩
  | loopFor _ hcondition _ _ ihinit ihincrement ihbody =>
    simp only [Stmt.nodes, List.forall_mem_append]
    exact ⟨⟨⟨ihinit, hcondition.fitsKind hfinite⟩, ihincrement⟩, ihbody⟩
  | loopEach item hcollection _ ih =>
    exact List.forall_mem_append.mpr ⟨hcollection.fitsKind hfinite, ih⟩
  | declare name parameters _ ih => exact ih
  | @giveBack value hvalue =>
    cases value with
    | none => exact List.forall_mem_nil _
    | some e => exact (hvalue e rfl).fitsKind hfinite
  | evaluate he => exact he.fitsKind hfinite
  | block _ ih =>
    intro n hn
    obtain ⟨s, hs, hn⟩ := Stmt.exists_of_mem_nodesAll hn
    exact ih s hs n hn

end Fits

/-! ## 4. Runs -/

namespace Interpreter

/-- **The literal of a double is the double**, if that is finite, and malformed if it is not. -/
theorem eval_number (limit fuel : Nat) (x : Float) (st : State) :
    eval limit (fuel + 1) (.number x) st =
      if x.isFinite then .done (.number x) st
      else .failed (.malformedTree "Number literal cannot hold null") st := by
  cases hx : x.isFinite with
  | true =>
    rw [Expr.number_of_finite hx]
    rfl
  | false =>
    rw [Expr.number_of_not_finite hx]
    rfl

/-- **What is built from finite doubles is never malformed.**  A program that is made by
constructors, started in a state whose functions are too, does not end in a malformed tree, whatever
the limit of calls is and however long it runs, if all doubles that it is made from are finite; and
the literal of a finite double is evaluated to that double.  The literal of any other double is
malformed wherever it is evaluated. -/
theorem built_runs (given : Float → Prop) (p : Program) (hp : p.Built given) (st : State)
    (hst : st.EachFunction fun f => f.body.Built given) :
    ((∀ x, given x → x.isFinite = true) → ∀ limit fuel detail st',
      execute limit fuel p st ≠ .failed (.malformedTree detail) st') ∧
    ∀ limit fuel x st',
      (x.isFinite = true → eval limit (fuel + 1) (.number x) st' = .done (.number x) st') ∧
      (x.isFinite = false → eval limit (fuel + 1) (.number x) st' =
        .failed (.malformedTree "Number literal cannot hold null") st') := by
  refine ⟨fun hfinite limit fuel detail st' hrun => ?_, fun limit fuel x st' => ⟨?_, ?_⟩⟩
  · have hfits : ∀ s ∈ p.statements, ∀ n ∈ s.nodes, n.FitsKind :=
      fun s hs => (hp s hs).fitsKind hfinite
    have hkept := (Regime.wellFormed limit).execute_within fuel hfits st
    rw [hrun] at hkept
    exact (hkept fun name f hf => (hst name f hf).fitsKind hfinite).2 detail rfl
  · intro hx
    rw [eval_number, if_pos hx]
  · intro hx
    rw [eval_number, if_neg (by rw [hx]; exact Bool.false_ne_true)]

/-- A function that halves a number is called for three and for negative zero, and the results are
added. -/
def halving : Program :=
  ⟨[(FunctionDef.ofNames "half" ["x"]
      (.giveBack (some (.binary .mul (.identifier "x") (.number 0.5))))).toStmt,
    .evaluate (.binary .add (.call "half" [.number 3]) (.call "half" [.number (-0.0)]))]⟩

/-- It is built from three finite doubles, so that it is not malformed at any limit. -/
theorem built_runs_halving :
    halving.Built (· ∈ [0.5, 3, -0.0]) ∧
      (∀ x : Float, x ∈ [0.5, 3, -0.0] → x.isFinite = true) ∧
      (∀ limit fuel detail st',
        execute limit fuel halving {} ≠ .failed (.malformedTree detail) st') ∧
      eval 1000 1 (.number 3) {} = .done (.number 3) {} := by
  have hbuilt : halving.Built (· ∈ [0.5, 3, -0.0]) := by
    have hcall {x : Float} (hx : x ∈ [0.5, 3, -0.0]) :
        (Expr.call "half" [.number x]).Built (· ∈ [0.5, 3, -0.0]) :=
      .call "half" (List.forall_mem_singleton.mpr (.number hx))
    refine List.forall_mem_cons.mpr ⟨.declare _ _ (.giveBack ?_), List.forall_mem_singleton.mpr
      (.evaluate (.binary .add (hcall (by simp)) (hcall (by simp))))⟩
    rintro e ⟨⟩
    exact .binary .mul (.identifier "x") (.number (by simp))
  have hfinite : ∀ x : Float, x ∈ [0.5, 3, -0.0] → x.isFinite = true := by decide +kernel
  obtain ⟨hruns, hliterals⟩ := built_runs (· ∈ [0.5, 3, -0.0]) halving hbuilt {} nofun
  exact ⟨hbuilt, hfinite, hruns hfinite, (hliterals 1000 0 3 {}).1 (by decide +kernel)⟩

/-- **NaN cannot be built**: a program that consists of its literal is made by constructors, and
ends in a malformed tree. -/
theorem built_runs_not_nan :
    (0 / 0 : Float).isNaN = true ∧
      (Program.mk [.evaluate (.number (0 / 0))]).Built (fun _ => True) ∧
      execute 1000 2 ⟨[.evaluate (.number (0 / 0))]⟩ {} =
        .failed (.malformedTree "Number literal cannot hold null") {} := by
  refine ⟨by decide +kernel, List.forall_mem_singleton.mpr (.evaluate (.number trivial)), ?_⟩
  rw [Expr.number_of_not_finite (by decide +kernel)]
  rfl

end Interpreter

end TreeScript
