import Mathlib.Logic.Equiv.Basic
import TreeScript.Proofs.Run.Parallel
import TreeScript.Proofs.Run.Report

/-!
# Renaming the variables of a program

The variables of a program may be renamed by any injective map, in its expressions, assignments,
loops and parameters, and in the bodies of its functions.  Functions, keys of mappings and texts
keep their names, though some of them may be spelled as a variable is: a name is looked up either
among the variables of the current frame, or among the functions, or among the keys of a mapping.

The state of the renamed run is at each step the renamed state of the original run: its frames have
renamed keys, and its functions renamed parameters and bodies.  So both make the same steps, and the
name that is missing in an error is the only thing told differently.
-/

namespace TreeScript

/-! ## 1. Renaming trees -/

/-- A parameter with another name. -/
def Parameter.rename (ρ : String → String) (p : Parameter) : Parameter :=
  { p with name := ρ p.name }

mutual

/-- An expression with its variables renamed. -/
def Expr.rename (ρ : String → String) : Expr → Expr
  | .literal payload kind => .literal payload kind
  | .identifier name => .identifier (ρ name)
  | .binary op left right => .binary op (left.rename ρ) (right.rename ρ)
  | .unary op operand => .unary op (operand.rename ρ)
  | .call name arguments => .call name (Expr.renameAll ρ arguments)
  | .index base position => .index (base.rename ρ) (position.rename ρ)
  | .sequence elements => .sequence (Expr.renameAll ρ elements)
  | .mapping entries => .mapping (Expr.renameEntries ρ entries)

/-- A list of expressions with their variables renamed. -/
def Expr.renameAll (ρ : String → String) : List Expr → List Expr
  | [] => []
  | e :: rest => e.rename ρ :: Expr.renameAll ρ rest

/-- The entries of a mapping with the variables in their values renamed. -/
def Expr.renameEntries (ρ : String → String) : List (String × Expr) → List (String × Expr)
  | [] => []
  | (key, e) :: rest => (key, e.rename ρ) :: Expr.renameEntries ρ rest

end

mutual

/-- **A statement with its variables renamed**, those in the bodies of declared functions and their
parameters included. -/
def Stmt.rename (ρ : String → String) : Stmt → Stmt
  | .assign name value => .assign (ρ name) (value.rename ρ)
  | .branch condition thenBlock elseBlock =>
    .branch (condition.rename ρ) (thenBlock.rename ρ) (Stmt.renameElse ρ elseBlock)
  | .loop condition body => .loop (condition.rename ρ) (body.rename ρ)
  | .loopFor init condition increment body =>
    .loopFor (init.rename ρ) (condition.rename ρ) (increment.rename ρ) (body.rename ρ)
  | .loopEach item collection body =>
    .loopEach (ρ item) (collection.rename ρ) (body.rename ρ)
  | .declare name parameters body =>
    .declare name (parameters.map (Parameter.rename ρ)) (body.rename ρ)
  | .giveBack value => .giveBack (value.map (Expr.rename ρ))
  | .evaluate e => .evaluate (e.rename ρ)
  | .block statements => .block (Stmt.renameAll ρ statements)

/-- An else part with its variables renamed. -/
def Stmt.renameElse (ρ : String → String) : Option Stmt → Option Stmt
  | none => none
  | some s => some (s.rename ρ)

/-- A list of statements with their variables renamed. -/
def Stmt.renameAll (ρ : String → String) : List Stmt → List Stmt
  | [] => []
  | s :: rest => s.rename ρ :: Stmt.renameAll ρ rest

end

/-- A program with its variables renamed. -/
def Program.rename (ρ : String → String) (p : Program) : Program :=
  ⟨Stmt.renameAll ρ p.statements⟩

/-- A function with its parameters and the variables of its body renamed. -/
def FunctionDef.rename (ρ : String → String) (f : FunctionDef) : FunctionDef where
  name := f.name
  parameters := f.parameters.map (Parameter.rename ρ)
  body := f.body.rename ρ

section Trees

variable (ρ : String → String)

theorem Expr.forall₂_renameAll (es : List Expr) :
    List.Forall₂ (fun e e' => e' = e.rename ρ) es (Expr.renameAll ρ es) := by
  induction es with
  | nil => exact .nil
  | cons e rest ih => exact .cons rfl ih

theorem Expr.keys_renameEntries (entries : List (String × Expr)) :
    entries.map Prod.fst = (Expr.renameEntries ρ entries).map Prod.fst := by
  induction entries with
  | nil => rfl
  | cons entry rest ih => exact congrArg (entry.1 :: ·) ih

theorem Expr.forall₂_renameEntries (entries : List (String × Expr)) :
    List.Forall₂ (fun entry entry' => entry'.2 = entry.2.rename ρ) entries
      (Expr.renameEntries ρ entries) := by
  induction entries with
  | nil => exact .nil
  | cons entry rest ih => exact .cons rfl ih

theorem Stmt.forall₂_renameAll (ss : List Stmt) :
    List.Forall₂ (fun s s' => s' = s.rename ρ) ss (Stmt.renameAll ρ ss) := by
  induction ss with
  | nil => exact .nil
  | cons s rest ih => exact .cons rfl ih

/-- Everything corresponds to what it is renamed to. -/
def Correspondence.renaming : Correspondence where
  name x x' := x' = ρ x
  expr e e' := e' = e.rename ρ
  stmt s s' := s' = s.rename ρ
  function f f' := f' = f.rename ρ
  expr_parallel := by
    rintro e _ rfl
    cases e with
    | literal payload kind => exact .literal payload kind
    | identifier name => exact .identifier rfl
    | binary op left right => exact .binary op rfl rfl
    | unary op operand => exact .unary op rfl
    | call name arguments => exact .call name (Expr.forall₂_renameAll ρ arguments)
    | index base position => exact .index rfl rfl
    | sequence elements => exact .sequence (Expr.forall₂_renameAll ρ elements)
    | mapping entries =>
      exact .mapping (Expr.keys_renameEntries ρ entries) (Expr.forall₂_renameEntries ρ entries)
  stmt_parallel := by
    rintro s _ rfl
    cases s with
    | assign name value => exact .assign rfl rfl
    | branch condition thenBlock elseBlock =>
      refine .branch rfl rfl ?_
      cases elseBlock with
      | none => exact .none
      | some block => exact .some rfl
    | loop condition body => exact .loop rfl rfl
    | loopFor init condition increment body => exact .loopFor rfl rfl rfl rfl
    | loopEach item collection body => exact .loopEach rfl rfl rfl
    | declare name parameters body =>
      exact @Stmt.Parallel.declare _ _ _ _ ⟨name, parameters, body⟩
        (FunctionDef.rename ρ ⟨name, parameters, body⟩) rfl
    | giveBack value =>
      refine .giveBack ?_
      cases value with
      | none => exact .none
      | some e => exact .some rfl
    | evaluate e => exact .evaluate rfl
    | block statements => exact .block (Stmt.forall₂_renameAll ρ statements)

end Trees

/-! ## 2. Renaming states -/

/-- A frame with its names changed. -/
def Frame.rename (ρ : String → String) (frame : Frame) : Frame := frame.map (Prod.map ρ id)

/-- A stack with the names in all of its frames changed. -/
def CallStack.rename (ρ : String → String) (stack : CallStack) : CallStack where
  current := Frame.rename ρ stack.current
  callers := stack.callers.map (Frame.rename ρ)
  depth := stack.depth
  depth_eq := by rw [List.length_map, stack.depth_eq]

/-- A state with the variables of its frames and of its functions renamed. -/
def State.rename (ρ : String → String) (st : State) : State :=
  { st with
    stack := st.stack.rename ρ
    functions := st.functions.map (Prod.map id (FunctionDef.rename ρ)) }

/-- An error that tells of the new name, if a variable was missing. -/
def RunError.rename (ρ : String → String) : RunError → RunError
  | .unboundName name => .unboundName (ρ name)
  | error => error

/-- What is seen of a renamed run. -/
def Report.rename (ρ : String → String) (report : Report) : Report :=
  { report with
    result := report.result.mapError (RunError.rename ρ)
    bindings := Frame.rename ρ report.bindings }

theorem Outcome.report?_along_rename (ρ : String → String) (outcome : Outcome Value) :
    (outcome.along (State.rename ρ) (RunError.rename ρ)).report? =
      outcome.report?.map (Report.rename ρ) := by
  cases outcome <;> rfl

/-- The second run is the first, renamed. -/
def Accord.renaming (ρ : String → String) : Accord := .along (State.rename ρ) (RunError.rename ρ)

section States

variable {ρ : String → String}

theorem RunError.rename_of_isCommon {error : RunError} (h : error.kind.IsCommon) :
    error.rename ρ = error := by
  cases error with
  | unboundName name => exact absurd rfl h.1
  | _ => rfl

theorem Accord.sound_renaming : (Accord.renaming ρ).Sound :=
  Accord.sound_along RunError.rename_of_isCommon (fun _ => rfl) (fun _ => rfl) (fun _ _ => rfl)
    (fun _ _ => rfl) fun _ _ _ => rfl

theorem State.get?_functions_rename (st : State) (name : String) :
    Entries.get? (st.rename ρ).functions name =
      (Entries.get? st.functions name).map (FunctionDef.rename ρ) :=
  Entries.get?_map Function.injective_id (FunctionDef.rename ρ) name st.functions

theorem State.register_rename (st : State) (f : FunctionDef) :
    (st.rename ρ).register (f.rename ρ) = (st.register f).rename ρ := by
  have hname : (f.rename ρ).name = f.name := rfl
  have hinsert : Entries.insert (st.rename ρ).functions f.name (f.rename ρ) =
      (Entries.insert st.functions f.name f).map (Prod.map id (FunctionDef.rename ρ)) :=
    Entries.insert_map Function.injective_id (FunctionDef.rename ρ) f.name f st.functions
  have hcontains : Entries.contains (st.rename ρ).functions f.name =
      Entries.contains st.functions f.name := by
    unfold Entries.contains
    rw [State.get?_functions_rename, Option.isSome_map]
  unfold State.register
  rw [hname, hinsert, hcontains]
  rfl

variable (hρ : Function.Injective ρ)

include hρ

theorem CallStack.get?_rename (stack : CallStack) (x : String) :
    (stack.rename ρ).get? (ρ x) = stack.get? x := by
  have h := Entries.get?_map hρ id x stack.current
  rw [Option.map_id] at h
  exact h

theorem CallStack.define_rename (stack : CallStack) (x : String) (v : Value) :
    (stack.rename ρ).define (ρ x) v = (stack.define x v).rename ρ :=
  CallStack.ext_frames (Entries.insert_map hρ id x v stack.current) rfl

theorem parameterFrame_rename (parameters : List Parameter) (values : List Value) :
    Interpreter.parameterFrame (parameters.map (Parameter.rename ρ)) values =
      Frame.rename ρ (Interpreter.parameterFrame parameters values) := by
  -- repeated parameters are repeated under their new name, so the later value wins on both sides
  have hpairs : ((parameters.map (Parameter.rename ρ)).map Parameter.name).zip values =
      ((parameters.map Parameter.name).zip values).map (Prod.map ρ id) := by
    rw [List.map_map, ← List.zip_map_left, List.map_map]
    rfl
  unfold Interpreter.parameterFrame Frame.rename
  rw [hpairs, Entries.ofPairs_map hρ id]

theorem State.enter_rename (st : State) (f : FunctionDef) (values : List Value) :
    (st.rename ρ).enter f.name
        (Interpreter.parameterFrame (f.parameters.map (Parameter.rename ρ)) values) =
      (st.enter f.name (Interpreter.parameterFrame f.parameters values)).rename ρ := by
  rw [parameterFrame_rename hρ]
  rfl

theorem Accord.enters_renaming (limit : Nat) :
    (Accord.renaming ρ).Enters (Accord.renaming ρ).states (fun f f' => f' = f.rename ρ) limit
      limit where
  name h := by
    rw [h]
    rfl
  arity h := by
    rw [h]
    exact List.length_map _
  lookup {st st'} h name := by
    obtain rfl : st' = st.rename ρ := h
    rw [State.get?_functions_rename]
    cases Entries.get? st.functions name with
    | some f => exact .some rfl
    | none => exact .none
  room h := by
    rw [h]
    exact Iff.rfl
  overflow := rfl
  enter := by
    rintro f _ values st _ rfl - rfl
    exact State.enter_rename hρ st f values
  leave := by
    rintro outer _ st _ rfl rfl
    rfl

end States

/-! ## 3. Renaming runs -/

namespace Interpreter

section Runs

variable {ρ : String → String} (hρ : Function.Injective ρ) (limit : Nat)

include hρ

theorem supports_renaming :
    (Accord.renaming ρ).Supports (.renaming ρ) limit limit where
  toSound := Accord.sound_renaming
  read := by
    rintro x _ rfl
    refine readVariable_inStep ?_ (fun _ _ => trivial) rfl
    rintro st _ rfl
    exact st.stack.get?_rename hρ x
  assign := by
    rintro x _ v rfl -
    refine Action.inStep_update ?_
    rintro st _ rfl
    have hdefine := st.stack.define_rename hρ x v
    exact congrArg (fun stack => { st.rename ρ with stack := stack }) hdefine
  register := by
    rintro f _ rfl
    refine Action.inStep_update ?_
    rintro st _ rfl
    exact st.register_rename f
  call {fuel} hexec name values hvalues := by
    refine callWith_inStep Accord.sound_renaming (Accord.enters_renaming hρ limit) ?_ name hvalues
    rintro f _ rfl
    exact hexec f.body _ rfl

/-- **The run of a renamed program from a renamed state is the renamed run**, whatever the fuel. -/
theorem execute_rename_state (fuel : Nat) (p : Program) (st : State) :
    execute limit fuel (p.rename ρ) (st.rename ρ) =
      (execute limit fuel p st).along (State.rename ρ) (RunError.rename ρ) := by
  have h := executeAll_inStep (supports_renaming hρ limit) fuel
    (supports_renaming hρ limit).absence (Stmt.forall₂_renameAll ρ p.statements)
  exact Action.InStep.eq_along h st

end Runs

end Interpreter

/-- **Renaming variables does not matter.**  If the variables of a program are renamed by an
injective map, the two programs, started on the same console and files, both run for ever or end in
the same way: with the same value or error, up to the name of a variable that is missing, with the
same output, records and files, and with the same values of the program's own variables under their
new names. -/
theorem Program.endsIn_rename (limit : Nat) (p : Program) (ρ : String → String)
    (hρ : Function.Injective ρ) (console : Console) (files : Files) (report : Report) :
    (p.rename ρ).EndsIn limit console files report ↔
      ∃ original, p.EndsIn limit console files original ∧ original.rename ρ = report := by
  have hrun : ∀ fuel,
      (Interpreter.execute limit fuel (p.rename ρ) { console := console, files := files }).report? =
        (Interpreter.execute limit fuel p { console := console, files := files }).report?.map
          (Report.rename ρ) := by
    intro fuel
    rw [← Outcome.report?_along_rename, ← Interpreter.execute_rename_state hρ]
    rfl
  constructor
  · rintro ⟨fuel, h⟩
    rw [hrun] at h
    obtain ⟨original, horiginal, heq⟩ := Option.map_eq_some_iff.mp h
    exact ⟨original, ⟨fuel, horiginal⟩, heq⟩
  · rintro ⟨original, ⟨fuel, horiginal⟩, rfl⟩
    refine ⟨fuel, ?_⟩
    rw [hrun, horiginal]
    rfl

/-- A program in which a function, its parameter, a key and a variable have the same name. -/
def namesakes : Program where
  statements :=
    [.declare "x" [⟨"x", none⟩] (.giveBack (some (.mapping [("x", .identifier "x")]))),
      .assign "x" (.call "x" [.text "a"]), .evaluate (.identifier "y")]

/-- Where two variables swap their names, the other one is missing in the end. -/
theorem Program.endsIn_rename_namesakes :
    Function.Injective (Equiv.swap "x" "y") ∧
      ∃ report, (namesakes.rename (Equiv.swap "x" "y")).EndsIn 1 {} {} report ∧
        report.result = .error (.unboundName "x") ∧
        report.bindings = [("y", .mapping [("x", .text "a")])] := by
  have hswap : Function.Injective (Equiv.swap "x" "y") := (Equiv.swap "x" "y").injective
  refine ⟨hswap, _, (Program.endsIn_rename 1 namesakes _ hswap {} {} _).mpr ⟨_, ⟨9, rfl⟩, rfl⟩,
    ?_, ?_⟩
  · exact congrArg (Except.error ∘ RunError.unboundName) (Equiv.swap_apply_right "x" "y")
  · exact congrArg (fun x => [(x, Value.mapping [("x", .text "a")])])
      (Equiv.swap_apply_left "x" "y")

end TreeScript
