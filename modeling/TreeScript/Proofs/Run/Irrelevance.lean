import TreeScript.Proofs.Run.Nodes
import TreeScript.Proofs.Run.Parallel

/-!
# Variables that are not mentioned

What a statement does depends on the variables that it mentions itself, and on no others.  The names
in the bodies of the functions that it declares do not count, because a body never sees the frame in
which it was declared or called.

Two states `AgreeOn` some names if they have the same world and functions, as many frames, and the
same values for these names in the current frame.  Inside a call the two current frames are the same
altogether, so calls are taken first, with all names agreed on; the statement itself comes after
that, with the names that it mentions.
-/

namespace TreeScript

/-! ## 1. The names that are mentioned -/

/-- The name of a variable. -/
def Expr.identifier? : Expr → Option String
  | .identifier name => some name
  | _ => none

/-- The names of the variables in an expression. -/
def Expr.variables (e : Expr) : List String := e.nodes.filterMap Expr.identifier?

mutual

/-- **The names that a statement mentions**: those of variables in its expressions, the targets of
its assignments and the variables of its loops.  The bodies of declared functions are excepted. -/
def Stmt.variables : Stmt → List String
  | .assign name value => name :: value.variables
  | .branch condition thenBlock elseBlock =>
    condition.variables ++ thenBlock.variables ++ Stmt.variablesElse elseBlock
  | .loop condition body => condition.variables ++ body.variables
  | .loopFor init condition increment body =>
    init.variables ++ condition.variables ++ increment.variables ++ body.variables
  | .loopEach item collection body => item :: (collection.variables ++ body.variables)
  | .declare _ _ _ => []
  | .giveBack value => value.toList.flatMap Expr.variables
  | .evaluate e => e.variables
  | .block statements => Stmt.variablesAll statements

/-- The names that an else part mentions. -/
def Stmt.variablesElse : Option Stmt → List String
  | none => []
  | some s => s.variables

/-- The names that a list of statements mentions. -/
def Stmt.variablesAll : List Stmt → List String
  | [] => []
  | s :: rest => s.variables ++ Stmt.variablesAll rest

end

theorem Expr.variables_of_mem_parts {e e' : Expr} {x : String} (h : e' ∈ e.parts)
    (hx : x ∈ e'.variables) : x ∈ e.variables := by
  obtain ⟨n, hn, hname⟩ := List.mem_filterMap.mp hx
  exact List.mem_filterMap.mpr ⟨n, Expr.nodes_of_mem_parts h hn, hname⟩

theorem Stmt.mem_variablesAll {x : String} {s : Stmt} (hx : x ∈ s.variables) :
    ∀ {statements : List Stmt}, s ∈ statements → x ∈ Stmt.variablesAll statements
  | first :: rest, h => by
    rw [Stmt.variablesAll, List.mem_append]
    rcases List.mem_cons.mp h with rfl | h
    · exact Or.inl hx
    · exact Or.inr (Stmt.mem_variablesAll hx h)

theorem Stmt.variables_of_mem_binds {s : Stmt} {x : String} (h : x ∈ s.binds) :
    x ∈ s.variables := by
  cases s with
  | assign name value =>
    rcases List.mem_singleton.mp h with rfl
    exact List.mem_cons_self
  | loopEach item collection body =>
    rcases List.mem_singleton.mp h with rfl
    exact List.mem_cons_self
  | _ => cases h

theorem Stmt.variables_of_mem_exprs {s : Stmt} {e : Expr} {x : String} (h : e ∈ s.exprs)
    (hx : x ∈ e.variables) : x ∈ s.variables := by
  cases s with
  | declare name parameters body => cases h
  | block statements => cases h
  | giveBack value => exact List.mem_flatMap.mpr ⟨e, h, hx⟩
  | _ =>
    rcases List.mem_singleton.mp h with rfl
    simp [Stmt.variables, hx]

theorem Stmt.variables_of_mem_parts {s t : Stmt} {x : String} (h : t ∈ s.parts)
    (hx : x ∈ t.variables) : x ∈ s.variables := by
  cases Stmt.isPart_of_mem_parts h with
  | inBlock h => exact Stmt.mem_variablesAll hx h
  | _ => simp [Stmt.variables, Stmt.variablesElse, hx]

/-- Trees correspond to themselves if only certain names are mentioned in them. -/
def Correspondence.mentioning (names : String → Prop) : Correspondence where
  name x x' := x' = x ∧ names x
  expr e e' := e' = e ∧ ∀ x ∈ e.variables, names x
  stmt s s' := s' = s ∧ ∀ x ∈ s.variables, names x
  function := Eq
  expr_parallel := by
    rintro e _ ⟨rfl, he⟩
    refine Expr.parallel_self ?_ ?_
    · rintro x rfl
      exact ⟨rfl, he x (by simp [Expr.variables, Expr.nodes, Expr.identifier?])⟩
    · exact fun e' h => ⟨rfl, fun x hx => he x (Expr.variables_of_mem_parts h hx)⟩
  stmt_parallel := by
    rintro s _ ⟨rfl, hs⟩
    refine Stmt.parallel_self ?_ ?_ ?_ fun _ => rfl
    · exact fun x h => ⟨rfl, hs x (Stmt.variables_of_mem_binds h)⟩
    · exact fun e h => ⟨rfl, fun x hx => hs x (Stmt.variables_of_mem_exprs h hx)⟩
    · exact fun t h => ⟨rfl, fun x hx => hs x (Stmt.variables_of_mem_parts h hx)⟩

/-! ## 2. States that agree on some names -/

/-- **Two states agree on some names**: their current frames have the same values for these, and the
states have as many frames, the same functions and the same world.  What else is bound, in the
current frame or in others, is free. -/
structure State.AgreeOn (names : String → Prop) (st st' : State) : Prop where
  depth : st'.stack.depth = st.stack.depth
  bindings : ∀ x, names x → st'.stack.get? x = st.stack.get? x
  functions : st'.functions = st.functions
  console : st'.console = st.console
  files : st'.files = st.files

/-- Two runs have written the same records since they began with these logs. -/
def State.SameRecordsSince (log log' : List Record) (st st' : State) : Prop :=
  ∃ since, st.log = since ++ log ∧ st'.log = since ++ log'

theorem State.SameRecordsSince.note {log log' : List Record} {st st' : State}
    (h : State.SameRecordsSince log log' st st') (record : Record) :
    State.SameRecordsSince log log' (st.note record) (st'.note record) := by
  obtain ⟨since, hlog, hlog'⟩ := h
  refine ⟨record :: since, ?_, ?_⟩
  · rw [State.log_note, hlog, List.cons_append]
  · rw [State.log_note, hlog', List.cons_append]

/-- The states of two runs agree on some names, and the runs have written the same records. -/
def Accord.agreeing (names : String → Prop) (log log' : List Record) : Accord where
  states st st' := State.AgreeOn names st st' ∧ State.SameRecordsSince log log' st st'

section Agree

variable {names : String → Prop} {log log' : List Record} {st st' : State}

theorem State.AgreeOn.define (h : State.AgreeOn names st st') (x : String) (v : Value) :
    State.AgreeOn names { st with stack := st.stack.define x v }
      { st' with stack := st'.stack.define x v } :=
  { h with
    bindings := by
      intro y hy
      have hget := h.bindings y hy
      unfold CallStack.get? at hget
      unfold CallStack.define CallStack.get?
      rw [Entries.get?_insert, Entries.get?_insert, hget] }

theorem Accord.sound_agreeing : (Accord.agreeing names log log').Sound where
  value := Value.closed_true
  error _ := rfl
  world :=
    { console := fun h => h.1.console
      files := fun h => h.1.files
      print := fun _ h => ⟨{ h.1 with console := rfl }, h.2⟩
      write := fun _ h => ⟨{ h.1 with files := rfl }, h.2⟩
      note := fun _ h => ⟨{ h.1 with }, h.2.note _⟩ }

/-- A body finds the same frame on both sides, so that all names are agreed on. -/
theorem Accord.enters_agreeing (limit : Nat) :
    (Accord.agreeing names log log').Enters (Accord.agreeing (fun _ => True) log log').states
      Eq limit limit where
  name h := by rw [h]
  arity h := by rw [h]
  lookup {st st'} h name := by
    rw [h.1.functions]
    exact rel_get?_self (fun _ => rfl) st.functions name
  room h := by rw [h.1.depth]
  overflow := rfl
  enter {f f' values st st'} hf _ h := by
    obtain ⟨hagree, hrecords⟩ := h
    subst hf
    constructor
    · exact { hagree with
        depth := congrArg (· + 1) hagree.depth
        bindings := fun _ _ => rfl }
    · have hnoted := hrecords.note (.called f.name (st.stack.depth + 1))
      unfold State.enter
      rw [hagree.depth]
      exact hnoted
  leave {outer outer' st st'} houter h :=
    ⟨{ h.1 with depth := houter.1.depth, bindings := houter.1.bindings }, h.2⟩

end Agree

/-! ## 3. Runs -/

namespace Interpreter

section Runs

variable {names : String → Prop} {log log' : List Record} {limit : Nat}

/-- A run supports the accord if the bodies of functions go in step, all names agreed on. -/
theorem supports_agreeing_of_bodies
    (hbody : ∀ fuel, (∀ s s', (Correspondence.mentioning names).stmt s s' →
        (exec limit fuel s).InStep (.agreeing names log log') (fun _ => True)
          (exec limit fuel s')) →
      ∀ f : FunctionDef, (exec limit fuel f.body).InStep (.agreeing (fun _ => True) log log')
        (fun _ => True) (exec limit fuel f.body)) :
    (Accord.agreeing names log log').Supports (.mentioning names) limit limit where
  toSound := Accord.sound_agreeing
  read {x x'} h := by
    obtain ⟨rfl, hx⟩ := h
    exact readVariable_inStep (fun hst => hst.1.bindings x' hx) (fun _ _ => trivial) rfl
  assign {x x' v} h _ := by
    obtain ⟨rfl, -⟩ := h
    exact Action.inStep_update fun hst => ⟨hst.1.define x' v, hst.2⟩
  register {f f'} h := by
    have hf : f = f' := h
    subst hf
    refine Action.inStep_update fun {st st'} hst => ?_
    obtain ⟨hagree, hrecords⟩ := hst
    unfold State.register
    rw [hagree.functions]
    exact ⟨{ hagree with functions := rfl }, hrecords.note _⟩
  call {fuel} hexec name values hvalues := by
    refine callWith_inStep Accord.sound_agreeing (Accord.enters_agreeing limit) ?_ name hvalues
    rintro f _ rfl
    exact hbody fuel hexec _

/-- All names agreed on, bodies go in step because statements do. -/
theorem supports_agreeing_all :
    (Accord.agreeing (fun _ => True) log log').Supports (.mentioning fun _ => True) limit limit :=
  supports_agreeing_of_bodies fun _ hexec f => hexec f.body f.body ⟨rfl, fun _ _ => trivial⟩

/-- **Some names agreed on**, bodies go in step because all names are agreed on in them. -/
theorem supports_agreeing :
    (Accord.agreeing names log log').Supports (.mentioning names) limit limit :=
  supports_agreeing_of_bodies fun fuel _ f =>
    (run_inStep supports_agreeing_all fuel).2 f.body f.body ⟨rfl, fun _ _ => trivial⟩

end Runs

/-- **Variables that are not mentioned are irrelevant.**  From two states that agree on the names
that a statement mentions, whatever else is bound in them and whatever is in their logs, its runs
with the same fuel both run out of it, or end with the same value or the same error.  Then both have
written the same records, and leave states that agree on these names again. -/
theorem exec_agreeOn (limit fuel : Nat) (s : Stmt) (st st' : State)
    (h : State.AgreeOn (· ∈ s.variables) st st') :
    (exec limit fuel s st = .exhausted ∧ exec limit fuel s st' = .exhausted) ∨
      (∃ signal st₁ st₁', exec limit fuel s st = .done signal st₁ ∧
        exec limit fuel s st' = .done signal st₁' ∧ State.AgreeOn (· ∈ s.variables) st₁ st₁' ∧
        State.SameRecordsSince st.log st'.log st₁ st₁') ∨
      ∃ error st₁ st₁', exec limit fuel s st = .failed error st₁ ∧
        exec limit fuel s st' = .failed error st₁' ∧ State.AgreeOn (· ∈ s.variables) st₁ st₁' ∧
        State.SameRecordsSince st.log st'.log st₁ st₁' := by
  have hA : (Accord.agreeing (· ∈ s.variables) st.log st'.log).Supports
      (.mentioning (· ∈ s.variables)) limit limit := supports_agreeing
  have hrun := (run_inStep hA fuel).2 s s ⟨rfl, fun _ hx => hx⟩
  have hends := hrun st st' ⟨h, [], rfl, rfl⟩
  cases hr : exec limit fuel s st with
  | done signal st₁ =>
    rw [hr] at hends
    obtain ⟨-, st₁', heq, hagree, hrecords⟩ := hends
    exact Or.inr (Or.inl ⟨signal, st₁, st₁', rfl, heq, hagree, hrecords⟩)
  | failed error st₁ =>
    rw [hr] at hends
    obtain ⟨st₁', heq, hagree, hrecords⟩ := hends
    exact Or.inr (Or.inr ⟨error, st₁, st₁', rfl, heq, hagree, hrecords⟩)
  | exhausted =>
    rw [hr] at hends
    exact Or.inl ⟨rfl, hends⟩

/-- A function of one parameter that gives back a variable that it does not have. -/
def grasping : FunctionDef := ⟨"f", [⟨"p", none⟩], .giveBack (some (.identifier "z"))⟩

/-- A call of that function. -/
def graspingCall : Stmt := .evaluate (.call "f" [.identifier "x"])

/-- A state with that function and these variables. -/
def graspingState (frame : Frame) : State :=
  { stack := .ofFrame frame, functions := [("f", grasping)] }

/-- The variable that the body lacks is bound where it is called, in one of the states and not in the
other, and the body lacks it in both. -/
theorem exec_agreeOn_grasping :
    State.AgreeOn (· ∈ graspingCall.variables)
        (graspingState [("z", .absence), ("x", .text "a")]) (graspingState [("x", .text "a")]) ∧
      ∃ st₁ st₁', exec 1 4 graspingCall (graspingState [("z", .absence), ("x", .text "a")]) =
          .failed (.unboundName "z") st₁ ∧
        exec 1 4 graspingCall (graspingState [("x", .text "a")]) =
          .failed (.unboundName "z") st₁' ∧
        st₁'.stack.get? "x" = st₁.stack.get? "x" := by
  have hagree : State.AgreeOn (· ∈ graspingCall.variables)
      (graspingState [("z", .absence), ("x", .text "a")]) (graspingState [("x", .text "a")]) := by
    refine ⟨rfl, fun x hx => ?_, rfl, rfl, rfl⟩
    rcases List.mem_singleton.mp hx with rfl
    rfl
  refine ⟨hagree, ?_⟩
  rcases exec_agreeOn 1 4 graspingCall _ _ hagree with
    ⟨h, -⟩ | ⟨signal, st₁, st₁', h, -⟩ | ⟨error, st₁, st₁', h, h', hends, -⟩
  · cases h
  · cases h
  · obtain rfl : error = .unboundName "z" := by
      cases h
      rfl
    exact ⟨st₁, st₁', h, h', hends.bindings "x" (List.mem_singleton.mpr rfl)⟩

end Interpreter

end TreeScript
