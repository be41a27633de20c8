import TreeScript.Proofs.Run.Parallel

/-!
# What the values of a run have

A property that values have with all that lies inside them goes through a run: if every value bound
in some frame has it, every value that the run returns has it, and so has every value that is bound
afterwards, in the current frame or in that of a caller, also if the run fails.  It is shown as an
accord of the run with itself, whose states are those that hold only such values.

That all mappings have distinct keys is the property of interest (`run_wellKeyed`).  A program never
sees a mapping with a repeated key, though it may build one from pairs with repeated keys, or read
one from a table with repeated fields.
-/

namespace TreeScript

/-! ## 1. States and outcomes -/

/-- Every value bound in any frame has a property. -/
def State.Binds (P : Value → Prop) (st : State) : Prop :=
  ∀ frame ∈ st.stack.current :: st.stack.callers, ∀ entry ∈ frame, P entry.2

/-- The value with which an action ended has a property, and so has every value that is bound after
it, whether it ended in success or in error. -/
def Outcome.Holds {α : Type} (P : Value → Prop) (value : α → Value) (outcome : Outcome α) : Prop :=
  match outcome with
  | .done a st => P (value a) ∧ st.Binds P
  | .failed _ st => st.Binds P
  | .exhausted => True

namespace State.Binds

variable {P : Value → Prop} {st : State}

/-- The current frame may be replaced by one whose values have the property. -/
theorem with_current (h : st.Binds P) {stack : CallStack}
    (hcallers : stack.callers = st.stack.callers) (hcurrent : ∀ entry ∈ stack.current, P entry.2) :
    State.Binds P { st with stack := stack } := by
  intro frame hframe
  dsimp only at hframe
  rw [hcallers] at hframe
  rcases List.mem_cons.mp hframe with rfl | hframe
  · exact hcurrent
  · exact h frame (List.mem_cons_of_mem _ hframe)

theorem define (h : st.Binds P) (name : String) {v : Value} (hv : P v) :
    State.Binds P { st with stack := st.stack.define name v } := by
  refine h.with_current rfl fun entry hentry => ?_
  rcases Entries.mem_of_mem_insert hentry with hentry | rfl
  · exact h _ List.mem_cons_self entry hentry
  · exact hv

/-- A call binds its arguments in a new frame. -/
theorem enter (h : st.Binds P) (function : String) (parameters : List Parameter)
    {values : List Value} (hvalues : ∀ v ∈ values, P v) :
    State.Binds P (st.enter function (Interpreter.parameterFrame parameters values)) := by
  intro frame hframe
  rcases List.mem_cons.mp hframe with rfl | hframe
  · intro entry hentry
    have hpair := Entries.mem_of_mem_ofPairs hentry
    exact hvalues entry.2 (List.of_mem_zip hpair).2
  · exact h frame hframe

end State.Binds

/-! ## 2. The accord of a run with itself -/

/-- Both runs are in the same state, where all values have the property. -/
def Accord.binding (P : Value → Prop) : Accord where
  states st st' := st' = st ∧ st.Binds P
  value := P

/-- What goes in step with itself returns and binds only values with the property. -/
theorem Action.InStep.holds {α : Type} {P : Value → Prop} {value : α → Value} {x : Action α}
    (hx : x.InStep (.binding P) (fun a => P (value a)) x) {st : State} (hst : st.Binds P) :
    (x st).Holds P value := by
  have h := hx st st ⟨rfl, hst⟩
  cases hr : x st with
  | done a st₁ =>
    rw [hr] at h
    obtain ⟨ha, st₁', -, rfl, hst₁⟩ := h
    exact ⟨ha, hst₁⟩
  | failed error st₁ =>
    rw [hr] at h
    obtain ⟨st₁', -, rfl, hst₁⟩ := h
    exact hst₁
  | exhausted => trivial

namespace Interpreter

theorem enters_binding (P : Value → Prop) (limit : Nat) :
    (Accord.binding P).Enters (Accord.binding P).states Eq limit limit where
  name h := by rw [h]
  arity h := by rw [h]
  lookup {st st'} h name := by
    rw [h.1]
    exact rel_get?_self (fun _ => rfl) st.functions name
  room h := by rw [h.1]
  overflow := rfl
  enter {f f' values st st'} hf hvalues h := by
    obtain ⟨rfl, hst⟩ := h
    subst hf
    exact ⟨rfl, hst.enter f.name f.parameters hvalues⟩
  leave {outer outer' st st'} houter h := by
    obtain ⟨rfl, houter⟩ := houter
    obtain ⟨rfl, -⟩ := h
    exact ⟨rfl, houter⟩

section Closed

variable {P : Value → Prop} (hP : Value.Closed P)

include hP

theorem sound_binding : (Accord.binding P).Sound where
  value := hP
  error _ := rfl
  world :=
    { console := fun h => by rw [h.1]
      files := fun h => by rw [h.1]
      print := fun _ h => ⟨by rw [h.1], h.2⟩
      write := fun _ h => ⟨by rw [h.1], h.2⟩
      note := fun _ h => ⟨by rw [h.1], h.2⟩ }

/-- **A run goes in step with itself**, holding only values with the property. -/
theorem supports_binding (limit : Nat) :
    (Accord.binding P).Supports .identity limit limit where
  toSound := sound_binding hP
  read {x x'} h := by
    have hx : x = x' := h
    subst hx
    refine readVariable_inStep (fun hst => by rw [hst.1]) ?_ rfl
    intro st st' v hst hv
    have hentry : (x, v) ∈ st.stack.current := Entries.mem_of_get?_eq_some hv
    exact hst.2 _ List.mem_cons_self _ hentry
  assign {x x' v} h hv := by
    have hx : x = x' := h
    subst hx
    refine Action.inStep_update fun hst => ?_
    obtain ⟨rfl, hst⟩ := hst
    exact ⟨rfl, hst.define x hv⟩
  register {f f'} h := by
    have hf : f = f' := h
    subst hf
    refine Action.inStep_update fun hst => ?_
    obtain ⟨rfl, hst⟩ := hst
    exact ⟨rfl, hst⟩
  call hexec name values hvalues :=
    callWith_inStep (sound_binding hP) (enters_binding P limit)
      (fun {f f'} h => hexec f.body f'.body (congrArg FunctionDef.body h)) name hvalues

/-- **What values have with all that lies inside them, a run keeps**: whatever it is asked for, it
returns and binds only values with the property. -/
theorem run_holds (limit fuel : Nat) {st : State} (hst : st.Binds P) :
    (∀ p, (execute limit fuel p st).Holds P id) ∧
      (∀ s, (exec limit fuel s st).Holds P Signal.value) ∧
      (∀ e, (eval limit fuel e st).Holds P id) ∧
      ∀ name values, (∀ v ∈ values, P v) → (call limit fuel name values st).Holds P id := by
  have hA := supports_binding hP limit
  have hrun := run_inStep hA fuel
  refine ⟨fun p => ?_, fun s => ?_, fun e => ?_, fun name values hvalues => ?_⟩
  · have hp := executeAll_inStep hA fuel hA.absence
      (List.forall₂_same.mpr fun (s : Stmt) (_ : s ∈ p.statements) => rfl)
    exact Action.InStep.holds hp hst
  · exact Action.InStep.holds (hrun.2 s s rfl) hst
  · exact Action.InStep.holds (hrun.1 e e rfl) hst
  · exact Action.InStep.holds (call_inStep hA fuel name hvalues) hst

end Closed

/-! ## 3. Distinct keys -/

/-- **Every mapping that ever exists has distinct keys.**  From a state in which all mappings inside
all bound values have distinct keys, at any depth, and with arguments of that kind, executing a
program or a statement, evaluating an expression and calling a function return only such a value,
and leave only such values bound in any frame, whether they end in success or in error. -/
theorem run_wellKeyed (limit fuel : Nat) (st : State) (hst : st.Binds Value.WellKeyed) :
    (∀ p, (execute limit fuel p st).Holds Value.WellKeyed id) ∧
      (∀ s, (exec limit fuel s st).Holds Value.WellKeyed Signal.value) ∧
      (∀ e, (eval limit fuel e st).Holds Value.WellKeyed id) ∧
      ∀ name values, (∀ v ∈ values, v.WellKeyed) →
        (call limit fuel name values st).Holds Value.WellKeyed id :=
  run_holds Value.closed_wellKeyed limit fuel hst

/-- The row of a table. -/
def someRow : Value := .mapping [("a", .text "1")]

/-- A mapping with a repeated key, the row deep inside. -/
def repeatedKey : Expr := .mapping [("k", .absence), ("k", .sequence [.identifier "row"])]

/-- Where a row is bound, the mapping with the repeated key has one entry when it is assigned. -/
theorem run_wellKeyed_repeated :
    State.Binds Value.WellKeyed { stack := .ofFrame [("row", someRow)] } ∧
      ∃ st', exec 1 4 (.assign "x" repeatedKey) { stack := .ofFrame [("row", someRow)] } =
          .done (.normal (.mapping [("k", .sequence [someRow])])) st' ∧
        (Value.mapping [("k", .sequence [someRow])]).WellKeyed ∧ st'.Binds Value.WellKeyed := by
  have hst : State.Binds Value.WellKeyed { stack := .ofFrame [("row", someRow)] } := by
    intro frame hframe entry hentry
    rcases List.mem_singleton.mp hframe with rfl
    rcases List.mem_singleton.mp hentry with rfl
    refine Value.wellKeyed_mapping.mpr ⟨Entries.distinct_ofPairs [("a", .text "1")], fun cell hcell => ?_⟩
    rcases List.mem_singleton.mp hcell with rfl
    exact Value.wellKeyed_atom rfl
  have h := (run_wellKeyed 1 4 _ hst).2.1 (.assign "x" repeatedKey)
  exact ⟨hst, _, rfl, h⟩

end Interpreter

end TreeScript
