import TreeScript.Proofs.Entries
import TreeScript.Proofs.Run.Literals

/-!
# What a run does to the world

Of the steps of a run one touches the files, the call of `write_csv`, and one touches the console,
the call of `print`.  An `Effect` is a part of the state that a single built-in function touches.  A
program in which no call of that function stands leaves it alone (`Regime.without`): the bodies that
its calls run come from the table, and in the table there are only functions that it declared.

And whatever is done is never undone (`State.Grows`): what was printed stays printed, what was
recorded stays recorded, functions stay registered and names stay bound, also when the run fails.
-/

namespace TreeScript

/-! ## 1. Parts of the state that one function touches -/

/-- A part of the state, and that among all steps of a run only the calls of one built-in function
touch it. -/
structure Effect (b : Builtin) (α : Type) where
  see : State → α
  stack : ∀ st stack, see { st with stack := stack } = see st
  note : ∀ st record, see (st.note record) = see st
  register : ∀ st f, see (st.register f) = see st
  console : b ≠ .print → ∀ st console, see { st with console := console } = see st
  files : b ≠ .writeTable → ∀ st files, see { st with files := files } = see st

/-- Files are touched by `write_csv`. -/
def Effect.filesOf : Effect .writeTable Files where
  see := State.files
  stack _ _ := rfl
  note _ _ := rfl
  register _ _ := rfl
  console _ _ _ := rfl
  files h := absurd rfl h

/-- The console is touched by `print`. -/
def Effect.consoleOf : Effect .print Console where
  see := State.console
  stack _ _ := rfl
  note _ _ := rfl
  register _ _ := rfl
  console h := absurd rfl h
  files _ _ _ := rfl

/-- An expression is a call of this name. -/
def Expr.Calls (e : Expr) (name : String) : Prop := ∃ arguments, e = .call name arguments

/-- What is seen of the state stays as it is. -/
def Change.keeping {α : Type} (see : State → α) : Change where
  holds st _ st' := see st' = see st
  refl _ := rfl
  trans h h₁ := h₁.trans h

/-! ## 2. Programs without the function -/

/-- In the body of a function no call of this name stands. -/
def FunctionDef.Avoids (name : String) (f : FunctionDef) : Prop :=
  ∀ n ∈ f.body.nodes, ¬ n.Calls name

/-- **Code without a call of the function leaves its effect alone**, whatever is run. -/
def Regime.without (limit : Nat) {b : Builtin} {α : Type} (effect : Effect b α) :
    Regime limit where
  expr e := ∀ n ∈ e.nodes, ¬ n.Calls b.name
  stmt s := ∀ n ∈ s.nodes, ¬ n.Calls b.name
  change := .guarded (FunctionDef.Avoids b.name) (.keeping effect.see)
  expr_part h he n hn := h n (Expr.nodes_of_mem_parts he hn)
  stmt_expr h he n hn := h n (Stmt.nodes_of_mem_exprs he hn)
  stmt_part h ht n hn := h n (Stmt.nodes_of_mem_parts ht hn)
  stack stack h hst := ⟨(h hst).1, (effect.stack _ stack).trans (h hst).2⟩
  fail _ _ _ := Change.guarded_of_functions rfl rfl
  overflow _ := Change.guarded_of_functions rfl rfl
  literal _ := Action.within_ofResult fun _ _ _ => Change.guarded_of_functions rfl rfl
  note record _ st := Change.guarded_of_functions rfl (effect.note st record)
  print h := by
    have hother : b ≠ .print := by
      rintro rfl
      exact h _ (Expr.mem_nodes_self _) ⟨_, rfl⟩
    exact Builtin.printLine_within
      (fun st console => Change.guarded_of_functions rfl (effect.console hother st console))
      fun _ _ => Change.guarded_of_functions rfl rfl
  read _ := Builtin.readRows_within fun record _ st =>
    Change.guarded_of_functions rfl (effect.note st record)
  write h := by
    have hother : b ≠ .writeTable := by
      rintro rfl
      exact h _ (Expr.mem_nodes_self _) ⟨_, rfl⟩
    exact Builtin.writeRows_within
      (fun record _ st => Change.guarded_of_functions rfl (effect.note st record))
      fun st files => Change.guarded_of_functions rfl (effect.files hother st files)
  register f h st hst := ⟨hst.register h, effect.register st f⟩
  table hf _ _ h hst := h (hst _ _ hf) hst

/-- A program in which no call of the function stands leaves its effect alone. -/
theorem Interpreter.execute_without {b : Builtin} {α : Type} (effect : Effect b α)
    (limit fuel : Nat) {p : Program} (h : ∀ n ∈ p.nodes, ¬ n.Calls b.name) (console : Console)
    (files : Files) :
    (execute limit fuel p { console := console, files := files }).Leaves fun _ st' =>
      effect.see st' = effect.see { console := console, files := files } := by
  have hstmts : ∀ s ∈ p.statements, ∀ n ∈ s.nodes, ¬ n.Calls b.name := fun s hs n hn =>
    h n (Stmt.mem_nodesAll hn hs)
  have hrun := (Regime.without limit effect).execute_within fuel hstmts
    { console := console, files := files }
  exact hrun.mono fun _ st' hst => (hst (State.eachFunction_fresh _ console files)).2

/-! ## 3. What is never undone -/

/-- What a run adds to, and takes nothing away from. -/
structure State.Adds (st st' : State) : Prop where
  text : ∃ more, st'.console.text = st.console.text ++ more
  records : st.records <+: st'.records
  functions : Entries.keys st.functions ⊆ Entries.keys st'.functions

namespace State.Adds

variable {st st' : State}

theorem refl (st : State) : st.Adds st where
  text := ⟨"", String.append_empty.symm⟩
  records := List.prefix_rfl
  functions := fun _ h => h

theorem trans {st₁ : State} (h : st.Adds st₁) (h₁ : st₁.Adds st') : st.Adds st' where
  text := by
    obtain ⟨more, htext⟩ := h.text
    obtain ⟨more₁, htext₁⟩ := h₁.text
    exact ⟨more ++ more₁, by rw [htext₁, htext, String.append_assoc]⟩
  records := h.records.trans h₁.records
  functions := fun _ hname => h₁.functions (h.functions hname)

theorem note (st : State) (record : Record) : st.Adds (st.note record) where
  text := (refl st).text
  records := ⟨[record], by simp [State.records, State.note]⟩
  functions := fun _ h => h

theorem register (st : State) (f : FunctionDef) : st.Adds (st.register f) where
  text := (refl st).text
  records := ⟨_, by simp [State.records, State.register, State.note]; rfl⟩
  functions := fun _ h => Entries.mem_keys_insert.mpr (Or.inl h)

end State.Adds

/-- The change of adding. -/
def Change.adding : Change where
  holds st _ st' := st.Adds st'
  refl := State.Adds.refl
  trans h h₁ := h.trans h₁

/-- Printing adds what is shown of a line, whether it fails or not. -/
theorem Builtin.printLine_adds (line : String) : (printLine line).Within .adding := by
  intro st
  have htext := st.console.text_print line
  unfold printLine
  rcases hprint : st.console.print line with ⟨_ | reason, console⟩ <;> rw [hprint] at htext
  · exact ⟨htext, List.prefix_rfl, fun _ h => h⟩
  · exact ⟨htext, List.prefix_rfl, fun _ h => h⟩

/-- **Nothing is taken back**, whatever is run. -/
def Regime.adding (limit : Nat) : Regime limit where
  expr _ := True
  stmt _ := True
  change := .adding
  expr_part _ _ := trivial
  stmt_expr _ _ := trivial
  stmt_part _ _ := trivial
  stack _ h := ⟨h.text, h.records, h.functions⟩
  fail _ _ := State.Adds.refl
  overflow := State.Adds.refl
  literal _ := Action.within_ofResult fun _ _ => State.Adds.refl
  note record _ st := State.Adds.note st record
  print _ := Builtin.printLine_adds
  read _ := Builtin.readRows_within fun record _ st => State.Adds.note st record
  write _ := Builtin.writeRows_within (fun record _ st => State.Adds.note st record)
    fun st _ => ⟨(State.Adds.refl st).text, List.prefix_rfl, fun _ h => h⟩
  register f _ st := State.Adds.register st f
  table _ _ _ h := h trivial

/-! ## 4. Names stay bound -/

/-- The callers stay as they are, and the names bound in the current frame stay bound. -/
def Change.binding : Change where
  holds st _ st' := st'.stack.callers = st.stack.callers ∧
    Entries.keys st.stack.current ⊆ Entries.keys st'.stack.current
  refl _ := ⟨rfl, fun _ h => h⟩
  trans h h₁ := ⟨h₁.1.trans h.1, fun _ hname => h₁.2 (h.2 hname)⟩

theorem Change.sameStack_le_binding : Change.sameStack ≤ Change.binding := by
  intro st _ st' h
  have hstack : st'.stack = st.stack := h
  exact ⟨by rw [hstack], by rw [hstack]; exact fun _ hname => hname⟩

theorem Change.binding_le_sameCallers : Change.binding ≤ Change.sameCallers := fun h => h.1

theorem CallStack.keys_subset_define (stack : CallStack) (name : String) (value : Value) :
    Entries.keys stack.current ⊆ Entries.keys (stack.define name value).current :=
  fun _ h => Entries.mem_keys_insert.mpr (Or.inl h)

/-- **Names stay bound** at every step of a run. -/
def Discipline.binding (limit : Nat) : Discipline limit where
  ofExpr := .binding
  ofStmt _ := .binding
  expr_le _ := Change.le_refl _
  part_le _ _ _ := Change.le_refl _
  fail _ _ := Change.binding.refl
  note _ _ _ := ⟨rfl, fun _ h => h⟩
  console _ _ := ⟨rfl, fun _ h => h⟩
  files _ _ := ⟨rfl, fun _ h => h⟩
  bind _ name _ st value := ⟨rfl, st.stack.keys_subset_define name value⟩
  register _ _ := ⟨rfl, fun _ h => h⟩
  call _ _ arguments hbody :=
    (Interpreter.callFunction_sameStack arguments (hbody.mono Change.binding_le_sameCallers)).mono
      Change.sameStack_le_binding

/-! ## 5. Runs -/

namespace Interpreter

theorem eval_adds (limit fuel : Nat) (e : Expr) : (eval limit fuel e).Within .adding :=
  (Regime.adding limit).plan.eval_within fuel trivial

theorem exec_adds (limit fuel : Nat) (s : Stmt) : (exec limit fuel s).Within .adding :=
  (Regime.adding limit).plan.exec_within fuel trivial

theorem call_adds (limit fuel : Nat) (name : String) (arguments : List Value) :
    (call limit fuel name arguments).Within .adding :=
  (Regime.adding limit).callWith_within (fun s _ => exec_adds limit fuel s)
    (show (Regime.adding limit).expr (.call name []) from trivial) arguments

/-- **Effects are confined, and never undone.**  A program that is started on some console and some
files leaves the files as they are if no call of `write_csv` stands in it, and the console if none of
`print` does, whether it ends in a value or in an error.  From whatever state a statement is
executed, an expression evaluated or a function called, and however that ends: what was printed and
what was recorded before is the beginning of what has been after it, the functions that were
registered are registered, and the names that were bound in the current frame are bound in it. -/
theorem effects_confined (limit fuel : Nat) :
    (∀ (p : Program) (console : Console) (files : Files),
      (execute limit fuel p { console := console, files := files }).Leaves fun _ st' =>
        ((∀ n ∈ p.nodes, ¬ n.Calls "write_csv") → st'.files = files) ∧
        ((∀ n ∈ p.nodes, ¬ n.Calls "print") → st'.console = console)) ∧
    (∀ (s : Stmt) (st : State), (exec limit fuel s st).Leaves fun _ st' =>
      st.Adds st' ∧ Entries.keys st.stack.current ⊆ Entries.keys st'.stack.current) ∧
    (∀ (e : Expr) (st : State), (eval limit fuel e st).Leaves fun _ st' =>
      st.Adds st' ∧ Entries.keys st.stack.current ⊆ Entries.keys st'.stack.current) ∧
    ∀ (name : String) (arguments : List Value) (st : State),
      (call limit fuel name arguments st).Leaves fun _ st' =>
        st.Adds st' ∧ Entries.keys st.stack.current ⊆ Entries.keys st'.stack.current := by
  refine ⟨fun p console files => ?_, fun s st => ?_, fun e st => ?_, fun name arguments st => ?_⟩
  · have hfiles := Outcome.Leaves.of_imp fun h =>
      execute_without Effect.filesOf limit fuel (p := p) h console files
    have hconsole := Outcome.Leaves.of_imp fun h =>
      execute_without Effect.consoleOf limit fuel (p := p) h console files
    exact hfiles.and hconsole
  · have hbinding := (Discipline.binding limit).exec_within fuel s st
    exact ((exec_adds limit fuel s st).and hbinding).mono fun _ _ h => ⟨h.1, h.2.2⟩
  · have hbinding := (Discipline.binding limit).eval_within fuel e st
    exact ((eval_adds limit fuel e st).and hbinding).mono fun _ _ h => ⟨h.1, h.2.2⟩
  · have hbinding := (Discipline.binding limit).call_within fuel name arguments st
    exact ((call_adds limit fuel name arguments st).and hbinding).mono fun _ _ h => ⟨h.1, h.2.2⟩

/-- A program whose function prints, reads and then fails, and which writes nothing. -/
def printing : Program :=
  ⟨[.declare "f" [] (.block [.evaluate (.call "print" [.literal (.text "a") .text]),
      .evaluate (.call "read_csv" [.literal (.text "t.csv") .text]), .evaluate (.identifier "x")]),
    .evaluate (.call "f" [])]⟩

/-- A program that writes a table and prints nothing. -/
def storing : Program :=
  ⟨[.evaluate (.call "write_csv" [.literal (.text "t.csv") .text, .sequence []])]⟩

/-- The files with the empty table that it writes. -/
def stored : Files := Files.put {} ["work", "t.csv"] (.file ⟨#[10]⟩)

/-- The first leaves the files as they were although it fails, and the second the console. -/
theorem effects_confined_printing :
    (∃ error st', execute 5 9 printing { files := stored } = .failed error st' ∧
        st'.files = stored ∧ st'.console.text = "a\n") ∧
      ∃ st', execute 5 9 storing {} = .done .absence st' ∧ st'.console = {} ∧
        st'.files = stored := by
  have hprinting := (effects_confined 5 9).1 printing {} stored
  have hstoring := (effects_confined 5 9).1 storing {} {}
  refine ⟨⟨_, _, rfl, hprinting.1 ?_, rfl⟩, ⟨_, rfl, hstoring.2 ?_, rfl⟩⟩
  · simp [Expr.Calls, Program.nodes, printing, Stmt.nodes, Stmt.nodesAll, Expr.nodes,
      Expr.nodesAll]
  · simp [Expr.Calls, Program.nodes, storing, Stmt.nodes, Stmt.nodesAll, Expr.nodes,
      Expr.nodesAll]

end Interpreter

end TreeScript
