import TreeScript.Proofs.Run.Reach
import TreeScript.Proofs.Run.Frames

/-!
# The moments of a session

A session asks for one thing after another, and inside each request expressions and statements begin
and end.  `Session.Begins` says which of them begin in which state, `Session.Registers` when which
function is registered, and `Session.Visits` which states the session comes through; none of them
needs the last request to end.

A property that everything but a registration keeps is `Undisturbed`.  The principle for it is
`Session.Visits.keeps`: if each registration of the session keeps it, at the moment at which it
happens, it is had by every state that the session visits.  The induction is on the fuel that is left
for what begins, since a called body is no part of the call.
-/

namespace TreeScript

open Interpreter

/-! ## 1. What only a registration may break -/

/-- A property of states that every step of a run keeps, save a registration. -/
structure Undisturbed (P : State → Prop) : Prop where
  stack : ∀ st stack, P st → P { st with stack := stack }
  console : ∀ st console, P st → P { st with console := console }
  files : ∀ st files, P st → P { st with files := files }
  note : ∀ st record, record.level ≠ .debug → P st → P (st.note record)

namespace Undisturbed

variable {limit fuel : Nat} {P : State → Prop} (h : Undisturbed P)

include h

theorem noteExtra (st : State) (f : FunctionDef) (values : List Value) (hst : P st) :
    P (st.noteExtra f values) := by
  unfold State.noteExtra
  split
  · exact h.note _ _ (by simp [Record.level]) hst
  · exact hst

theorem enter (st : State) (f : FunctionDef) (values : List Value) (frame : Frame) (hst : P st) :
    P ((st.noteExtra f values).enter f.name frame) :=
  h.note _ _ (by simp [Record.level]) (h.stack _ _ (h.noteExtra st f values hst))

/-- A built-in function keeps the property. -/
theorem builtin (b : Builtin) (values : List Value) :
    (b.call values).Within (.preserving P) := by
  have hnote : ∀ record : Record, record.level = .warn ∨ record.level = .error →
      ∀ st, P st → P (st.note record) := by
    intro record hlevel st
    refine h.note st record ?_
    rcases hlevel with hlevel | hlevel <;> rw [hlevel] <;> decide
  refine Builtin.call_within (fun _ _ _ => id) (fun record hlevel => hnote record (Or.inl hlevel)) b
    values (fun _ => ?_) (fun _ => ?_) fun _ => ?_
  · exact Builtin.printLine_within h.console fun _ _ => id
  · exact Builtin.readRows_within hnote
  · exact Builtin.writeRows_within hnote h.files

/-- **A call keeps the property** if the body that it begins does. -/
theorem callWith {name : String} {values : List Value} {st : State} (hst : P st)
    (hbody : ∀ f, Builtin.ofName? name = none → Entries.get? st.functions name = some f →
      f.parameters.length ≤ values.length → st.stack.depth ≤ limit →
        (exec limit fuel f.body ((st.noteExtra f values).enter f.name
          (parameterFrame f.parameters values))).Leaves fun _ st' => P st') :
    (callWith limit (exec limit fuel) name values st).Leaves fun _ st' => P st' := by
  cases hname : Builtin.ofName? name with
  | some b =>
    unfold Interpreter.callWith
    rw [hname]
    exact (h.builtin b values st).mono fun _ _ hkeeps => hkeeps hst
  | none =>
    cases hf : Entries.get? st.functions name with
    | none =>
      unfold Interpreter.callWith
      simp only [hname, Action.bind_apply, Action.state, hf]
      exact hst
    | some f =>
      rw [callWith_user hname hf]
      rcases Nat.lt_or_ge values.length f.parameters.length with hfew | henough
      · rw [callFunction_few hfew]
        exact hst
      rcases Nat.lt_or_ge limit st.stack.depth with hdeep | hroom
      · rw [callFunction_deep henough hdeep]
        exact h.noteExtra st f values hst
      · rw [callFunction_eq_restore henough hroom (exec_callers limit fuel _ _)]
        exact (hbody f hname hf henough hroom).restore fun _ st' hst' => h.stack st' _ hst'

end Undisturbed

/-! ## 2. Tasks -/

section Tasks

variable {limit : Nat} {P : State → Prop} {st : State}

theorem Action.leaves_ofResult {α : Type} (result : Except RunError α) (hst : P st) :
    (Action.ofResult result st).Leaves fun _ st' => P st' := by
  cases result with
  | ok value => exact hst
  | error error => exact hst

theorem Interpreter.leaves_readVariable (name : String) (hst : P st) :
    (readVariable name st).Leaves fun _ st' => P st' := by
  unfold readVariable
  simp only [Action.bind_apply, Action.state]
  cases st.stack.get? name with
  | some v => exact hst
  | none => exact hst

/-- An expression keeps the property if its parts do, from where they begin. -/
theorem Task.PartsKeep.expr (h : Undisturbed P) {fuel : Nat} {e : Expr}
    (hparts : Task.PartsKeep limit P (.expr fuel e) st) (hst : P st) :
    (Interpreter.eval limit fuel e st).Leaves fun _ st' => P st' := by
  cases fuel with
  | zero =>
    rw [Interpreter.eval.eq_1]
    trivial
  | succ n =>
    cases e with
    | literal payload kind =>
      simp only [Interpreter.eval]
      exact Action.leaves_ofResult _ hst
    | identifier name =>
      simp only [Interpreter.eval]
      exact leaves_readVariable name hst
    | binary op left right =>
      by_cases hand : op = .and
      · subst hand
        simp only [Interpreter.eval]
        refine Action.leaves_bind (hparts.eval .left hst) fun a st₁ hl hP => ?_
        split
        · rename_i ha
          have hright := hparts.eval (.right hl (fun _ => ha) (absurd · (by decide))) hP
          exact Action.leaves_bind hright fun _ _ _ hP => hP
        · exact hP
      · by_cases hor : op = .or
        · subst hor
          simp only [Interpreter.eval]
          refine Action.leaves_bind (hparts.eval .left hst) fun a st₁ hl hP => ?_
          split
          · exact hP
          · rename_i ha
            have hright := hparts.eval
              (.right hl (absurd · (by decide)) fun _ => Bool.eq_false_iff.mpr ha) hP
            exact Action.leaves_bind hright fun _ _ _ hP => hP
        · rw [Interpreter.eval.eq_6 limit n op left right hand hor]
          refine Action.leaves_bind (hparts.eval .left hst) fun a st₁ hl hP => ?_
          have hright := hparts.eval (.right hl (absurd · hand) (absurd · hor)) hP
          exact Action.leaves_bind hright fun _ _ _ hP => Action.leaves_ofResult _ hP
    | unary op operand =>
      simp only [Interpreter.eval]
      exact Action.leaves_bind (hparts.eval .operand hst) fun _ _ _ hP =>
        Action.leaves_ofResult _ hP
    | call name arguments =>
      simp only [Interpreter.eval]
      refine Action.leaves_bind (Action.leaves_collect ?_ hst) fun values st₁ hvalues hP => ?_
      · rintro before e after vs st₁ rfl hdone hP
        exact hparts.eval (.argument hdone) hP
      · refine h.callWith hP fun f huser hf henough hroom => ?_
        exact hparts.exec (.callee hvalues huser hf henough hroom) (h.enter st₁ f values _ hP)
    | index base position =>
      simp only [Interpreter.eval]
      refine Action.leaves_bind (hparts.eval .base hst) fun a st₁ hb hP => ?_
      exact Action.leaves_bind (hparts.eval (.position hb) hP) fun _ _ _ hP =>
        Action.leaves_ofResult _ hP
    | sequence elements =>
      simp only [Interpreter.eval]
      refine Action.leaves_bind (Action.leaves_collect ?_ hst) fun _ _ _ hP => hP
      rintro before e after vs st₁ rfl hdone hP
      exact hparts.eval (.element hdone) hP
    | mapping entries =>
      simp only [Interpreter.eval]
      refine Action.leaves_bind (Action.leaves_collect ?_ hst) fun _ _ _ hP => hP
      rintro before ⟨key, e⟩ after vs st₁ rfl hdone hP
      exact hparts.eval (.entry hdone) hP

/-- A statement keeps the property if its parts do, from where they begin, and the registration does
if it is a declaration. -/
theorem Task.PartsKeep.stmt (h : Undisturbed P) {fuel : Nat} {s : Stmt}
    (hparts : Task.PartsKeep limit P (.stmt fuel s) st)
    (hregister : ∀ n (f : FunctionDef), fuel = n + 1 → s = f.toStmt → P (st.register f))
    (hst : P st) : (Interpreter.exec limit fuel s st).Leaves fun _ st' => P st' := by
  cases fuel with
  | zero =>
    rw [Interpreter.exec.eq_1]
    trivial
  | succ n =>
    cases s with
    | assign name value =>
      simp only [Interpreter.exec]
      refine Action.leaves_bind (hparts.eval .assigned hst) fun v st₁ _ hP => ?_
      exact h.stack st₁ _ hP
    | branch condition thenBlock elseBlock =>
      simp only [Interpreter.exec]
      refine Action.leaves_bind (hparts.eval .condition hst) fun v st₁ hc hP => ?_
      split
      · exact hparts.exec (.thenBlock hc (by assumption)) hP
      · rename_i hv
        cases elseBlock with
        | some block => exact hparts.exec (.elseBlock hc (Bool.eq_false_iff.mpr hv)) hP
        | none => exact hP
    | loop condition body =>
      simp only [Interpreter.exec]
      exact Action.leaves_runWhile (fun st₁ => Relation.ReflTransGen
          (WhileTurn (Interpreter.eval limit n condition) (Interpreter.exec limit n body)) st st₁)
        (fun _ hturns hP => hparts.eval (.loopCondition hturns) hP)
        (fun _ _ _ hturns hc hv hP => hparts.exec (.loopBody hturns hc hv) hP)
        (fun _ _ _ _ _ hturns hc hv hb => hturns.tail ⟨_, _, _, hc, hv, hb⟩) n .refl hst
    | loopFor init condition increment body =>
      simp only [Interpreter.exec]
      refine Action.leaves_bind (hparts.exec .init hst) fun signal st₁ hi hP => ?_
      cases signal with
      | returned v => exact hP
      | normal v =>
        exact Action.leaves_runCounting (fun st₂ => Relation.ReflTransGen
            (CountingTurn (Interpreter.eval limit n condition) (Interpreter.exec limit n body)
              (Interpreter.exec limit n increment)) st₁ st₂)
          (fun _ hturns hP => hparts.eval (.forCondition hi hturns) hP)
          (fun _ _ _ hturns hc hv hP => hparts.exec (.forBody hi hturns hc hv) hP)
          (fun _ _ _ _ _ hturns hc hv hb hP =>
            hparts.exec (.increment hi hturns ⟨_, _, _, hc, hv, hb⟩) hP)
          (fun _ _ _ _ _ _ _ hturns hc hv hb hk =>
            hturns.tail ⟨_, _, ⟨_, _, _, hc, hv, hb⟩, hk⟩) n .refl hP
    | loopEach item collection body =>
      simp only [Interpreter.exec]
      refine Action.leaves_bind (hparts.eval .collection hst) fun v st₁ hc hP => ?_
      cases hitems : itemsOf v with
      | error error => exact hP
      | ok items =>
        refine Action.leaves_runEach ?_ hP
        rintro before a after w st₂ rfl hdone hP
        have hbound := h.stack st₂ (st₂.stack.define item a) hP
        exact hparts.exec (.eachBody hc hitems hdone) hbound
    | declare name parameters body => exact hregister n ⟨name, parameters, body⟩ rfl rfl
    | giveBack value =>
      cases value with
      | some e =>
        simp only [Interpreter.exec]
        exact Action.leaves_bind (hparts.eval .given hst) fun _ _ _ hP => hP
      | none => exact hst
    | evaluate e =>
      simp only [Interpreter.exec]
      exact Action.leaves_bind (hparts.eval .evaluated hst) fun _ _ _ hP => hP
    | block statements =>
      simp only [Interpreter.exec]
      refine Action.leaves_runAll ?_ hst
      rintro before s after v st₁ rfl hdone hP
      exact hparts.exec (.inBlock hdone) hP

/-- **A task keeps the property** if its parts do, from where they begin, and the registration does
if it is a declaration. -/
theorem Task.PartsKeep.run (h : Undisturbed P) {t : Task} (hparts : t.PartsKeep limit P st)
    (hregister : ∀ n (f : FunctionDef), t = .stmt (n + 1) f.toStmt → P (st.register f))
    (hst : P st) : (t.run limit st).Leaves fun _ st' => P st' := by
  cases t with
  | expr n e => exact Action.leaves_discard.mpr (hparts.expr h hst)
  | stmt n s =>
    refine Action.leaves_discard.mpr (hparts.stmt h ?_ hst)
    rintro n f rfl rfl
    exact hregister n f rfl

/-- The fuel that is left for a task. -/
def Task.fuel : Task → Nat
  | .expr n _ => n
  | .stmt n _ => n

/-- A part has less fuel than the whole. -/
theorem Starts.fuel_lt {t t₁ : Task} {st st₁ : State} (h : Starts limit t st t₁ st₁) :
    t₁.fuel < t.fuel := by
  cases h <;> exact Nat.lt_succ_self _

/-- Statements one after the other keep the property if each does where it begins. -/
theorem Interpreter.leaves_executeAll {fuel : Nat} : ∀ {statements : List Stmt} {last : Value}
    {st : State}, (∀ before s after value st₁, statements = before ++ s :: after →
      executeAll limit fuel last before st = .done value st₁ → P st₁ →
        (exec limit fuel s st₁).Leaves fun _ st' => P st') →
    P st → (executeAll limit fuel last statements st).Leaves fun _ st' => P st'
  | [], _, _, _, hst => hst
  | s :: rest, last, st, h, hst => by
    rw [executeAll]
    refine Action.leaves_bind (h [] s rest last st rfl rfl hst) fun signal st₁ hs hst₁ => ?_
    refine leaves_executeAll (fun before s' after value st₂ heq hbefore => ?_) hst₁
    refine h (s :: before) s' after value st₂ (by rw [heq]; rfl) ?_
    simp only [executeAll, Action.bind_apply, hs, hbefore]

end Tasks

/-! ## 3. The moments of a session -/

/-- What a request comes to begin: the statement or expression that it asks for, each statement of
its program, or the body of the function that it calls. -/
inductive Request.Starts (limit fuel : Nat) : Request → State → Task → State → Prop where
  | statement {before after : List Stmt} {s : Stmt} {st st₁ : State} {v : Value}
      (hbefore : executeAll limit fuel .absence before st = .done v st₁) :
      Request.Starts limit fuel (.execute ⟨before ++ s :: after⟩) st (.stmt fuel s) st₁
  | exec {s : Stmt} {st : State} : Request.Starts limit fuel (.exec s) st (.stmt fuel s) st
  | evaluate {e : Expr} {st : State} :
      Request.Starts limit fuel (.evaluate e) st (.expr fuel e) st
  | callee {name : String} {values : List Value} {st : State} {f : FunctionDef}
      (huser : Builtin.ofName? name = none) (hf : Entries.get? st.functions name = some f)
      (henough : f.parameters.length ≤ values.length) (hroom : st.stack.depth ≤ limit) :
      Request.Starts limit fuel (.call name values) st (.stmt fuel f.body)
        ((st.noteExtra f values).enter f.name (parameterFrame f.parameters values))

namespace Session

/-- **What begins in a session**, and in which state: what one of its requests comes to begin after
those before it have ended, and the parts of that. -/
inductive Begins (limit : Nat) (start : State) (requests : List Request) : Task → State → Prop where
  | request {before after : List Request} {request : Request} {fuel : Nat} {t : Task}
      {st st₁ : State} (hrequests : requests = before ++ request :: after)
      (hbefore : Session limit start before st) (hstarts : request.Starts limit fuel st t st₁) :
      Begins limit start requests t st₁
  | part {t t₁ : Task} {st st₁ : State} (hbegins : Begins limit start requests t st)
      (hstarts : Starts limit t st t₁ st₁) : Begins limit start requests t₁ st₁

/-- **What a session registers**, and in which state: a function whose declaration begins there, or
one that is given to the interpreter itself. -/
inductive Registers (limit : Nat) (start : State) (requests : List Request) :
    FunctionDef → State → Prop where
  | declaration {n : Nat} {f : FunctionDef} {st : State}
      (hbegins : Begins limit start requests (.stmt (n + 1) f.toStmt) st) :
      Registers limit start requests f st
  | definition {before after : List Request} {f : FunctionDef} {st : State}
      (hrequests : requests = before ++ .define f :: after)
      (hbefore : Session limit start before st) : Registers limit start requests f st

/-- **The states that a session visits**: those between its requests, and those in which something
begins or ends. -/
inductive Visits (limit : Nat) (start : State) (requests : List Request) : State → Prop where
  | between {before after : List Request} {st : State} (hrequests : requests = before ++ after)
      (hbefore : Session limit start before st) : Visits limit start requests st
  | begins {t : Task} {st : State} (hbegins : Begins limit start requests t st) :
      Visits limit start requests st
  | ends {t : Task} {st st' : State} (hbegins : Begins limit start requests t st)
      (hends : (t.run limit st).state? = some st') : Visits limit start requests st'

section Keeps

variable {limit : Nat} {P : State → Prop} {start : State} {requests : List Request}

/-- One request more. -/
theorem snoc {before : List Request} {request : Request} {fuel : Nat} {st st₁ : State}
    (h : Session limit start before st) (hends : (request.run limit fuel st).state? = some st₁) :
    Session limit start (before ++ [request]) st₁ := by
  induction h with
  | nil st => exact .cons fuel hends (.nil st₁)
  | cons fuel' hends' _ ih => exact .cons fuel' hends' (ih hends)

variable (h : Undisturbed P)
  (hregister : ∀ f st, Registers limit start requests f st → P st → P (st.register f))

include h hregister

/-- What begins in a session keeps the property. -/
theorem Begins.run_keeps {t : Task} {st : State} (hbegins : Begins limit start requests t st)
    (hst : P st) : (t.run limit st).Leaves fun _ st' => P st' := by
  induction hn : t.fuel using Nat.strongRecOn generalizing t st with
  | _ n ih =>
    -- a part has less fuel, and so has the body of a function that is called
    have hparts : t.PartsKeep limit P st := fun t₁ st₁ hstarts hP =>
      ih t₁.fuel (hn ▸ hstarts.fuel_lt) (.part hbegins hstarts) hP rfl
    refine hparts.run h ?_ hst
    rintro m f rfl
    exact hregister f st (.declaration hbegins) hst

/-- What begins in a request keeps the property, and so does the request. -/
theorem request_keeps {before after : List Request} {request : Request}
    (hrequests : requests = before ++ request :: after) {st : State}
    (hbefore : Session limit start before st) (fuel : Nat) (hst : P st) :
    (request.run limit fuel st).Leaves fun _ st' => P st' := by
  have hparts : ∀ {t st₁}, request.Starts limit fuel st t st₁ → P st₁ →
      (t.run limit st₁).Leaves fun _ st' => P st' := fun hstarts =>
    Begins.run_keeps h hregister (.request hrequests hbefore hstarts)
  cases request with
  | execute p =>
    refine Action.leaves_discard.mpr (leaves_executeAll ?_ hst)
    intro first s rest v st₁ heq hdone hP
    obtain ⟨statements⟩ := p
    obtain rfl : statements = first ++ s :: rest := heq
    exact Action.leaves_discard.mp (hparts (.statement hdone) hP)
  | exec s => exact hparts .exec hst
  | evaluate e => exact hparts .evaluate hst
  | call name values =>
    refine Action.leaves_discard.mpr (h.callWith hst fun f huser hf henough hroom => ?_)
    have hentered := h.enter st f values (parameterFrame f.parameters values) hst
    exact Action.leaves_discard.mp (hparts (.callee huser hf henough hroom) hentered)
  | define f => exact hregister f st (.definition hrequests hbefore) hst

/-- What a request begins finds the property. -/
theorem request_leads {before after : List Request} {request : Request}
    (hrequests : requests = before ++ request :: after) {st : State}
    (hbefore : Session limit start before st) {fuel : Nat} {t : Task} {st₁ : State}
    (hstarts : request.Starts limit fuel st t st₁) (hst : P st) : P st₁ := by
  have hparts : ∀ {t st₁}, request.Starts limit fuel st t st₁ → P st₁ →
      (t.run limit st₁).Leaves fun _ st' => P st' := fun hstarts =>
    Begins.run_keeps h hregister (.request hrequests hbefore hstarts)
  cases hstarts with
  | statement hdone =>
    refine Outcome.Leaves.of_done (leaves_executeAll ?_ hst) hdone
    intro first s rest v st₂ heq hdone hP
    have hkeeps := hparts (t := .stmt fuel s)
      (by simpa [heq] using Request.Starts.statement hdone) hP
    exact Action.leaves_discard.mp hkeeps
  | exec => exact hst
  | evaluate => exact hst
  | callee => exact h.enter st _ _ _ hst

/-- Between the requests the property is found. -/
theorem keeps_between {before after : List Request} {st : State}
    (hrequests : requests = before ++ after) (hbefore : Session limit start before st)
    (hstart : P start) : P st := by
  -- the requests that are done are carried along, because a registration is told by them
  have hforward : ∀ {st₁ st₂ : State} {rest : List Request}, Session limit st₁ rest st₂ →
      ∀ done, Session limit start done st₁ → requests = done ++ rest ++ after → P st₁ → P st₂ := by
    intro st₁ st₂ rest hrest
    induction hrest with
    | nil st₁ => exact fun _ _ _ hst => hst
    | @cons st₁ st₂ st₃ request rest fuel hends _ ih =>
      intro done hdone heq hst
      have hrun := request_keeps h hregister (by simpa using heq) hdone fuel hst
      exact ih (done ++ [request]) (hdone.snoc hends) (by simpa using heq) (hrun.of_state? hends)
  exact hforward hbefore [] (.nil start) hrequests hstart

/-- What begins finds the property. -/
theorem Begins.keeps {t : Task} {st : State} (hbegins : Begins limit start requests t st)
    (hstart : P start) : P st := by
  induction hbegins with
  | request hrequests hbefore hstarts =>
    have hst := keeps_between h hregister hrequests hbefore hstart
    exact request_leads h hregister hrequests hbefore hstarts hst
  | part hbegins hstarts ih =>
    refine hstarts.leads (fun item v st => h.stack st _) ?_ ?_ ih
    · exact fun st f values frame _ => h.enter st f values frame
    · exact fun t₁ st₁ hstarts hP => (hbegins.part hstarts).run_keeps h hregister hP

/-- **What every state has that a session visits.** -/
theorem Visits.keeps {st : State} (hvisits : Visits limit start requests st) (hstart : P start) :
    P st := by
  cases hvisits with
  | between hrequests hbefore => exact keeps_between h hregister hrequests hbefore hstart
  | begins hbegins => exact hbegins.keeps h hregister hstart
  | ends hbegins hends =>
    exact (hbegins.run_keeps h hregister (hbegins.keeps h hregister hstart)).of_state? hends

end Keeps

end Session

end TreeScript
