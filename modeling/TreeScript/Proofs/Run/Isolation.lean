import TreeScript.Proofs.Run.Parallel

/-!
# A call is an isolated run

The body of a function runs as if it were alone: with no frames below its own, with as many calls
still allowed as its callers have left over, and with an empty log.  What its callers have bound
does not reach it.

The two runs are compared by a map.  `State.above` puts the frames and the records of the callers
under a state of the lone run; `Action.Lifts` says that an action above them does what an action
alone does, put above them too.  It is an accord of the two runs along that map.  The limits differ
by the number of frames below, so that the test of a call comes out the same on both sides.  Two
things are told differently: the limit that an overflow quotes and the depth that a record of a call
gives.
-/

namespace TreeScript

/-! ## 1. Putting callers below a run -/

/-- What lies below a run: the frames of its callers, and the records that they have written, the
last one first.  The limit is the one that holds for all of them. -/
structure Callers where
  frames : List Frame
  log : List Record
  limit : Nat

/-- A record as it is written so many frames deeper. -/
def Record.deeper (frames : Nat) : Record → Record
  | .called function depth => .called function (depth + frames)
  | record => record

/-- An error as it is told under another limit. -/
def RunError.underLimit (limit : Nat) : RunError → RunError
  | .stackOverflow _ => .stackOverflow limit
  | error => error

/-- A stack with more frames below. -/
def CallStack.above (stack : CallStack) (frames : List Frame) : CallStack where
  current := stack.current
  callers := stack.callers ++ frames
  depth := stack.depth + frames.length
  depth_eq := by
    rw [List.length_append, stack.depth_eq]
    omega

/-- A state of a lone run, with callers below. -/
def State.above (st : State) (u : Callers) : State :=
  { st with
    stack := st.stack.above u.frames
    log := st.log.map (Record.deeper u.frames.length) ++ u.log }

/-- An outcome of a lone run, with callers below. -/
def Outcome.above {α : Type} (u : Callers) : Outcome α → Outcome α
  | .done value st => .done value (st.above u)
  | .failed error st => .failed (error.underLimit u.limit) (st.above u)
  | .exhausted => .exhausted

theorem RunError.underLimit_of_kind {limit : Nat} {error : RunError}
    (h : error.kind ≠ .stackOverflow) : error.underLimit limit = error := by
  cases error with
  | stackOverflow l => exact absurd rfl h
  | _ => rfl

theorem State.note_above (st : State) (u : Callers) {record : Record}
    (h : record.deeper u.frames.length = record) :
    (st.above u).note record = (st.note record).above u := by
  simp only [State.note, State.above, List.map_cons, h, List.cons_append]

theorem State.note_above_of_isMishap (st : State) (u : Callers) {record : Record}
    (h : record.IsMishap) : (st.above u).note record = (st.note record).above u := by
  refine st.note_above u ?_
  cases record with
  | called function depth =>
    rcases h with h | h
    · cases h
    · cases h
  | _ => rfl

/-- Entering a call above the callers writes the greater depth. -/
theorem State.enter_above (st : State) (u : Callers) (function : String) (frame : Frame) :
    (st.above u).enter function frame = (st.enter function frame).above u := by
  have hstack : (st.above u).stack.push frame = (st.stack.push frame).above u.frames :=
    CallStack.ext_frames rfl rfl
  have hdepth : st.stack.depth + u.frames.length + 1 = st.stack.depth + 1 + u.frames.length := by
    omega
  unfold State.enter
  rw [hstack]
  simp only [State.note, State.above, CallStack.above, List.map_cons, Record.deeper,
    List.cons_append, hdepth]

/-! ## 2. Actions above callers -/

/-- **One action does above the callers what another does alone.** -/
def Action.Lifts {α : Type} (u : Callers) (x y : Action α) : Prop :=
  ∀ st : State, x (st.above u) = (y st).above u

/-- The second run is the first one, above callers. -/
def Accord.above (u : Callers) : Accord := .along (·.above u) (RunError.underLimit u.limit)

theorem Action.InStep.lifts {α : Type} {u : Callers} {P : α → Prop} {x y : Action α}
    (h : y.InStep (.above u) P x) : x.Lifts u y := by
  intro st
  have hends : x (st.above u) = (y st).along (·.above u) (RunError.underLimit u.limit) :=
    h.eq_along st
  rw [hends]
  cases y st <;> rfl

theorem Accord.sound_above (u : Callers) : (Accord.above u).Sound :=
  Accord.sound_along (fun h => RunError.underLimit_of_kind h.2) (fun _ => rfl) (fun _ => rfl)
    (fun _ _ => rfl) (fun _ _ => rfl) fun st _ h => st.note_above_of_isMishap u h

theorem State.register_above (st : State) (u : Callers) (f : FunctionDef) :
    (st.above u).register f = (st.register f).above u := by
  have hsame : (Record.registered f.name (Entries.contains st.functions f.name)).deeper
      u.frames.length = .registered f.name (Entries.contains st.functions f.name) := rfl
  exact State.note_above { st with functions := Entries.insert st.functions f.name f } u hsame

namespace Interpreter

/-! ## 3. Runs above callers -/

section Above

variable {u : Callers} {limit : Nat} (hlimit : u.limit = limit + u.frames.length)

include hlimit

/-- As many calls are allowed to the lone run as the callers have left over. -/
theorem enters_above : (Accord.above u).Enters (Accord.above u).states Eq limit u.limit where
  name h := by rw [h]
  arity h := by rw [h]
  lookup := by
    rintro st _ rfl name
    exact rel_get?_self (fun _ => rfl) st.functions name
  room := by
    rintro st _ rfl
    have hdepth : (st.above u).stack.depth = st.stack.depth + u.frames.length := rfl
    rw [hdepth]
    omega
  overflow := rfl
  enter := by
    rintro f _ values st _ rfl - rfl
    exact st.enter_above u f.name _
  leave := by
    rintro outer _ st _ rfl rfl
    rfl

theorem supports_above : (Accord.above u).Supports .identity limit u.limit where
  toSound := Accord.sound_above u
  read := by
    rintro x _ rfl
    refine readVariable_inStep ?_ (fun _ _ => trivial) rfl
    rintro st _ rfl
    rfl
  assign := by
    rintro x _ v rfl -
    refine Action.inStep_update ?_
    rintro st _ rfl
    rfl
  register := by
    rintro f _ rfl
    refine Action.inStep_update ?_
    rintro st _ rfl
    exact st.register_above u f
  call {fuel} hexec name values hvalues := by
    refine callWith_inStep (Accord.sound_above u) (enters_above hlimit) ?_ name hvalues
    rintro f _ rfl
    exact hexec f.body _ rfl

/-- **A run above callers is the lone run**, with as many calls allowed as they have left over. -/
theorem run_lifts (fuel : Nat) :
    (∀ e, (eval u.limit fuel e).Lifts u (eval limit fuel e)) ∧
      ∀ s, (exec u.limit fuel s).Lifts u (exec limit fuel s) := by
  have hrun := run_inStep (supports_above hlimit) fuel
  constructor
  · exact fun e => (hrun.1 e e rfl).lifts
  · exact fun s => (hrun.2 s s rfl).lifts

end Above

/-! ## 4. The call and its body alone -/

/-- The state in which the body of a function runs alone: its frame holds the parameters, and there
is no other; functions, console and files are those of the call; nothing is in the log. -/
def aloneWith (st : State) (f : FunctionDef) (arguments : List Value) : State :=
  { st with stack := .ofFrame (parameterFrame f.parameters arguments), log := [] }

/-- The state after a call whose body, run alone, has left this one: the stack is that of the
caller; functions, console and files are those that the body left; its records follow that of the
call, the depths counted from the caller's. -/
def afterCall (st : State) (f : FunctionDef) (arguments : List Value) (alone : State) : State :=
  { alone with
    stack := st.stack
    log := alone.log.map (Record.deeper st.stack.depth) ++
      .called f.name (st.stack.depth + 1) :: (st.noteExtra f arguments).log }

/-- What lies below the body of a call from this state. -/
def callersOf (limit : Nat) (st : State) (f : FunctionDef) (arguments : List Value) : Callers where
  frames := st.stack.current :: st.stack.callers
  log := .called f.name (st.stack.depth + 1) :: (st.noteExtra f arguments).log
  limit := limit

theorem length_callersOf (limit : Nat) (st : State) (f : FunctionDef) (arguments : List Value) :
    (callersOf limit st f arguments).frames.length = st.stack.depth := by
  rw [st.stack.depth_eq]
  rfl

/-- The body of a call begins where it would begin alone, with the callers put below. -/
theorem enter_eq_above (limit : Nat) (st : State) (f : FunctionDef) (arguments : List Value) :
    (st.noteExtra f arguments).enter f.name (parameterFrame f.parameters arguments) =
      (aloneWith st f arguments).above (callersOf limit st f arguments) := by
  have hkept : (st.noteExtra f arguments).functions = st.functions ∧
      (st.noteExtra f arguments).console = st.console ∧
      (st.noteExtra f arguments).files = st.files := by
    unfold State.noteExtra
    split <;> exact ⟨rfl, rfl, rfl⟩
  have hpush : st.stack.push (parameterFrame f.parameters arguments) =
      (CallStack.ofFrame (parameterFrame f.parameters arguments)).above
        (st.stack.current :: st.stack.callers) := CallStack.ext_frames rfl rfl
  obtain ⟨hfunctions, hconsole, hfiles⟩ := hkept
  unfold State.enter State.note State.above aloneWith callersOf
  simp only [State.stack_noteExtra, hpush, hfunctions, hconsole, hfiles, List.map_nil,
    List.nil_append]

section Alone

variable {limit fuel : Nat} {name : String} {f : FunctionDef} {arguments : List Value} {st : State}

/-- A call ends as its body ends alone. -/
theorem call_eq_alone (huser : Builtin.ofName? name = none)
    (hf : Entries.get? st.functions name = some f)
    (henough : f.parameters.length ≤ arguments.length) (hroom : st.stack.depth ≤ limit) :
    call limit fuel name arguments st =
      match exec (limit - st.stack.depth) fuel f.body (aloneWith st f arguments) with
      | .done signal alone => .done signal.value (afterCall st f arguments alone)
      | .failed error alone => .failed (error.underLimit limit) (afterCall st f arguments alone)
      | .exhausted => .exhausted := by
  have hlength : (callersOf limit st f arguments).frames.length = st.stack.depth :=
    length_callersOf limit st f arguments
  have hlimit : limit =
      (limit - st.stack.depth) + (callersOf limit st f arguments).frames.length := by
    rw [hlength]
    exact (Nat.sub_add_cancel hroom).symm
  have hlift := (run_lifts (u := callersOf limit st f arguments) hlimit fuel).2 f.body
    (aloneWith st f arguments)
  have huserCall : call limit fuel name arguments st =
      callFunction limit (exec limit fuel) f arguments st := callWith_user huser hf
  rw [huserCall, callFunction_eq_restore henough hroom (exec_callers limit fuel f.body _),
    enter_eq_above limit, show exec limit fuel f.body _ = _ from hlift]
  cases exec (limit - st.stack.depth) fuel f.body (aloneWith st f arguments) with
  | done signal alone =>
    simp only [Outcome.above, Outcome.restore, State.above, afterCall, hlength]
    rfl
  | failed error alone =>
    simp only [Outcome.above, Outcome.restore, State.above, afterCall, hlength]
    rfl
  | exhausted => rfl

/-- The frames below a call are seen in the state that it leaves, and nowhere else. -/
theorem afterCall_stack (alone : State) {stack : CallStack}
    (hdepth : stack.depth = st.stack.depth) :
    afterCall { st with stack := stack } f arguments alone =
      { afterCall st f arguments alone with stack := stack } := by
  have hlog : (({ st with stack := stack } : State).noteExtra f arguments).log =
      (st.noteExtra f arguments).log := by
    unfold State.noteExtra
    split <;> rfl
  unfold afterCall
  simp only [hlog, hdepth]

end Alone

/-- **A call is an isolated run.**  With room for it, calling a function of the program with enough
arguments ends as its body ends alone, under the limit that is left: with the same value or error,
console, files, functions and records.  Only an overflow quotes the whole limit, and the depths in
the records count the frames of the callers.  So it does not matter what any live frame binds. -/
theorem call_isolated (limit fuel : Nat) (name : String) (f : FunctionDef)
    (arguments : List Value) (st : State) (huser : Builtin.ofName? name = none)
    (hf : Entries.get? st.functions name = some f)
    (henough : f.parameters.length ≤ arguments.length) (hroom : st.stack.depth ≤ limit) :
    (call limit fuel name arguments st =
      match exec (limit - st.stack.depth) fuel f.body (aloneWith st f arguments) with
      | .done signal alone => .done signal.value (afterCall st f arguments alone)
      | .failed error alone => .failed (error.underLimit limit) (afterCall st f arguments alone)
      | .exhausted => .exhausted) ∧
    ∀ stack : CallStack, stack.depth = st.stack.depth →
      call limit fuel name arguments { st with stack := stack } =
        (call limit fuel name arguments st).restore id stack := by
  refine ⟨call_eq_alone huser hf henough hroom, fun stack hdepth => ?_⟩
  have hf' : Entries.get? { st with stack := stack }.functions name = some f := hf
  have hroom' : { st with stack := stack }.stack.depth ≤ limit := hdepth ▸ hroom
  rw [call_eq_alone huser hf' henough hroom', call_eq_alone huser hf henough hroom]
  simp only [afterCall_stack _ hdepth, hdepth]
  have halone : aloneWith { st with stack := stack } f arguments = aloneWith st f arguments := rfl
  rw [halone]
  cases exec (limit - st.stack.depth) fuel f.body (aloneWith st f arguments) <;> rfl

/-- A function of one parameter that calls itself for ever. -/
def repeating : FunctionDef := ⟨"f", [⟨"p", none⟩], .evaluate (.call "f" [.identifier "p"])⟩

/-- Where one call is allowed, the body of the call overflows in its own call, alone under the limit
zero as well as above its caller, whatever that one binds. -/
theorem call_isolated_repeating :
    (∃ alone, exec 0 9 repeating.body
        (aloneWith (State.register {} repeating) repeating [.text "a", .absence]) =
          .failed (.stackOverflow 0) alone ∧
      call 1 9 "f" [.text "a", .absence] (State.register {} repeating) =
        .failed (.stackOverflow 1)
          (afterCall (State.register {} repeating) repeating [.text "a", .absence] alone)) ∧
    call 1 9 "f" [.text "a", .absence]
        { State.register {} repeating with stack := .ofFrame [("p", .absence)] } =
      (call 1 9 "f" [.text "a", .absence] (State.register {} repeating)).restore id
        (.ofFrame [("p", .absence)]) := by
  have h := call_isolated 1 9 "f" repeating [.text "a", .absence] (State.register {} repeating)
    rfl rfl (by decide) (by decide)
  exact ⟨⟨_, rfl, h.1⟩, h.2 (.ofFrame [("p", .absence)]) rfl⟩

end Interpreter

end TreeScript
