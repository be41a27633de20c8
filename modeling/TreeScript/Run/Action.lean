import TreeScript.Run.State

/-!
# Actions

An action takes a state and ends in one of three ways: with a value, with an error, or not within
the fuel that it was given.  The first two leave a state, because what was printed, written and
assigned before an error stays.  Actions are composed with `do`; the first that does not end with a
value decides.

The loops of the language are actions too, made of the actions of their parts.  They are written
here once, so that what holds of the parts is carried to the loop by one lemma each.
-/

namespace TreeScript

/-- How an action ended. -/
inductive Outcome (α : Type) where
  | done (value : α) (state : State)
  | failed (error : RunError) (state : State)
  | exhausted

/-- A step of a run. -/
def Action (α : Type) := State → Outcome α

/-- How a statement ended: at its end, or at a `return` that leaves the enclosing call. -/
inductive Signal where
  | normal (value : Value)
  | returned (value : Value)

/-- The value with which a statement ended. -/
def Signal.value : Signal → Value
  | .normal v => v
  | .returned v => v

namespace Action

variable {α β : Type}

/-! ## 1. Basic actions -/

/-- First one action, then the one that its value decides. -/
@[inline] def andThen (x : Action α) (f : α → Action β) : Action β := fun st =>
  match x st with
  | .done value st => f value st
  | .failed error st => .failed error st
  | .exhausted => .exhausted

@[inline] instance : Monad Action where
  pure value := fun st => .done value st
  bind := andThen

/-- Stops with an error. -/
@[inline] def fail (error : RunError) : Action α := fun st => .failed error st

/-- Runs out of fuel. -/
@[inline] def exhaust : Action α := fun _ => .exhausted

/-- The state. -/
@[inline] def state : Action State := fun st => .done st st

/-- Changes the state. -/
@[inline] def update (f : State → State) : Action Unit := fun st => .done () (f st)

/-- The result of an operation on values. -/
@[inline] def ofResult (result : Except RunError α) : Action α := fun st =>
  match result with
  | .ok value => .done value st
  | .error error => .failed error st

/-- Adds a record to the log. -/
@[inline] def note (record : Record) : Action Unit := update (·.note record)

/-! ## 2. Lists -/

/-- The values of the actions of all elements, from the first to the last. -/
@[specialize] def collect (f : α → Action β) : List α → Action (List β)
  | [] => pure []
  | a :: rest => do
    let b ← f a
    let bs ← collect f rest
    return b :: bs

/-- Runs statements up to the first that returns.  The value is that of the last statement, or
`last` if there is none. -/
@[specialize] def runAll (run : α → Action Signal) (last : Value) : List α → Action Signal
  | [] => pure (.normal last)
  | s :: rest => do
    match ← run s with
    | .returned v => return .returned v
    | .normal v => runAll run v rest

/-- Runs a body once for each item, up to the first time that it returns. -/
@[specialize] def runEach (body : α → Action Signal) : List α → Action Signal
  | [] => pure (.normal .absence)
  | item :: rest => do
    match ← body item with
    | .returned v => return .returned v
    | .normal _ => runEach body rest

/-! ## 3. Conditional loops -/

/-- Runs a body as long as a condition holds, up to the first time that it returns, and at most
`turns` times. -/
@[specialize] def runWhile (condition : Action Value) (body : Action Signal) : Nat → Action Signal
  | 0 => exhaust
  | turns + 1 => do
    if (← condition).isTruthy then
      match ← body with
      | .returned v => return .returned v
      | .normal _ => runWhile condition body turns
    else return .normal .absence

/-- Runs a body and then a step as long as a condition holds, up to the first time that one of the
two returns, and at most `turns` times. -/
@[specialize] def runCounting (condition : Action Value) (body step : Action Signal) :
    Nat → Action Signal
  | 0 => exhaust
  | turns + 1 => do
    if (← condition).isTruthy then
      match ← body with
      | .returned v => return .returned v
      | .normal _ =>
        match ← step with
        | .returned v => return .returned v
        | .normal _ => runCounting condition body step turns
    else return .normal .absence

end Action

end TreeScript
