import TreeScript.Run.Builtin
import TreeScript.Value.Operation

/-!
# The interpreter

`eval` evaluates an expression and `exec` executes a statement.  Both take **fuel** and pass one
unit less to everything inside, so that the fuel a run needs is the depth to which its evaluation
nests, and not its length: a loop asks for as much fuel as it makes turns, and a list of statements
for no more than its deepest one.  A run that ends with some fuel ends in the same way with more.

A call of a function runs its body in a fresh frame that binds the parameters, and takes the frame
off again however the body ends.  At most `limit` calls may be active at the same time; the frame
of the program itself is not counted.  Built-in functions come first, so that a program cannot
replace them.
-/

namespace TreeScript

namespace Interpreter

/-! ## 1. Calls -/

/-- The frame in which a function's body starts; arguments beyond the parameters are dropped. -/
def parameterFrame (parameters : List Parameter) (arguments : List Value) : Frame :=
  Entries.ofPairs ((parameters.map Parameter.name).zip arguments)

/-- Takes the frame of a call off the stack. -/
def leave {α : Type} (outcome : Outcome α) : Outcome α :=
  match outcome with
  | .done value st =>
    match st.stack.pop? with
    | some (_, stack) => .done value { st with stack := stack }
    | none => .failed (.internal .topFramePopped) st
  | .failed error st =>
    match st.stack.pop? with
    | some (_, stack) => .failed error { st with stack := stack }
    | none => .failed (.internal .topFramePopped) st
  | .exhausted => .exhausted

/-- Runs the body of a function in a frame of its own. -/
def inFrame {α : Type} (function : String) (frame : Frame) (body : Action α) : Action α := fun st =>
  let entered : State := { st with stack := st.stack.push frame }
  let noted := entered.note (.called function entered.stack.depth)
  leave (body noted)

/-- Calls a function of the program. -/
def callFunction (limit : Nat) (run : Stmt → Action Signal) (f : FunctionDef)
    (arguments : List Value) : Action Value := do
  let expected := f.parameters.length
  let found := arguments.length
  if found < expected then Action.fail (.arityMismatch f.name expected found)
  if expected < found then Action.note (.extraArguments f.name expected found)
  let st ← Action.state
  if limit < st.stack.depth then Action.fail (.stackOverflow limit)
  let signal ← inFrame f.name (parameterFrame f.parameters arguments) (run f.body)
  return signal.value

/-- **A call by name**: of a built-in function, or else of a function of the program. -/
def callWith (limit : Nat) (run : Stmt → Action Signal) (name : String)
    (arguments : List Value) : Action Value :=
  match Builtin.ofName? name with
  | some b => b.call arguments
  | none => do
    let st ← Action.state
    match Entries.get? st.functions name with
    | some f => callFunction limit run f arguments
    | none => Action.fail (.unknownFunction name)

/-! ## 2. Variables and collections -/

/-- The value of a variable in the current frame. -/
def readVariable (name : String) : Action Value := do
  let st ← Action.state
  match st.stack.get? name with
  | some v => return v
  | none => Action.fail (.unboundName name)

/-- Binds a variable in the current frame. -/
def assign (name : String) (value : Value) : Action Unit :=
  Action.update fun st => { st with stack := st.stack.define name value }

/-- What a loop goes through: the items of a sequence, or the keys of a mapping. -/
def itemsOf : Value → Except RunError (List Value)
  | .sequence items => .ok items
  | .mapping entries => .ok ((Entries.keys entries).map .text)
  | other => .error (.typeError "sequence or mapping" other.typeName)

/-! ## 3. Evaluation and execution -/

mutual

/-- **Evaluates an expression.** -/
def eval (limit : Nat) : (fuel : Nat) → Expr → Action Value
  | 0, _ => Action.exhaust
  | _ + 1, .literal payload kind => Action.ofResult (Value.ofLiteral payload kind)
  | _ + 1, .identifier name => readVariable name
  | fuel + 1, .binary .and left right => do
    if (← eval limit fuel left).isTruthy then
      return .boolean (← eval limit fuel right).isTruthy
    else return .boolean false
  | fuel + 1, .binary .or left right => do
    if (← eval limit fuel left).isTruthy then return .boolean true
    else return .boolean (← eval limit fuel right).isTruthy
  | fuel + 1, .binary op left right => do
    let a ← eval limit fuel left
    let b ← eval limit fuel right
    Action.ofResult (Value.binary op a b)
  | fuel + 1, .unary op operand => do
    let a ← eval limit fuel operand
    Action.ofResult (Value.unary op a)
  | fuel + 1, .call name arguments => do
    let values ← Action.collect (eval limit fuel) arguments
    callWith limit (exec limit fuel) name values
  | fuel + 1, .index base position => do
    let collection ← eval limit fuel base
    let place ← eval limit fuel position
    Action.ofResult (Value.index collection place)
  | fuel + 1, .sequence elements => do
    return .sequence (← Action.collect (eval limit fuel) elements)
  | fuel + 1, .mapping entries => do
    let values ← Action.collect (fun entry => eval limit fuel entry.2) entries
    return .mapping (Entries.ofPairs ((entries.map Prod.fst).zip values))

/-- **Executes a statement.** -/
def exec (limit : Nat) : (fuel : Nat) → Stmt → Action Signal
  | 0, _ => Action.exhaust
  | fuel + 1, .assign name value => do
    let v ← eval limit fuel value
    assign name v
    return .normal v
  | fuel + 1, .branch condition thenBlock elseBlock => do
    if (← eval limit fuel condition).isTruthy then exec limit fuel thenBlock
    else
      match elseBlock with
      | some block => exec limit fuel block
      | none => return .normal .absence
  | fuel + 1, .loop condition body =>
    Action.runWhile (eval limit fuel condition) (exec limit fuel body) fuel
  | fuel + 1, .loopFor init condition increment body => do
    match ← exec limit fuel init with
    | .returned v => return .returned v
    | .normal _ =>
      Action.runCounting (eval limit fuel condition) (exec limit fuel body)
        (exec limit fuel increment) fuel
  | fuel + 1, .loopEach item collection body => do
    let items ← Action.ofResult (itemsOf (← eval limit fuel collection))
    Action.runEach (fun v => do
      assign item v
      exec limit fuel body) items
  | _ + 1, .declare name parameters body => do
    Action.update (·.register ⟨name, parameters, body⟩)
    return .normal .absence
  | fuel + 1, .giveBack value =>
    match value with
    | some e => do return .returned (← eval limit fuel e)
    | none => return .returned .absence
  | fuel + 1, .evaluate e => do return .normal (← eval limit fuel e)
  | fuel + 1, .block statements => Action.runAll (exec limit fuel) .absence statements

end

/-! ## 4. Programs and calls from outside -/

/-- Executes statements one after the other; a `return` among them stops nothing.  The value is
that of the last one. -/
def executeAll (limit fuel : Nat) (last : Value) : List Stmt → Action Value
  | [] => pure last
  | s :: rest => do
    let signal ← exec limit fuel s
    executeAll limit fuel signal.value rest

/-- **Executes a program.** -/
def execute (limit fuel : Nat) (p : Program) : Action Value :=
  executeAll limit fuel .absence p.statements

/-- **Calls a function by name.** -/
def call (limit fuel : Nat) (name : String) (arguments : List Value) : Action Value :=
  callWith limit (exec limit fuel) name arguments

/-- Registers a function. -/
def define (f : FunctionDef) : Action Unit := Action.update (·.register f)

end Interpreter

end TreeScript
