import TreeScript.Value.Basic
import TreeScript.Program.Basic
import TreeScript.Json.Printer
import TreeScript.Decimal.Numeral
import TreeScript.Text.Blank
import TreeScript.Run.Error

/-!
# Operations on values

The value of a literal, the operators other than the logical ones, and indexing.  None of them
depends on the state of a run.

Arithmetic is on numbers only; division and remainder refuse a zero divisor of either sign.  Two
numbers or two texts can be ordered, texts by the codes of their characters; NaN is ordered with
nothing.  A sequence is indexed by the integer that the index truncates to, and a negative one
counts from the end.
-/

namespace TreeScript.Value

/-! ## 1. Literals -/

/-- The number that a payload stands for. -/
def numberOfJson? : Json → Option Float
  | .integer i => some (Decimal.ofInt i).toFloat
  | .double x => some x
  | .text s => Numeral.read? (Text.trim s.toList)
  | _ => none

/-- What is wrong with a payload that does not fit its kind. -/
def misfit (kind : LiteralKind) (payload : Json) : RunError :=
  match kind, payload with
  | .number, .text s => .malformedTree ("invalid number literal: " ++ Text.quoted s)
  | _, _ => .malformedTree (kind.title ++ " literal cannot hold " ++ payload.toText)

/-- **The value of a literal.** -/
def ofLiteral (payload : Json) (kind : LiteralKind) : Except RunError Value :=
  match kind, payload with
  | .number, _ =>
    match numberOfJson? payload with
    | some x => .ok (.number x)
    | none => .error (misfit kind payload)
  | .text, .text s => .ok (.text s)
  | .boolean, .boolean b => .ok (.boolean b)
  | .boolean, .text s =>
    if s = "true" then .ok (.boolean true)
    else if s = "false" then .ok (.boolean false)
    else .error (misfit kind payload)
  | .absence, _ => .ok .absence
  | _, _ => .error (misfit kind payload)

/-! ## 2. Operators -/

/-- The kinds of two operands around their operator. -/
def operandKinds (op : BinaryOp) (a b : Value) : String :=
  a.typeName ++ " " ++ op.symbol ++ " " ++ b.typeName

/-- The remainder of the truncated quotient of two doubles. -/
def remainder (x y : Float) : Float :=
  ((Binary64.ofFloat x).remainder (Binary64.ofFloat y)).toFloat

/-- An operation on two numbers. -/
def arithmetic (op : BinaryOp) (a b : Value) (f : Float → Float → Except RunError Float) :
    Except RunError Value :=
  match a, b with
  | .number x, .number y => (f x y).map .number
  | _, _ => .error (.typeError "number" (operandKinds op a b))

/-- An operation that refuses zero as its second operand. -/
def refusingZero (f : Float → Float → Float) (x y : Float) : Except RunError Float :=
  if y == 0 then .error .divisionByZero else .ok (f x y)

/-- The order of two numbers; NaN has none. -/
def compareNumbers (x y : Float) : Option Ordering :=
  if x < y then some .lt else if x == y then some .eq else if y < x then some .gt else none

/-- The order of two texts by the codes of their characters. -/
def compareTexts (s t : String) : Ordering :=
  if s < t then .lt else if s = t then .eq else .gt

/-- Whether the order of two numbers or two texts passes a test; without order none does. -/
def comparison (op : BinaryOp) (a b : Value) (test : Ordering → Bool) : Except RunError Value :=
  match a, b with
  | .number x, .number y => .ok (.boolean ((compareNumbers x y).any test))
  | .text s, .text t => .ok (.boolean (test (compareTexts s t)))
  | _, _ => .error (.typeError "number or text on both sides" (operandKinds op a b))

/-- **An operator applied to two values.**  The logical operators are not applied to values: they
decide whether their right operand is evaluated at all. -/
def binary (op : BinaryOp) (a b : Value) : Except RunError Value :=
  match op with
  | .add => arithmetic op a b fun x y => .ok (x + y)
  | .sub => arithmetic op a b fun x y => .ok (x - y)
  | .mul => arithmetic op a b fun x y => .ok (x * y)
  | .div => arithmetic op a b (refusingZero fun x y => x / y)
  | .mod => arithmetic op a b (refusingZero remainder)
  | .eq => .ok (.boolean (same a b))
  | .ne => .ok (.boolean (!same a b))
  | .lt => comparison op a b Ordering.isLT
  | .gt => comparison op a b Ordering.isGT
  | .le => comparison op a b Ordering.isLE
  | .ge => comparison op a b Ordering.isGE
  | .and => .error (.internal .logicalOperator)
  | .or => .error (.internal .logicalOperator)

/-- An operator applied to one value. -/
def unary (op : UnaryOp) (a : Value) : Except RunError Value :=
  match op, a with
  | .neg, .number x => .ok (.number (-x))
  | .neg, _ => .error (.typeError "number" a.typeName)
  | .not, _ => .ok (.boolean !a.isTruthy)

/-! ## 3. Indexing -/

/-- The position that an index selects in a sequence of this length, if it selects one. -/
def position? (length : Nat) (index : Float) : Option Nat :=
  match (Binary64.ofFloat index).truncated with
  | none => none
  | some k =>
    let place : Int := if k < 0 then length + k else k
    if 0 ≤ place ∧ place < length then some place.toNat else none

/-- **An element of a sequence or of a mapping.** -/
def index (base position : Value) : Except RunError Value :=
  match base, position with
  | .sequence items, .number x =>
    match position? items.length x with
    | none => .error (.indexOutOfBounds x items.length)
    | some place =>
      match items[place]? with
      | some item => .ok item
      | none => .error (.internal .positionOutside)
  | .mapping entries, .text key =>
    match Entries.get? entries key with
    | some value => .ok value
    | none => .error (.keyNotFound key)
  | _, _ =>
    .error (.typeError "sequence[number] or mapping[text]"
      (base.typeName ++ "[" ++ position.typeName ++ "]"))

end TreeScript.Value
