import TreeScript.Run.Interpreter

/-!
# Which errors an operation raises

An operation on values raises errors of few kinds, and never one that only the machine of calls
raises.  So an overflow of the stack always comes from a call, and a step outside its domain never
comes from an operator, an index or a built-in function.
-/

namespace TreeScript

/-- The errors that do not tell of the stack of calls and not of a step outside its domain. -/
def RunError.IsOrdinary (error : RunError) : Prop :=
  error.kind ≠ .stackOverflow ∧ error.kind ≠ .internal

theorem RunError.isOrdinary_of_kind {error : RunError} {kind : ErrorKind} (h : error.kind = kind)
    (hs : kind ≠ .stackOverflow := by decide) (hi : kind ≠ .internal := by decide) :
    error.IsOrdinary := by
  rw [RunError.IsOrdinary, h]
  exact ⟨hs, hi⟩

/-- The kinds of errors that come from the values at hand, and not from the stack of calls, a step
outside its domain, the payload of a literal or a device. -/
def ErrorKind.IsPlain (kind : ErrorKind) : Prop :=
  kind ≠ .stackOverflow ∧ kind ≠ .internal ∧ kind ≠ .malformedTree ∧ kind ≠ .inputOutput

instance (kind : ErrorKind) : Decidable kind.IsPlain := inferInstanceAs (Decidable (_ ∧ _))

theorem RunError.isOrdinary_of_isPlain {error : RunError} (h : error.kind.IsPlain) :
    error.IsOrdinary := ⟨h.1, h.2.1⟩

/-- Only the result of an operation is changed by a map, not its error. -/
theorem error_of_map {α β : Type} {f : α → β} {result : Except RunError α} {error : RunError}
    (h : result.map f = .error error) : result = .error error := by
  cases result with
  | ok a => cases h
  | error e => exact congrArg _ (Except.error.inj h)

namespace Value

variable {error : RunError}

/-! ## 1. Literals, operators, indexing and loops -/

theorem kind_of_ofLiteral {payload : Json} {kind : LiteralKind}
    (h : ofLiteral payload kind = .error error) : error.kind = .malformedTree := by
  have hmisfit : (misfit kind payload).kind = .malformedTree := by
    unfold misfit
    split <;> rfl
  unfold ofLiteral at h
  split at h
  · split at h
    · cases h
    · cases h
      exact hmisfit
  · cases h
  · cases h
  · split at h
    · cases h
    · split at h
      · cases h
      · cases h
        exact hmisfit
  · cases h
  · cases h
    exact hmisfit

theorem kind_of_arithmetic {op : BinaryOp} {a b : Value} {f : Float → Float → Except RunError Float}
    {kind : ErrorKind} (hf : ∀ x y e, f x y = .error e → e.kind = kind)
    (h : arithmetic op a b f = .error error) : error.kind = .typeError ∨ error.kind = kind := by
  unfold arithmetic at h
  split at h
  · rename_i x y
    exact Or.inr (hf x y error (error_of_map h))
  · cases h
    exact Or.inl rfl

theorem kind_of_refusingZero {f : Float → Float → Float} (x y : Float) (e : RunError)
    (h : refusingZero f x y = .error e) : e.kind = .divisionByZero := by
  unfold refusingZero at h
  split at h
  · cases h
    rfl
  · cases h

theorem kind_of_comparison {op : BinaryOp} {a b : Value} {test : Ordering → Bool}
    (h : comparison op a b test = .error error) : error.kind = .typeError := by
  unfold comparison at h
  split at h
  · cases h
  · cases h
  · cases h
    rfl

/-- An operator between two values refuses kinds or a zero divisor, and nothing else. -/
theorem kind_of_binary {op : BinaryOp} {a b : Value} (hand : op ≠ .and) (hor : op ≠ .or)
    (h : binary op a b = .error error) :
    error.kind = .typeError ∨ error.kind = .divisionByZero := by
  have hnever : ∀ (f : Float → Float → Float) (x y : Float) (e : RunError),
      (.ok (f x y) : Except RunError Float) = .error e → e.kind = .divisionByZero :=
    fun _ _ _ _ hok => by cases hok
  cases op with
  | add => exact kind_of_arithmetic (hnever _) h
  | sub => exact kind_of_arithmetic (hnever _) h
  | mul => exact kind_of_arithmetic (hnever _) h
  | div => exact kind_of_arithmetic kind_of_refusingZero h
  | mod => exact kind_of_arithmetic kind_of_refusingZero h
  | eq => cases h
  | ne => cases h
  | lt => exact Or.inl (kind_of_comparison h)
  | gt => exact Or.inl (kind_of_comparison h)
  | le => exact Or.inl (kind_of_comparison h)
  | ge => exact Or.inl (kind_of_comparison h)
  | and => exact absurd rfl hand
  | or => exact absurd rfl hor

theorem kind_of_unary {op : UnaryOp} {a : Value} (h : unary op a = .error error) :
    error.kind = .typeError := by
  unfold unary at h
  split at h
  · cases h
  · cases h
    rfl
  · cases h

/-- A position that an index selects lies in the sequence. -/
theorem lt_of_position? {length place : Nat} {x : Float} (h : position? length x = some place) :
    place < length := by
  unfold position? at h
  split at h
  · cases h
  · rename_i k _
    dsimp only at h
    generalize (if k < 0 then (length : Int) + k else k) = p at h
    split at h
    · rename_i hp
      cases h
      omega
    · cases h

theorem kind_of_index {base position : Value} (h : index base position = .error error) :
    error.kind = .indexOutOfBounds ∨ error.kind = .keyNotFound ∨ error.kind = .typeError := by
  unfold index at h
  split at h
  · rename_i items x
    split at h
    · cases h
      exact Or.inl rfl
    · rename_i place hplace
      have hlt : place < items.length := lt_of_position? hplace
      rw [List.getElem?_eq_getElem hlt] at h
      cases h
  · split at h
    · cases h
    · cases h
      exact Or.inr (Or.inl rfl)
  · cases h
    exact Or.inr (Or.inr rfl)

end Value

theorem Interpreter.kind_of_itemsOf {v : Value} {error : RunError}
    (h : Interpreter.itemsOf v = .error error) : error.kind = .typeError := by
  unfold Interpreter.itemsOf at h
  split at h
  · cases h
  · cases h
  · cases h
    rfl

/-! ## 2. Arguments of built-in functions -/

namespace Builtin

variable {error : RunError}

theorem kind_of_numbersOf : ∀ {items : List Value}, numbersOf items = .error error →
    error.kind = .typeError := by
  intro items h
  fun_induction numbersOf items with
  | case1 => cases h
  | case2 x rest ih => exact ih (error_of_map h)
  | case3 other rest _ =>
    cases h
    rfl

theorem kind_of_numbers {v : Value} (h : numbers v = .error error) : error.kind = .typeError := by
  unfold numbers at h
  split at h
  · exact kind_of_numbersOf h
  · cases h
    rfl

theorem kind_of_pathOf {v : Value} (h : pathOf v = .error error) : error.kind = .typeError := by
  unfold pathOf at h
  split at h
  · cases h
  · cases h
    rfl

theorem kind_of_mappingsOf : ∀ {items : List Value}, mappingsOf items = .error error →
    error.kind = .typeError := by
  intro items h
  fun_induction mappingsOf items with
  | case1 => cases h
  | case2 entries rest ih => exact ih (error_of_map h)
  | case3 other rest _ =>
    cases h
    rfl

theorem kind_of_rowsOf {v : Value} (h : rowsOf v = .error error) : error.kind = .typeError := by
  unfold rowsOf at h
  split at h
  · exact kind_of_mappingsOf h
  · cases h
    rfl

theorem kind_of_namesOf : ∀ {items : List Value}, namesOf items = .error error →
    error.kind = .typeError := by
  intro items h
  fun_induction namesOf items with
  | case1 => cases h
  | case2 s rest ih => exact ih (error_of_map h)
  | case3 other rest _ =>
    cases h
    rfl

theorem kind_of_headerOf {given : Option Value} {rows : List (List (String × Value))}
    (h : headerOf given rows = .error error) : error.kind = .typeError := by
  unfold headerOf at h
  split at h
  · exact kind_of_namesOf h
  · cases h
  · cases h
  · cases h
    rfl

/-- An argument that is there is found. -/
theorem argument_of_lt {arguments : List Value} {n : Nat} (h : n < arguments.length) :
    argument arguments n = .ok arguments[n] := by
  unfold argument
  rw [List.getElem?_eq_getElem h]

end Builtin

end TreeScript
