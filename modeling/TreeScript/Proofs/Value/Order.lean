import TreeScript.Proofs.Binary64.Order
import TreeScript.Proofs.Text.Order
import TreeScript.Value.Operation

/-!
# The order of values

Two numbers can be ordered, and so can two texts; no other pair of values can.  The four operators
of order read one comparison, `order?`, which turns round when its operands do, and which is `eq`
for exactly the values that the language takes to be equal.  So `<=` is `<` or `==`, and `>` and
`>=` are `<` and `<=` with their operands exchanged (`order_operators`).  NaN is ordered with no
number, and there all four are false.
-/

namespace TreeScript.Value

open Binary64

/-! ## 1. Comparisons -/

/-- **An operator between two values gives true.** -/
def Holds (op : BinaryOp) (a b : Value) : Prop := binary op a b = .ok (.boolean true)

/-- The values that can be ordered: two numbers, or two texts. -/
inductive Comparable : Value → Value → Prop where
  | numbers (x y : Float) : Comparable (.number x) (.number y)
  | texts (s t : String) : Comparable (.text s) (.text t)

/-- The operators of order. -/
def orderings : List BinaryOp := [.lt, .gt, .le, .ge]

/-- The order of two values, if they have one. -/
def order? : Value → Value → Option Ordering
  | .number x, .number y => compareNumbers x y
  | .text s, .text t => some (compareTexts s t)
  | _, _ => none

section Numbers

variable {x y : Float}

/-- Numbers with ranks are ordered by them. -/
theorem compareNumbers_of_rank {r r' : WithBot (WithTop Int)} (hx : (ofFloat x).rank? = some r)
    (hy : (ofFloat y).rank? = some r') : compareNumbers x y = some (compare r r') := by
  have hlt : x < y ↔ r < r' := by simp [lt_iff_rank, hx, hy]
  have heq : (x == y) = true ↔ r = r' := by simp [beq_iff_rank, hx, hy, eq_comm (a := r)]
  have hgt : y < x ↔ r' < r := by simp [lt_iff_rank, hx, hy]
  unfold compareNumbers
  simp only [hlt, heq, hgt]
  rcases lt_trichotomy r r' with h | rfl | h
  · rw [if_pos h, compare_lt_iff_lt.mpr h]
  · rw [if_neg (lt_irrefl r), if_pos rfl, compare_eq_iff_eq.mpr rfl]
  · rw [if_neg h.asymm, if_neg h.ne', if_pos h, compare_gt_iff_gt.mpr h]

/-- What has no rank has no order either. -/
theorem compareNumbers_eq_none (h : (ofFloat x).rank? = none ∨ (ofFloat y).rank? = none) :
    compareNumbers x y = none := by
  unfold compareNumbers
  rcases h with h | h <;> simp [lt_iff_rank, beq_iff_rank, h]

theorem compareNumbers_swap (x y : Float) :
    compareNumbers y x = (compareNumbers x y).map Ordering.swap := by
  cases hx : (ofFloat x).rank? with
  | none => rw [compareNumbers_eq_none (Or.inl hx), compareNumbers_eq_none (Or.inr hx)]; rfl
  | some r =>
    cases hy : (ofFloat y).rank? with
    | none => rw [compareNumbers_eq_none (Or.inl hy), compareNumbers_eq_none (Or.inr hy)]; rfl
    | some r' =>
      rw [compareNumbers_of_rank hx hy, compareNumbers_of_rank hy hx, Option.map_some,
        ← Std.OrientedOrd.eq_swap]

end Numbers

theorem compareTexts_eq (s t : String) : compareTexts s t = compare s t := rfl

variable {a b : Value}

/-- The order turns round with its operands. -/
theorem order?_swap (a b : Value) : order? b a = (order? a b).map Ordering.swap := by
  cases a <;> cases b <;> try rfl
  · exact compareNumbers_swap _ _
  · rw [order?, order?, compareTexts_eq, compareTexts_eq, Option.map_some,
      ← Std.OrientedOrd.eq_swap]

/-- Values that can be ordered are the same if neither comes first. -/
theorem same_iff_order? (h : Comparable a b) : a.same b = true ↔ order? a b = some .eq := by
  cases h with
  | numbers x y =>
    rw [order?, same]
    cases hx : (ofFloat x).rank? with
    | none =>
      rw [compareNumbers_eq_none (Or.inl hx), beq_iff_rank, hx]
      simp
    | some r =>
      cases hy : (ofFloat y).rank? with
      | none =>
        rw [compareNumbers_eq_none (Or.inr hy), beq_iff_rank, hy]
        simp
      | some r' =>
        rw [compareNumbers_of_rank hx hy, beq_iff_rank, hx, hy, Option.some_inj, compare_eq_iff_eq]
        simp [eq_comm]
  | texts s t =>
    rw [order?, compareTexts_eq, Option.some_inj, compare_eq_iff_eq, same, beq_iff_eq]

/-! ## 2. Operators -/

/-- What an operator asks of the order of its operands. -/
def test? : BinaryOp → Option (Ordering → Bool)
  | .eq => some Ordering.isEq
  | .lt => some Ordering.isLT
  | .gt => some Ordering.isGT
  | .le => some Ordering.isLE
  | .ge => some Ordering.isGE
  | _ => none

/-- Values that can be ordered pass a test or fail it. -/
theorem comparison_of_comparable (op : BinaryOp) (test : Ordering → Bool) (h : Comparable a b) :
    comparison op a b test = .ok (.boolean ((order? a b).any test)) := by
  cases h with
  | numbers x y => rfl
  | texts s t => rfl

/-- **Between values that can be ordered** an operator asks for their order, and equality does so
too. -/
theorem binary_of_comparable {op : BinaryOp} {test : Ordering → Bool} (htest : test? op = some test)
    (h : Comparable a b) : binary op a b = .ok (.boolean ((order? a b).any test)) := by
  cases op with
  | eq =>
    obtain rfl := Option.some.inj htest
    have hsame : a.same b = (order? a b).any Ordering.isEq := by
      rw [Bool.eq_iff_iff, same_iff_order? h]
      cases order? a b with
      | none => simp
      | some o => cases o <;> simp
    rw [binary, hsame]
  | lt | gt | le | ge =>
    obtain rfl := Option.some.inj htest
    exact comparison_of_comparable _ _ h
  | _ => cases htest

theorem holds_iff {op : BinaryOp} {test : Ordering → Bool} (htest : test? op = some test)
    (h : Comparable a b) : Holds op a b ↔ (order? a b).any test = true := by
  rw [Holds, binary_of_comparable htest h]
  simp

/-- **For all other values** an operator of order is an error of their kinds. -/
theorem binary_of_not_comparable {op : BinaryOp} (hop : op ∈ orderings) (h : ¬ Comparable a b) :
    binary op a b = .error (.typeError "number or text on both sides" (operandKinds op a b)) := by
  have hcomparison (test : Ordering → Bool) : comparison op a b test =
      .error (.typeError "number or text on both sides" (operandKinds op a b)) := by
    unfold comparison
    split
    · exact absurd (.numbers _ _) h
    · exact absurd (.texts _ _) h
    · rfl
  simp only [orderings, List.mem_cons, List.not_mem_nil, or_false] at hop
  rcases hop with rfl | rfl | rfl | rfl <;> exact hcomparison _

/-- For the operators of order there is a test. -/
theorem exists_test {op : BinaryOp} (hop : op ∈ orderings) : ∃ test, test? op = some test := by
  simp only [orderings, List.mem_cons, List.not_mem_nil, or_false] at hop
  rcases hop with rfl | rfl | rfl | rfl <;> exact ⟨_, rfl⟩

theorem Comparable.symm (h : Comparable a b) : Comparable b a := by
  cases h with
  | numbers x y => exact .numbers y x
  | texts s t => exact .texts t s

/-- The operator that tells one order from the two others. -/
def operatorOf : Ordering → BinaryOp
  | .lt => .lt
  | .eq => .eq
  | .gt => .gt

/-- Each of `<`, `==` and `>` holds in the order that it names and in no other. -/
theorem holds_operatorOf_iff (h : Comparable a b) (o : Ordering) :
    Holds (operatorOf o) a b ↔ order? a b = some o := by
  cases o with
  | lt => rw [operatorOf, holds_iff rfl h]; rcases order? a b with _ | _ | _ | _ <;> simp
  | eq => rw [operatorOf, holds_iff rfl h]; rcases order? a b with _ | _ | _ | _ <;> simp
  | gt => rw [operatorOf, holds_iff rfl h]; rcases order? a b with _ | _ | _ | _ <;> simp

theorem holds_le_iff (h : Comparable a b) :
    Holds .le a b ↔ Holds .lt a b ∨ Holds .eq a b := by
  rw [holds_iff rfl h, holds_iff rfl h, holds_iff rfl h]
  rcases order? a b with _ | _ | _ | _ <;> simp

theorem holds_gt_iff (h : Comparable a b) : Holds .gt a b ↔ Holds .lt b a := by
  rw [holds_iff rfl h, holds_iff rfl h.symm, order?_swap a b]
  rcases order? a b with _ | _ | _ | _ <;> simp

theorem holds_ge_iff (h : Comparable a b) : Holds .ge a b ↔ Holds .le b a := by
  rw [holds_iff rfl h, holds_iff rfl h.symm, order?_swap a b]
  rcases order? a b with _ | _ | _ | _ <;> simp

/-! ## 3. Texts -/

/-- **Of two texts exactly one order holds.** -/
theorem existsUnique_holds_text (s t : String) :
    ∃! op, op ∈ [BinaryOp.lt, .eq, .gt] ∧ Holds op (.text s) (.text t) := by
  have hholds (o : Ordering) : Holds (operatorOf o) (.text s) (.text t) ↔ compareTexts s t = o := by
    rw [holds_operatorOf_iff (.texts s t), order?, Option.some_inj]
  refine ⟨operatorOf (compareTexts s t), ⟨?_, (hholds _).mpr rfl⟩, ?_⟩
  · cases compareTexts s t <;> simp [operatorOf]
  · rintro op ⟨hmem, hop⟩
    obtain ⟨o, rfl⟩ : ∃ o, op = operatorOf o := by
      simp only [List.mem_cons, List.not_mem_nil, or_false] at hmem
      rcases hmem with rfl | rfl | rfl
      · exact ⟨.lt, rfl⟩
      · exact ⟨.eq, rfl⟩
      · exact ⟨.gt, rfl⟩
    rw [(hholds o).mp hop]

theorem holds_lt_text_iff (s t : String) : Holds .lt (.text s) (.text t) ↔ s < t := by
  rw [← operatorOf.eq_1, holds_operatorOf_iff (.texts s t), order?, compareTexts_eq,
    Option.some_inj, compare_lt_iff_lt]

/-! ## 4. The order -/

/-- **The operators of order agree with one another and with equality.**  Of two texts exactly one
of `<`, `==` and `>` gives true, `<` is transitive on texts, and it is the lexicographic order of
their code points, which is the order of the bytes of their UTF-8.  Between two texts, and between
two numbers, NaN included, `<=` is `<` or `==`, `>=` is `<=` with its operands exchanged and `>` is
`<` with its operands exchanged.  All other pairs of values are a type error for the four
operators of order, and only they are; `==` and `!=` are no error for any pair, and each is the
opposite of the other. -/
theorem order_operators :
    (∀ s t u : String,
      (∃! op, op ∈ [BinaryOp.lt, .eq, .gt] ∧ Holds op (.text s) (.text t)) ∧
      (Holds .lt (.text s) (.text t) → Holds .lt (.text t) (.text u) →
        Holds .lt (.text s) (.text u)) ∧
      (Holds .lt (.text s) (.text t) ↔ Text.codes s < Text.codes t) ∧
      (Text.codes s < Text.codes t ↔ Text.bytes s < Text.bytes t)) ∧
    ∀ a b : Value,
      (Comparable a b →
        (Holds .le a b ↔ Holds .lt a b ∨ Holds .eq a b) ∧
        (Holds .ge a b ↔ Holds .le b a) ∧
        (Holds .gt a b ↔ Holds .lt b a)) ∧
      (∀ op ∈ orderings,
        (Comparable a b → ∃ r : Bool, binary op a b = .ok (.boolean r)) ∧
        (¬ Comparable a b → binary op a b =
          .error (.typeError "number or text on both sides" (operandKinds op a b)))) ∧
      ∃ r : Bool, binary .eq a b = .ok (.boolean r) ∧ binary .ne a b = .ok (.boolean !r) := by
  refine ⟨fun s t u => ⟨existsUnique_holds_text s t, ?_, ?_, ?_⟩, fun a b => ⟨?_, ?_, ?_⟩⟩
  · simp only [holds_lt_text_iff]
    exact lt_trans
  · rw [holds_lt_text_iff, Text.lt_iff_codes]
  · rw [← Text.lt_iff_codes, Text.lt_iff_bytes]
  · exact fun h => ⟨holds_le_iff h, holds_ge_iff h, holds_gt_iff h⟩
  · intro op hop
    obtain ⟨test, htest⟩ := exists_test hop
    exact ⟨fun h => ⟨_, binary_of_comparable htest h⟩, binary_of_not_comparable hop⟩
  · exact ⟨a.same b, rfl, rfl⟩

/-- The text `"z"` is below the replacement character, which is below an emoji, although in UTF-16
the emoji would come first; NaN is not below or equal to one, since it is neither; and booleans have
no order. -/
theorem order_operators_planes :
    (Holds .lt (.text "z") (.text "\uFFFD") ∧ Holds .lt (.text "\uFFFD") (.text "😀") ∧
      Holds .lt (.text "z") (.text "😀")) ∧
    Comparable (.number (0 / 0)) (.number 1) ∧ ¬ Holds .le (.number (0 / 0)) (.number 1) ∧
    BinaryOp.ge ∈ orderings ∧ ¬ Comparable (.boolean true) (.boolean false) ∧
    binary .ge (.boolean true) (.boolean false) =
      .error (.typeError "number or text on both sides" "boolean >= boolean") := by
  obtain ⟨htexts, hvalues⟩ := order_operators
  obtain ⟨-, htrans, hfirst, -⟩ := htexts "z" "\uFFFD" "😀"
  obtain ⟨-, -, hsecond, -⟩ := htexts "\uFFFD" "😀" "z"
  have hz : Holds .lt (.text "z") (.text "\uFFFD") := hfirst.mpr (by decide +kernel)
  have hemoji : Holds .lt (.text "\uFFFD") (.text "😀") := hsecond.mpr (by decide +kernel)
  have hnan : Comparable (.number (0 / 0)) (.number 1) := .numbers _ _
  have hbooleans : ¬ Comparable (.boolean true) (.boolean false) := nofun
  have hge : BinaryOp.ge ∈ orderings := by decide
  have hnone : order? (.number (0 / 0)) (.number 1) = none := by decide +kernel
  have hkinds : operandKinds .ge (.boolean true) (.boolean false) = "boolean >= boolean" := by
    decide +kernel
  refine ⟨⟨hz, hemoji, htrans hz hemoji⟩, hnan, ?_, hge, hbooleans, ?_⟩
  · rw [((hvalues _ _).1 hnan).1, holds_iff rfl hnan, holds_iff rfl hnan, hnone]
    simp
  · rw [((hvalues _ _).2.1 .ge hge).2 hbooleans, hkinds]

end TreeScript.Value
