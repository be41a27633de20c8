import TreeScript.Proofs.Binary64.Order
import TreeScript.Run.Builtin

/-!
# The extrema of a sequence

`max` and `min` go through a sequence of numbers once and keep the better of two numbers, where any
number is better than NaN.  Put NaN below all numbers, and both of them keep the higher of two
**places**: for `max` this is the rank of the number, for `min` the rank in the opposite order.  So
the place of the result is the highest one of the sequence, whatever the order of the sequence is.
Numbers at the same place are equal as numbers, although the two zeros are different doubles; this
is why the extremum of a sequence and of its permutations are equal, but need not be the same.
-/

namespace TreeScript

/-! ## 1. Places -/

namespace Binary64

section Places

variable {ρ : Type} [LinearOrder ρ] {place : Float → WithBot ρ} {beyond : Float → Float → Prop}

/-- **Places for numbers**: NaN is at the bottom, equal numbers are at the same place, and a number
goes beyond another if its place is higher. -/
structure Places (place : Float → WithBot ρ) (beyond : Float → Float → Prop) : Prop where
  bot_iff (x : Float) : place x = ⊥ ↔ x.isNaN = true
  beq_iff (x y : Float) : (x == y) = true ↔ place x = place y ∧ place x ≠ ⊥
  beyond_iff (x y : Float) : beyond x y ↔ place y ≠ ⊥ ∧ place y < place x

/-- **The better of two numbers** is at the higher of their places. -/
theorem Places.place_better (h : Places place beyond) [DecidableRel beyond] (x y : Float) :
    place (if !(x == x) then y else if !(y == y) then x else if beyond y x then y else x) =
      max (place x) (place y) := by
  have hself (z : Float) : (!(z == z)) = true ↔ place z = ⊥ := by
    rw [Bool.not_eq_true', ← Bool.not_eq_true, h.beq_iff]
    simp
  split_ifs with hx hy hxy
  · rw [(hself x).mp hx, max_bot_left]
  · rw [(hself y).mp hy, max_bot_right]
  · rw [max_eq_right ((h.beyond_iff y x).mp hxy).2.le]
  · rw [h.beyond_iff, ne_eq, ← hself, not_and, not_lt] at hxy
    rw [max_eq_left (hxy hx)]

/-- A number that is at the highest place of a list, where some element is too. -/
structure Tops (place : Float → WithBot ρ) (xs : List Float) (m : Float) : Prop where
  le : ∀ x ∈ xs, place x ≤ place m
  reached : ∃ x ∈ xs, place m = place x

/-- **What a fold has kept is at the highest place that it has come by.** -/
theorem tops_foldl {pick : Float → Float → Float}
    (hpick : ∀ x y, place (pick x y) = max (place x) (place y)) (xs : List Float) (x : Float) :
    Tops place (x :: xs) (xs.foldl pick x) := by
  induction xs generalizing x with
  | nil => exact ⟨by simp, x, List.mem_cons_self, rfl⟩
  | cons next rest ih =>
    obtain ⟨hle, z, hz, hplace⟩ := ih (pick x next)
    rw [List.foldl_cons]
    have hkept : max (place x) (place next) ≤ place (rest.foldl pick (pick x next)) := by
      rw [← hpick]
      exact hle _ List.mem_cons_self
    refine ⟨?_, ?_⟩
    · simp only [List.forall_mem_cons]
      exact ⟨(le_max_left _ _).trans hkept, (le_max_right _ _).trans hkept,
        fun y hy => hle y (List.mem_cons_of_mem _ hy)⟩
    · rw [hplace]
      rcases List.mem_cons.mp hz with rfl | hz
      · rcases max_choice (place x) (place next) with hmax | hmax
        · exact ⟨x, by simp, (hpick x next).trans hmax⟩
        · exact ⟨next, by simp, (hpick x next).trans hmax⟩
      · exact ⟨z, by simp [hz], rfl⟩

/-- The highest place does not depend on the order. -/
theorem Tops.le_of_subset {xs ys : List Float} {m m' : Float} (htops : Tops place xs m)
    (htops' : Tops place ys m') (hsub : xs ⊆ ys) : place m ≤ place m' := by
  obtain ⟨x, hx, hplace⟩ := htops.reached
  rw [hplace]
  exact htops'.le x (hsub hx)

theorem Tops.beq_or_nan {xs ys : List Float} {m m' : Float} (h : Places place beyond)
    (htops : Tops place xs m) (htops' : Tops place ys m') (hperm : xs.Perm ys) :
    (m == m') = true ∨ m.isNaN = true ∧ m'.isNaN = true := by
  have hplace : place m = place m' := le_antisymm (htops.le_of_subset htops' hperm.subset)
    (htops'.le_of_subset htops hperm.symm.subset)
  rw [h.beq_iff, ← h.bot_iff, ← h.bot_iff, ← hplace]
  by_cases hbot : place m = ⊥
  · exact Or.inr ⟨hbot, hbot⟩
  · exact Or.inl ⟨rfl, hbot⟩

end Places

/-- The rank of a number, with NaN below all ranks. -/
def height (x : Float) : WithBot (WithBot (WithTop Int)) := (ofFloat x).rank?

/-- The rank of a number in the opposite order, with NaN below all ranks again. -/
def depth (x : Float) : WithBot (WithBot (WithTop Int))ᵒᵈ := (height x).map OrderDual.toDual

theorem height_of_rank {x : Float} {r : WithBot (WithTop Int)} (h : (ofFloat x).rank? = some r) :
    height x = (r : WithBot (WithBot (WithTop Int))) := h

theorem height_eq_bot {x : Float} (h : (ofFloat x).rank? = none) : height x = ⊥ := h

theorem places_height : Places height fun x y => y < x where
  bot_iff x := by rw [isNaN_iff_rank]; rfl
  beq_iff x y := by
    rw [beq_iff_rank]
    cases hx : (ofFloat x).rank? with
    | none => simp [height_eq_bot hx]
    | some r =>
      cases hy : (ofFloat y).rank? with
      | none => simp [height_eq_bot hy]
      | some r' => simp [height_of_rank hx, height_of_rank hy, eq_comm]
  beyond_iff x y := by
    rw [lt_iff_rank]
    cases hy : (ofFloat y).rank? with
    | none => simp [height_eq_bot hy]
    | some r =>
      cases hx : (ofFloat x).rank? with
      | none => simp [height_eq_bot hx]
      | some r' => simp [height_of_rank hx, height_of_rank hy]

theorem places_depth : Places depth fun x y => x < y where
  bot_iff x := by rw [isNaN_iff_rank, depth, WithBot.map_eq_bot_iff]; rfl
  beq_iff x y := by
    rw [places_height.beq_iff, depth, depth]
    cases height x using WithBot.recBotCoe <;> cases height y using WithBot.recBotCoe <;> simp
  beyond_iff x y := by
    rw [places_height.beyond_iff, depth, depth]
    cases height x using WithBot.recBotCoe <;> cases height y using WithBot.recBotCoe <;> simp

end Binary64

namespace Builtin

open Binary64

/-! ## 2. Calls -/

/-- **What an extremum of numbers has to be**: if not all of them are NaN, a number equal to one of
them that none goes beyond, and NaN otherwise. -/
structure IsExtremum (beyond : Float → Float → Prop) (xs : List Float) (m : Float) : Prop where
  reached : (∃ x ∈ xs, x.isNaN = false) → ∃ x ∈ xs, (m == x) = true
  unsurpassed : (∃ x ∈ xs, x.isNaN = false) → ∀ x ∈ xs, ¬ beyond x m
  nan : (∀ x ∈ xs, x.isNaN = true) → m.isNaN = true

/-- **A function that gives the extremum of a sequence**, whatever the order of the sequence is:
absence for none, and an error if not all elements are numbers. -/
structure TakesExtremum (b : Builtin) (beyond : Float → Float → Prop) : Prop where
  nonempty (xs : List Float) (st : State) : xs ≠ [] →
    ∃ m, b.call [.sequence (xs.map .number)] st = .done (.number m) st ∧ IsExtremum beyond xs m
  permuted (xs ys : List Float) (st : State) (m : Float) : xs.Perm ys →
    b.call [.sequence (xs.map .number)] st = .done (.number m) st →
    ∃ m', b.call [.sequence (ys.map .number)] st = .done (.number m') st ∧
      ((m == m') = true ∨ m.isNaN = true ∧ m'.isNaN = true)
  empty (st : State) : b.call [.sequence []] st = .done .absence st
  refused (items : List Value) (st : State) : (∃ v ∈ items, v.number? = none) →
    ∃ first, items.find? (fun v => v.number?.isNone) = some first ∧
      b.call [.sequence items] st = .failed (.typeError "number" first.typeName) st

theorem numbersOf_map : ∀ xs : List Float, numbersOf (xs.map .number) = .ok xs
  | [] => rfl
  | x :: rest => by
    rw [List.map_cons, numbersOf, numbersOf_map rest]
    rfl

/-- The first element that is no number is the one that is refused. -/
theorem numbersOf_eq_error {first : Value} : ∀ {items : List Value},
    items.find? (fun v => v.number?.isNone) = some first →
      numbersOf items = .error (.typeError "number" first.typeName)
  | [], h => nomatch h
  | v :: rest, h => by
    rw [List.find?_cons] at h
    cases v with
    | number x =>
      rw [numbersOf, numbersOf_eq_error h]
      rfl
    | _ =>
      obtain rfl := Option.some.inj h
      rfl

section Extremum

variable {ρ : Type} [LinearOrder ρ] {place : Float → WithBot ρ} {beyond : Float → Float → Prop}
  {pick : Float → Float → Float} {xs : List Float} {m : Float}

/-- What is at the highest place is an extremum. -/
theorem isExtremum_of_tops (h : Places place beyond) (htops : Tops place xs m) :
    IsExtremum beyond xs m := by
  obtain ⟨hle, y, hy, hplace⟩ := htops
  refine ⟨?_, ?_, ?_⟩
  · rintro ⟨x, hx, hnumber⟩
    refine ⟨y, hy, (h.beq_iff m y).mpr ⟨hplace, fun hbot => ?_⟩⟩
    have hx' : place x = ⊥ := le_bot_iff.mp (hbot ▸ hle x hx)
    rw [(h.bot_iff x).mp hx'] at hnumber
    exact Bool.noConfusion hnumber
  · rintro - x hx hbeyond
    exact (hle x hx).not_gt ((h.beyond_iff x m).mp hbeyond).2
  · intro hnan
    rw [← h.bot_iff, hplace, h.bot_iff]
    exact hnan y hy

/-- The extremum of some numbers is at the highest place of them. -/
theorem exists_extremum (hpick : ∀ x y, place (pick x y) = place x ⊔ place y) (hne : xs ≠ []) :
    ∃ m, extremum pick xs = .number m ∧ Tops place xs m := by
  cases xs with
  | nil => exact absurd rfl hne
  | cons x rest =>
    exact ⟨rest.foldl pick x, rfl, tops_foldl hpick rest x⟩

/-- **A function that folds for the higher place takes the extremum.** -/
theorem takesExtremum {b : Builtin} (h : Places place beyond)
    (hpick : ∀ x y, place (pick x y) = place x ⊔ place y)
    (hcall : ∀ v st, b.call [v] st = (do
      let xs ← Action.ofResult (numbers v)
      return extremum pick xs : Action Value) st) : TakesExtremum b beyond := by
  have hnumbers (xs : List Float) (st : State) :
      b.call [.sequence (xs.map .number)] st = .done (extremum pick xs) st := by
    rw [hcall, numbers, numbersOf_map]
    rfl
  refine ⟨?_, ?_, hnumbers [], ?_⟩
  · intro xs st hne
    obtain ⟨m, hm, htops⟩ := exists_extremum hpick hne
    exact ⟨m, by rw [hnumbers, hm], isExtremum_of_tops h htops⟩
  · intro xs ys st m hperm hm
    rw [hnumbers] at hm
    have hne : xs ≠ [] := by
      rintro rfl
      cases hm
    have hne' : ys ≠ [] := by
      rintro rfl
      exact hne hperm.eq_nil
    obtain ⟨n, hn, htops⟩ := exists_extremum hpick hne
    obtain ⟨m', hm', htops'⟩ := exists_extremum hpick hne'
    obtain rfl : n = m := by
      rw [hn] at hm
      cases hm
      rfl
    exact ⟨m', by rw [hnumbers, hm'], htops.beq_or_nan h htops' hperm⟩
  · rintro items st ⟨v, hv, hnumber⟩
    obtain ⟨first, hfirst⟩ : ∃ first, items.find? (fun v => v.number?.isNone) = some first := by
      rw [← Option.isSome_iff_exists, List.find?_isSome]
      exact ⟨v, hv, by rw [hnumber]; rfl⟩
    refine ⟨first, hfirst, ?_⟩
    rw [hcall, numbers, numbersOf_eq_error hfirst]
    rfl

end Extremum

/-- **`max` and `min` give the extrema of a sequence, whatever its order is.**  If some element of a
sequence of numbers is not NaN, the result is equal to an element, and no element is greater
(for `min`, less); if all are NaN it is NaN.  For a permutation it is an equal number, or NaN again.
The empty sequence gives absence, and a sequence with an element that is no number is a type error
of the first such element, wherever it stands. -/
theorem max_min_extrema :
    TakesExtremum .max (fun x m => m < x) ∧ TakesExtremum .min (fun x m => x < m) :=
  ⟨takesExtremum places_height places_height.place_better fun _ _ => rfl,
    takesExtremum places_depth places_depth.place_better fun _ _ => rfl⟩

/-- Two zeros and two between two NaN. -/
def betweenNaN : List Float := [0 / 0, -0.0, 2, 0, 0 / 0]

/-- Two NaN at the ends do not hide the greatest number, nor does the order decide which number is
the least; and among numbers a text is refused before a boolean. -/
theorem max_min_extrema_betweenNaN :
    (∃ x ∈ betweenNaN, x.isNaN = false) ∧ betweenNaN.Perm betweenNaN.reverse ∧
      (∃ m, max.call [.sequence (betweenNaN.map .number)] {} = .done (.number m) {} ∧
        (∃ x ∈ betweenNaN, (m == x) = true) ∧ ∀ x ∈ betweenNaN, ¬ m < x) ∧
      (∃ m m', min.call [.sequence (betweenNaN.map .number)] {} = .done (.number m) {} ∧
        min.call [.sequence (betweenNaN.reverse.map .number)] {} = .done (.number m') {} ∧
        ((m == m') = true ∨ m.isNaN = true ∧ m'.isNaN = true)) ∧
      max.call [.sequence [.number 1, .text "x", .boolean true]] {} =
        .failed (.typeError "number" "text") {} := by
  obtain ⟨hmax, hmin⟩ := max_min_extrema
  have hne : betweenNaN ≠ [] := nofun
  have hnumber : ∃ x ∈ betweenNaN, x.isNaN = false := by decide +kernel
  have hperm : betweenNaN.Perm betweenNaN.reverse := (List.reverse_perm _).symm
  obtain ⟨m, hm, hextremum⟩ := hmax.nonempty betweenNaN {} hne
  obtain ⟨n, hn, -⟩ := hmin.nonempty betweenNaN {} hne
  obtain ⟨n', hn', hequal⟩ := hmin.permuted betweenNaN betweenNaN.reverse {} n hperm hn
  obtain ⟨first, hfirst, hrefused⟩ :=
    hmax.refused [.number 1, .text "x", .boolean true] {} ⟨.text "x", by simp, rfl⟩
  obtain rfl : Value.text "x" = first := Option.some.inj hfirst
  exact ⟨hnumber, hperm, ⟨m, hm, hextremum.reached hnumber, hextremum.unsurpassed hnumber⟩,
    ⟨n, n', hn, hn', hequal⟩, hrefused⟩

end Builtin

end TreeScript
