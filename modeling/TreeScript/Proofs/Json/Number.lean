import Mathlib
import TreeScript.Json.Printer
import TreeScript.Json.Reader
import TreeScript.Proofs.Decimal.Digits
import TreeScript.Proofs.Decimal.Shortest

/-!
# Numbers are read as they were written

A finite double is written with its shortest digits, laid out in one of four ways: with zeros up to
the point, with the point among them, with zeros after the point, or with a power of ten.  However
it is laid out, the reader arrives at a decimal that stands for the same number, and that decimal
is rounded to the double: `readLeaf_write_double`.  An integer is written without point and power
of ten, by which the reader tells it from a double: `readLeaf_writeInteger`.

Neither holds before every text: a digit, a point or a power of ten would be read as a part of the
number.  What may follow is `Separated`.
-/

namespace TreeScript.Json

/-- A text that a numeral before it does not go on into. -/
def Separated (rest : List Char) : Prop :=
  ∀ c ∈ rest.head?, c.isDigit = false ∧ c ≠ '.' ∧ c ≠ 'e' ∧ c ≠ 'E'

variable {negative : Bool} {whole fraction ds rest : List Char} {a : Nat} {e : Int}

/-! ## 1. The parts of a numeral -/

theorem spanDigits_digitsOfNat (n : Nat) (hrest : Separated rest) :
    Numeral.spanDigits (Decimal.digitsOfNat n ++ rest) = (Decimal.digitsOfNat n, rest) :=
  Numeral.spanDigits_append (fun _ => Decimal.isDigit_of_mem_digitsOfNat)
    fun c hc => (hrest c hc).1

/-- Digits only. -/
theorem readFraction_whole (hrest : Separated rest) :
    readFraction negative whole rest = readInteger negative (Decimal.natOfDigits whole) rest := by
  unfold readFraction
  cases rest with
  | nil => simp
  | cons c rest =>
    obtain ⟨-, hpoint, hlower, hupper⟩ := hrest c rfl
    dsimp only
    split
    · rename_i heq
      exact absurd (List.cons.inj heq).1 hpoint
    · simp [hlower, hupper]

/-- A point and digits. -/
theorem readFraction_point (hdigits : ∀ c ∈ fraction, c.isDigit = true) (hne : fraction ≠ [])
    (hrest : Separated rest) :
    readFraction negative whole ('.' :: (fraction ++ rest)) =
      readDouble ⟨negative, Decimal.natOfDigits (whole ++ fraction), -fraction.length⟩ rest := by
  have hspan := Numeral.spanDigits_append hdigits fun c hc => (hrest c hc).1
  have hempty : fraction.isEmpty = false := by simpa using hne
  unfold readFraction
  simp only [hspan, hempty]
  cases rest with
  | nil => simp
  | cons c rest =>
    obtain ⟨-, -, hlower, hupper⟩ := hrest c rfl
    simp [hlower, hupper]

/-- The power of ten that is written after the digits. -/
def writePower (e : Int) : List Char :=
  'e' :: (if e < 0 then '-' else '+') :: Decimal.digitsOfNat e.natAbs

/-- A power of ten. -/
theorem readFraction_power (e : Int) (hrest : Separated rest) :
    readFraction negative whole (writePower e ++ rest) =
      readDouble ⟨negative, Decimal.natOfDigits whole, e⟩ rest := by
  have hempty : (Decimal.digitsOfNat e.natAbs).isEmpty = false := by
    simpa using Decimal.digitsOfNat_ne_nil e.natAbs
  unfold readFraction writePower
  simp only [List.cons_append, Numeral.splitSign_write, spanDigits_digitsOfNat _ hrest, hempty,
    Decimal.natOfDigits_digitsOfNat, Numeral.signed_natAbs]
  simp

/-- A point, digits and a power of ten. -/
theorem readFraction_point_power (e : Int) (hdigits : ∀ c ∈ fraction, c.isDigit = true)
    (hne : fraction ≠ []) (hrest : Separated rest) :
    readFraction negative whole ('.' :: (fraction ++ (writePower e ++ rest))) =
      readDouble ⟨negative, Decimal.natOfDigits (whole ++ fraction), e - fraction.length⟩ rest := by
  have hspan : Numeral.spanDigits (fraction ++ (writePower e ++ rest)) =
      (fraction, writePower e ++ rest) := by
    refine Numeral.spanDigits_append hdigits fun c hc => ?_
    cases hc
    rfl
  have hempty : fraction.isEmpty = false := by simpa using hne
  have hempty' : (Decimal.digitsOfNat e.natAbs).isEmpty = false := by
    simpa using Decimal.digitsOfNat_ne_nil e.natAbs
  unfold readFraction
  simp only [hspan, hempty]
  unfold writePower
  simp only [List.cons_append, Numeral.splitSign_write, spanDigits_digitsOfNat _ hrest, hempty',
    Decimal.natOfDigits_digitsOfNat, Numeral.signed_natAbs]
  simp

/-- Digits that may stand before the point: at least one, and no zero before others. -/
structure IsWhole (ds : List Char) : Prop where
  digits : ∀ c ∈ ds, c.isDigit = true
  nonempty : ds ≠ []
  leading : ds.head? = some '0' → ds = ['0']

theorem isWhole_of_head? (hdigits : ∀ c ∈ ds, c.isDigit = true) (hne : ds ≠ [])
    (hhead : ds.head? ≠ some '0') : IsWhole ds :=
  ⟨hdigits, hne, fun h => absurd h hhead⟩

theorem isWhole_digitsOfNat (n : Nat) : IsWhole (Decimal.digitsOfNat n) := by
  refine ⟨fun _ => Decimal.isDigit_of_mem_digitsOfNat, Decimal.digitsOfNat_ne_nil n, fun h => ?_⟩
  rcases Nat.eq_zero_or_pos n with rfl | hn
  · rfl
  · exact absurd h (Decimal.head?_digitsOfNat hn)

theorem readUnsigned_whole (hwhole : IsWhole whole)
    (hrest : ∀ c ∈ rest.head?, c.isDigit = false) :
    readUnsigned negative (whole ++ rest) = readFraction negative whole rest := by
  unfold readUnsigned
  rw [Numeral.spanDigits_append hwhole.digits hrest]
  dsimp only
  split
  · exact absurd rfl hwhole.nonempty
  · cases hwhole.leading rfl
  · rfl

theorem readUnsigned_point (hwhole : IsWhole whole) (hdigits : ∀ c ∈ fraction, c.isDigit = true)
    (hne : fraction ≠ []) (hrest : Separated rest) :
    readUnsigned negative (whole ++ '.' :: fraction ++ rest) =
      readDouble ⟨negative, Decimal.natOfDigits (whole ++ fraction), -fraction.length⟩ rest := by
  rw [List.append_assoc, readUnsigned_whole hwhole fun c hc => by cases hc; rfl,
    List.cons_append, readFraction_point hdigits hne hrest]

/-! ## 2. The four layouts -/

/-- Digits of a positive number, as far as their layout depends on them. -/
structure IsDigits (a : Nat) (ds : List Char) : Prop where
  digits : ∀ c ∈ ds, c.isDigit = true
  nonempty : ds ≠ []
  leading : ds.head? ≠ some '0'
  value : Decimal.natOfDigits ds = a

theorem isDigits_digitsOfNat (ha : 0 < a) : IsDigits a (Decimal.digitsOfNat a) :=
  ⟨fun _ => Decimal.isDigit_of_mem_digitsOfNat, Decimal.digitsOfNat_ne_nil a,
    Decimal.head?_digitsOfNat ha, Decimal.natOfDigits_digitsOfNat a⟩

/-- With zeros up to the point. -/
theorem readUnsigned_zeros (h : IsDigits a ds) (k : Nat) (hrest : Separated rest) :
    ∃ d : Decimal, d.negative = negative ∧ d.units = Decimal.units ⟨negative, a, k⟩ ∧
      readUnsigned negative (ds ++ Notation.zeros k ++ ['.', '0'] ++ rest) = readDouble d rest := by
  have hwhole : IsWhole (ds ++ Notation.zeros k) := by
    refine isWhole_of_head? (fun c hc => ?_) (by simp [h.nonempty]) ?_
    · rcases List.mem_append.mp hc with hc | hc
      · exact h.digits c hc
      · exact Decimal.isDigit_of_mem_zeros hc
    · rw [List.head?_append_of_ne_nil _ h.nonempty]
      exact h.leading
  have hzeros : ds ++ Notation.zeros k ++ ['0'] = ds ++ Notation.zeros (k + 1) := by
    rw [List.append_assoc]
    exact congrArg _ List.replicate_succ'.symm
  have hpower : -(['0'].length : Int) = k - (k + 1 : Nat) := by simp
  refine ⟨_, rfl, ?_, readUnsigned_point hwhole (by simp) (by simp) hrest⟩
  rw [hzeros, Decimal.natOfDigits_append_zeros, h.value, hpower]
  exact Decimal.units_scale _ _ _ _ _

/-- With digits on both sides of the point. -/
theorem readUnsigned_pointed (h : Decimal.IsPointed a e whole fraction) (hrest : Separated rest) :
    readUnsigned negative (whole ++ '.' :: fraction ++ rest) = readDouble ⟨negative, a, e⟩ rest := by
  have hwhole : IsWhole whole := ⟨h.whole_digits, h.whole_ne_nil, h.leading⟩
  rw [readUnsigned_point hwhole h.fraction_digits h.fraction_ne_nil hrest, h.value, h.power]

/-- With a power of ten. -/
theorem readUnsigned_scientific (h : IsDigits a ds) (hrest : Separated rest) :
    readUnsigned negative (Notation.scientific ds (e + ds.length - 1) ++ rest) =
      readDouble ⟨negative, a, e⟩ rest := by
  unfold Notation.scientific
  match ds with
  | [] => exact absurd rfl h.nonempty
  | [only] =>
    have hwhole : IsWhole [only] := isWhole_of_head? h.digits h.nonempty h.leading
    have hpower : e + ([only].length : Nat) - 1 = e := by simp
    rw [List.append_assoc, hpower, readUnsigned_whole hwhole fun c hc => by cases hc; rfl]
    refine (readFraction_power e hrest).trans ?_
    rw [h.value]
  | first :: second :: others =>
    have hwhole : IsWhole [first] :=
      isWhole_of_head? (fun c hc => h.digits c (by simp_all)) (by simp) h.leading
    have hdigits : ∀ c ∈ second :: others, c.isDigit = true :=
      fun c hc => h.digits c (List.mem_cons_of_mem _ hc)
    have hpower : e + ((first :: second :: others).length : Nat) - 1 -
        (second :: others).length = e := by
      simp only [List.length_cons]
      omega
    have hlayout : first :: '.' :: second :: others = [first] ++ '.' :: (second :: others) := rfl
    dsimp only
    rw [hlayout, List.append_assoc, List.append_assoc,
      readUnsigned_whole hwhole fun c hc => by cases hc; rfl]
    refine (readFraction_point_power _ hdigits (List.cons_ne_nil _ _) hrest).trans ?_
    rw [List.singleton_append, h.value, hpower]

/-- **However digits are laid out**, what is read stands for the same number. -/
theorem readUnsigned_writeDecimal (negative : Bool) (e : Int) (ha : 0 < a)
    (hrest : Separated rest) :
    ∃ d : Decimal, d.negative = negative ∧ d.units = Decimal.units ⟨negative, a, e⟩ ∧
      readUnsigned negative (Notation.json.writeDecimal a e ++ rest) = readDouble d rest := by
  have h := isDigits_digitsOfNat ha
  unfold Notation.writeDecimal
  dsimp only
  split
  · rcases Int.lt_or_le e 0 with he | he
    · obtain ⟨whole, fraction, hpointed, hlayout⟩ :=
        Decimal.exists_isPointed Notation.json.hasPoint a he
      rw [hlayout]
      exact ⟨_, rfl, rfl, readUnsigned_pointed hpointed hrest⟩
    · obtain ⟨k, rfl⟩ := Int.eq_ofNat_of_zero_le he
      unfold Notation.positional
      rw [if_pos he]
      exact readUnsigned_zeros h k hrest
  · exact ⟨_, rfl, rfl, readUnsigned_scientific h hrest⟩

/-! ## 3. Doubles and integers -/

theorem readDouble_eq {d : Decimal} {m p : Nat} (h : d.toBinary64 = .finite negative m p) :
    readDouble d rest = .ok (.double (Binary64.finite negative m p).toFloat, rest) := by
  unfold readDouble
  rw [h]

theorem readUnsigned_writeMagnitude {m p : Nat} (negative : Bool)
    (hparts : Binary64.IsParts m p) (hrest : Separated rest) :
    readUnsigned negative (Notation.json.writeMagnitude m p ++ rest) =
      .ok (.double (Binary64.finite negative m p).toFloat, rest) := by
  unfold Notation.writeMagnitude
  split
  · rename_i hm
    subst hm
    obtain rfl : p = 0 := hparts.normal.resolve_right (by omega)
    have hdigits : ∀ c ∈ Decimal.digitsOfNat 0, c.isDigit = true :=
      fun _ => Decimal.isDigit_of_mem_digitsOfNat
    refine (readUnsigned_point (isWhole_digitsOfNat 0) hdigits (by decide) hrest).trans ?_
    exact readDouble_eq rfl
  · rename_i hm
    have hpos : 0 < m := Nat.pos_of_ne_zero hm
    have hcoefficient : 0 < (Decimal.shortest .even m p).1 := Decimal.shortest_pos .even hpos
    obtain ⟨d, hsign, hunits, hread⟩ := readUnsigned_writeDecimal negative
      (Decimal.shortest .even m p).2 hcoefficient hrest
    refine Eq.trans hread (readDouble_eq ?_)
    rw [← hsign] at hunits ⊢
    exact Decimal.toBinary64_of_units .even hparts hpos hunits

/-- A numeral is known by its first character. -/
theorem readLeaf_of_readUnsigned {cs : List Char} {r : Json × List Char}
    (h : readUnsigned negative cs = .ok r) :
    readLeaf ((if negative then ['-'] else []) ++ cs) = .ok r := by
  cases negative with
  | true => exact h
  | false =>
    cases cs with
    | nil => cases h
    | cons c cs =>
      by_cases hc : c.isDigit = true
      · have hquote : c ≠ '"' := by
          rintro rfl
          cases hc
        have hminus : c ≠ '-' := by
          rintro rfl
          cases hc
        simp [readLeaf, hquote, hminus, hc, h]
      · simp [readUnsigned, Numeral.spanDigits, hc] at h

/-- **A finite double is read as it was written.** -/
theorem readLeaf_write_double {x : Float} {m p : Nat}
    (h : Binary64.ofFloat x = .finite negative m p) (hrest : Separated rest) :
    readLeaf (Notation.json.write x ++ rest) = .ok (.double x, rest) := by
  have hread := readUnsigned_writeMagnitude negative (Binary64.isParts_of_ofFloat h) hrest
  rw [Binary64.toFloat_of_ofFloat h] at hread
  unfold Notation.write
  rw [h]
  dsimp only
  rw [List.append_assoc]
  exact readLeaf_of_readUnsigned hread

/-- **An integer of 64 bits is read as it was written.** -/
theorem readLeaf_writeInteger {i : Int} (hlow : -(Nat.pow 2 63 : Nat) ≤ i)
    (hhigh : i < UInt64.size) (hrest : Separated rest) :
    readLeaf (writeInteger i ++ rest) = .ok (.integer i, rest) := by
  have hread : readUnsigned (decide (i < 0)) (Decimal.digitsOfNat i.natAbs ++ rest) =
      .ok (.integer i, rest) := by
    rw [readUnsigned_whole (isWhole_digitsOfNat _) fun c hc => (hrest c hc).1,
      readFraction_whole hrest, Decimal.natOfDigits_digitsOfNat]
    unfold readInteger
    by_cases hi : i < 0
    · have habs : 0 < i.natAbs ∧ i.natAbs ≤ Nat.pow 2 63 := by omega
      have hback : -(i.natAbs : Int) = i := by omega
      rw [decide_eq_true hi, if_neg (by simp), if_pos (by simpa using habs), hback]
    · have habs : i.natAbs < UInt64.size := by omega
      have hback : (i.natAbs : Int) = i := by omega
      rw [decide_eq_false hi, if_pos (by simpa using habs), hback]
  have hleaf := readLeaf_of_readUnsigned hread
  unfold writeInteger
  rw [List.append_assoc]
  simpa using hleaf

end TreeScript.Json
