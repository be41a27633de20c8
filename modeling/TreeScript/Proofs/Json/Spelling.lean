import Mathlib.Data.List.TakeWhile
import TreeScript.Proofs.Json.Grammar
import TreeScript.Proofs.Json.Value

/-!
# Every text of a value is read as the value

The reader is followed through the grammar, one theorem for each of its relations: a numeral is read
as its number, `readLeaf_number`, a text between quotes as it is spelled, and an array and an object
part by part, whatever blanks stand between the parts.

The two loops are told how to read one item and what to do with one member, and so what is said of
them is about any reader that `Takes` the texts of a value, and any step that `TakesMember`s.
Beside the values of this module they serve the nodes of a program.
-/

namespace TreeScript.Json

variable {cs blank rest : List Char}

/-! ## 1. Blanks -/

theorem dropSpace_blank (h : IsBlank blank) (cs : List Char) :
    dropSpace (blank ++ cs) = dropSpace cs :=
  List.dropWhile_append_of_pos h

theorem isBlank_nil : IsBlank [] := fun _ h => by cases h

theorem Separated.after_blank (h : IsBlank blank) (hrest : Separated rest) :
    Separated (blank ++ rest) := by
  cases blank with
  | nil => exact hrest
  | cons c blank =>
    intro d hd
    cases hd
    have hspace := h c List.mem_cons_self
    unfold isSpace at hspace
    simp only [Bool.or_eq_true, decide_eq_true_eq] at hspace
    rcases hspace with ((rfl | rfl) | rfl) | rfl <;> decide

/-! ## 2. Numerals -/

theorem IsRun.spanDigits {ds : List Char} (h : IsRun ds) (hrest : Separated rest) :
    Numeral.spanDigits (ds ++ rest) = (ds, rest) :=
  Numeral.spanDigits_append h.digits fun c hc => (hrest c hc).1

theorem IsRun.isEmpty {ds : List Char} (h : IsRun ds) : ds.isEmpty = false := by
  simpa using h.nonempty

theorem ne_of_isDigit {c d : Char} (hd : d.isDigit = true) (hc : c.isDigit = false) : d ≠ c := by
  rintro rfl
  exact Bool.false_ne_true (hc.symm.trans hd)

theorem PowerText.splitSign (p : PowerText) (rest : List Char) :
    Numeral.splitSign (p.sign ++ (p.digits ++ rest)) =
      (decide (p.sign = ['-']), p.digits ++ rest) := by
  rcases p.sign_eq with hsign | hsign | hsign
  · obtain ⟨d, ds, hdigits⟩ := List.exists_cons_of_ne_nil p.isRun.nonempty
    have hd : d.isDigit = true := p.isRun.digits d (hdigits ▸ List.mem_cons_self)
    have hminus : d ≠ '-' := ne_of_isDigit hd rfl
    have hplus : d ≠ '+' := ne_of_isDigit hd rfl
    rw [hsign, hdigits, Numeral.splitSign.eq_def]
    simp [hminus, hplus]
  · rw [hsign]
    rfl
  · rw [hsign]
    rfl

/-- The letter of a power of ten is neither a digit nor a point. -/
theorem PowerText.letter_ne (p : PowerText) : p.letter.isDigit = false ∧ p.letter ≠ '.' := by
  rcases p.letter_eq with h | h <;> (rw [h]; decide)

/-- What a numeral is read as: a number without point and power of ten may be an integer. -/
def NumberText.read (n : NumberText) (rest : List Char) : Except JsonError (Json × List Char) :=
  if n.fraction.isNone && n.power.isNone then
    readInteger n.negative (Decimal.natOfDigits n.whole) rest
  else readDouble n.decimal rest

theorem readFraction_tail (n : NumberText) (hrest : Separated rest) :
    readFraction n.negative n.whole (n.tail ++ rest) = n.read rest := by
  obtain ⟨negative, whole, fraction, power, -, hrun⟩ := n
  unfold NumberText.read NumberText.tail NumberText.decimal
  cases power with
  | none =>
    cases fraction with
    | none => exact readFraction_whole hrest
    | some ds =>
      have hds := hrun ds rfl
      simpa using readFraction_point hds.digits hds.nonempty hrest
  | some p =>
    have hsplit := p.splitSign rest
    have hspan := p.isRun.spanDigits hrest
    have hletter := p.letter_eq
    obtain ⟨hdigit, hpoint⟩ := p.letter_ne
    cases fraction with
    | none =>
      unfold readFraction
      simp [PowerText.text, PowerText.exponent, hpoint, hletter, hsplit, hspan, p.isRun.isEmpty]
    | some ds =>
      have hds := hrun ds rfl
      have hspan' : Numeral.spanDigits (ds ++ p.letter :: (p.sign ++ (p.digits ++ rest))) =
          (ds, p.letter :: (p.sign ++ (p.digits ++ rest))) :=
        Numeral.spanDigits_append hds.digits fun c hc => by
          cases hc
          exact hdigit
      unfold readFraction
      simp [PowerText.text, PowerText.exponent, hds.isEmpty, hspan', hletter, hsplit, hspan,
        p.isRun.isEmpty]

/-- A numeral of 64 bits is an integer. -/
theorem readInteger_of_isInteger {n : NumberText} (h : n.isInteger = true) (rest : List Char) :
    n.read rest = .ok (.integer (if n.negative then -(Decimal.natOfDigits n.whole : Int)
      else Decimal.natOfDigits n.whole), rest) := by
  unfold NumberText.isInteger at h
  rw [Bool.and_eq_true] at h
  obtain ⟨hplain, hrange⟩ := h
  unfold NumberText.read readInteger
  rw [if_pos hplain]
  cases hnegative : n.negative with
  | false =>
    rw [hnegative] at hrange
    have hlt : Decimal.natOfDigits n.whole < UInt64.size := by simpa using hrange
    simp [hlt]
  | true =>
    rw [hnegative] at hrange
    have hle : 0 < Decimal.natOfDigits n.whole ∧ Decimal.natOfDigits n.whole ≤ Nat.pow 2 63 := by
      simpa using hrange
    simp [hle]

/-- Every other one is a double, also if it has neither point nor power of ten. -/
theorem readDouble_of_not_isInteger {n : NumberText} (h : ¬ n.isInteger = true)
    (rest : List Char) : n.read rest = readDouble n.decimal rest := by
  unfold NumberText.read
  split
  · rename_i hplain
    have hparts := hplain
    simp only [Bool.and_eq_true, Option.isNone_iff_eq_none] at hparts
    have hdecimal : n.decimal = ⟨n.negative, Decimal.natOfDigits n.whole, 0⟩ := by
      simp [NumberText.decimal, hparts.1, hparts.2]
    unfold NumberText.isInteger at h
    rw [hplain, Bool.true_and] at h
    rw [hdecimal]
    unfold readInteger
    cases hnegative : n.negative <;> simp_all
  · rfl

theorem NumberText.read_of_value? {n : NumberText} {j : Json} (h : n.value? = some j)
    (rest : List Char) : n.read rest = .ok (j, rest) := by
  unfold NumberText.value? at h
  split at h
  · rename_i hinteger
    cases h
    exact readInteger_of_isInteger hinteger rest
  · rename_i hinteger
    rw [readDouble_of_not_isInteger hinteger]
    split at h
    · rename_i hfinite
      cases h
      exact readDouble_eq hfinite
    · cases h

/-- What follows the digits before the point is no digit. -/
theorem NumberText.tail_ne (n : NumberText) (hrest : Separated rest) :
    ∀ c ∈ (n.tail ++ rest).head?, c.isDigit = false := by
  intro c hc
  unfold NumberText.tail at hc
  cases hfraction : n.fraction with
  | some ds =>
    rw [hfraction] at hc
    cases hc
    rfl
  | none =>
    cases hpower : n.power with
    | some p =>
      rw [hfraction, hpower] at hc
      cases hc
      exact p.letter_ne.1
    | none =>
      rw [hfraction, hpower] at hc
      exact (hrest c hc).1

/-- **Every numeral is read as its number.** -/
theorem readLeaf_number {n : NumberText} {j : Json} (h : n.value? = some j)
    (hrest : Separated rest) : readLeaf (n.text ++ rest) = .ok (j, rest) := by
  have hread : readUnsigned n.negative (n.whole ++ (n.tail ++ rest)) = .ok (j, rest) := by
    rw [readUnsigned_whole n.isWhole (n.tail_ne hrest), readFraction_tail n hrest,
      n.read_of_value? h]
  unfold NumberText.text
  rw [List.append_assoc, List.append_assoc]
  exact readLeaf_of_readUnsigned hread

/-! ## 3. Leaves -/

/-- **Every text of a leaf is read as the leaf.** -/
theorem readLeaf_spelled {j : Json} (h : SpelledBy j cs) (hleaf : j.IsLeaf)
    (hrest : Separated rest) : readLeaf (cs ++ rest) = .ok (j, rest) := by
  cases h with
  | null => rfl
  | yes => rfl
  | no => rfl
  | number n hn => exact readLeaf_number hn hrest
  | text hinner =>
    have hread := readString_inner hinner rest
    simp only [quote, List.cons_append, List.append_assoc, List.nil_append, readLeaf, if_pos, hread]
    rfl
  | array _ => exact hleaf.elim
  | object _ => exact hleaf.elim

/-- The text of a value begins with a value's first character. -/
theorem SpelledBy.exists_first {j : Json} (h : SpelledBy j cs) :
    ∃ c tail, cs = c :: tail ∧ IsFirst c := by
  have hleaf (hj : j.IsLeaf) : ∃ c tail, cs = c :: tail ∧ IsFirst c := by
    have hread := readLeaf_spelled h hj separated_nil
    rw [List.append_nil] at hread
    obtain ⟨c, tail, hcs, hfirst, -, -⟩ := exists_of_readLeaf hread
    exact ⟨c, tail, hcs, hfirst⟩
  cases h with
  | array _ => exact ⟨_, _, rfl, rfl, by decide⟩
  | object _ => exact ⟨_, _, rfl, rfl, by decide⟩
  | number n hn => exact hleaf (NumberText.isLeaf_of_value? hn)
  | _ => exact hleaf trivial

/-! ## 4. Arrays and objects -/

theorem MoreItemsSpelledBy.separated {items : List Json} (h : MoreItemsSpelledBy items cs)
    (rest : List Char) : Separated (cs ++ rest) := by
  cases h with
  | done hblank =>
    rw [List.append_assoc]
    exact .after_blank hblank fun c hc => by cases hc; decide
  | next hblank _ _ _ =>
    rw [List.append_assoc]
    exact .after_blank hblank fun c hc => by cases hc; decide

theorem MoreMembersSpelledBy.separated {members : List (String × Json)}
    (h : MoreMembersSpelledBy members cs) (rest : List Char) : Separated (cs ++ rest) := by
  cases h with
  | done hblank =>
    rw [List.append_assoc]
    exact .after_blank hblank fun c hc => by cases hc; decide
  | next hblank _ _ _ =>
    rw [List.append_assoc]
    exact .after_blank hblank fun c hc => by cases hc; decide

/-- The text of a member begins with a quote. -/
theorem MemberSpelledBy.exists_quote {member : String × Json} (h : MemberSpelledBy member cs) :
    ∃ tail, cs = '"' :: tail := by
  cases h
  exact ⟨_, rfl⟩

/-- The loop over the items has a turn for each of them, and one for the end. -/
theorem MoreItemsSpelledBy.length_lt (rest : List Char) : ∀ {items : List Json} {cs : List Char},
    MoreItemsSpelledBy items cs → items.length < (cs ++ rest).length
  | [], _, .done _ => by
    simp only [List.length_nil, List.length_append, List.length_singleton]
    omega
  | _ :: items, _, .next _ _ _ hmore => by
    have h := hmore.length_lt rest
    simp only [List.length_cons, List.length_append] at h ⊢
    omega

theorem MoreMembersSpelledBy.length_lt (rest : List Char) :
    ∀ {members : List (String × Json)} {cs : List Char},
      MoreMembersSpelledBy members cs → members.length < (cs ++ rest).length
  | [], _, .done _ => by
    simp only [List.length_nil, List.length_append, List.length_singleton]
    omega
  | _ :: members, _, .next _ _ _ hmore => by
    have h := hmore.length_lt rest
    simp only [List.length_cons, List.length_append] at h ⊢
    omega

section Loops

variable {ε α σ : Type} (refuse : JsonError → ε) {read : Reader ε α}
  {step : σ → String → Reader ε σ}

/-- Whether a reader takes every text of a value, and gives back the same for each. -/
def Takes (read : Reader ε α) (a : α) (j : Json) : Prop :=
  ∀ ⦃cs rest : List Char⦄, SpelledBy j cs → Separated rest → read (cs ++ rest) = .ok (a, rest)

/-- Whether a step takes every text of a member after its name, from one state to another. -/
def TakesMember (step : σ → String → Reader ε σ) (s : σ) (member : String × Json) (s' : σ) :
    Prop :=
  ∀ ⦃blank before cs rest : List Char⦄, IsBlank blank → IsBlank before → SpelledBy member.2 cs →
    Separated rest → step s member.1 (blank ++ ':' :: (before ++ (cs ++ rest))) = .ok (s', rest)

/-- Whether it takes the members of a list one after the other. -/
inductive TakesMembers (step : σ → String → Reader ε σ) :
    σ → List (String × Json) → σ → Prop where
  | nil {s : σ} : TakesMembers step s [] s
  | cons {s s' s'' : σ} {member : String × Json} {rest : List (String × Json)}
      (h : TakesMember step s member s') (hrest : TakesMembers step s' rest s'') :
      TakesMembers step s (member :: rest) s''

theorem TakesMembers.append {s s' s'' : σ} {front back : List (String × Json)}
    (hfront : TakesMembers step s front s') (hback : TakesMembers step s' back s'') :
    TakesMembers step s (front ++ back) s'' := by
  induction hfront with
  | nil => exact hback
  | cons h _ ih => exact .cons h (ih hback)

theorem readMoreItems_blank (h : IsBlank blank) (t : Char) (turns cs : List Char) :
    readMoreItems refuse read (t :: turns) (blank ++ cs) =
      readMoreItems refuse read (t :: turns) cs := by
  simp only [readMoreItems, dropSpace_blank h]

theorem readMoreItems_comma_blank (h : IsBlank blank) (t : Char) (turns cs : List Char) :
    readMoreItems refuse read (t :: turns) (',' :: (blank ++ cs)) =
      readMoreItems refuse read (t :: turns) (',' :: cs) := by
  simp only [readMoreItems, dropSpace_cons (c := ',') rfl, dropSpace_blank h]

theorem readMoreItems_spelled {as : List α} {js : List Json} (h : List.Forall₂ (Takes read) as js)
    (rest : List Char) : ∀ {cs turns : List Char}, MoreItemsSpelledBy js cs →
      js.length < turns.length → readMoreItems refuse read turns (cs ++ rest) = .ok (as, rest) := by
  induction h with
  | nil =>
    intro cs turns hcs hturns
    obtain ⟨t, turns, rfl⟩ := List.exists_cons_of_length_pos hturns
    cases hcs with
    | done hblank => rw [List.append_assoc, readMoreItems_blank refuse hblank]; rfl
  | @cons a j as js hhead _ ih =>
    intro cs turns hcs hturns
    obtain ⟨t, turns, rfl⟩ := List.exists_cons_of_length_pos (Nat.zero_lt_of_lt hturns)
    cases hcs with
    | @next _ _ blank before cs more hblank hbefore hitem hmore =>
      have hread := hhead hitem (hmore.separated rest)
      obtain ⟨c, tail, rfl, hfirst⟩ := hitem.exists_first
      rw [List.append_assoc, List.cons_append, List.append_assoc, List.append_assoc,
        readMoreItems_blank refuse hblank, readMoreItems_comma_blank refuse hbefore,
        List.cons_append, readMoreItems_comma refuse hfirst, ← List.cons_append, hread]
      simp only [bind, Except.bind, ih hmore (Nat.lt_of_succ_lt_succ hturns)]
      rfl

/-- **Every text of an array is read item by item.** -/
theorem readItems_spelled {as : List α} {js : List Json} (h : List.Forall₂ (Takes read) as js)
    (hcs : ItemsSpelledBy js cs) (rest : List Char) :
    readItems refuse read (cs ++ rest) = .ok (as, rest) := by
  cases hcs with
  | none hblank =>
    cases h
    unfold readItems
    rw [List.append_assoc, dropSpace_blank hblank]
    rfl
  | @some item js blank cs more hblank hitem hmore =>
    cases h with
    | @cons a _ as _ hhead hothers =>
      have hread := hhead hitem (hmore.separated rest)
      have hmore' := readMoreItems_spelled refuse hothers rest hmore (hmore.length_lt rest)
      have hskip : readItems refuse read (blank ++ (cs ++ (more ++ rest))) =
          readItems refuse read (cs ++ (more ++ rest)) := by
        simp only [readItems, dropSpace_blank hblank]
      obtain ⟨c, tail, rfl, hfirst⟩ := hitem.exists_first
      rw [List.append_assoc, List.append_assoc, hskip, List.cons_append,
        readItems_first refuse hfirst, ← List.cons_append, hread]
      simp only [bind, Except.bind, hmore']
      rfl

theorem readMember_spelled {s s' : σ} {member : String × Json}
    (h : TakesMember step s member s') (hcs : MemberSpelledBy member cs)
    (hrest : Separated rest) :
    ∃ tail, cs = '"' :: tail ∧ readMember refuse step s (tail ++ rest) = .ok (s', rest) := by
  cases hcs with
  | @intro name value inner blank before cs hname hblank hbefore hvalue =>
    refine ⟨inner ++ '"' :: (blank ++ ':' :: (before ++ cs)), by simp [quote], ?_⟩
    unfold readMember
    simp only [List.append_assoc, List.cons_append, readString_inner hname]
    exact h hblank hbefore hvalue hrest

theorem readMoreMembers_spelled {s s' : σ} {members : List (String × Json)}
    (h : TakesMembers step s members s') (rest : List Char) : ∀ {cs turns : List Char},
      MoreMembersSpelledBy members cs → members.length < turns.length →
      readMoreMembers refuse step turns s (cs ++ rest) = .ok (s', rest) := by
  induction h with
  | nil =>
    intro cs turns hcs hturns
    obtain ⟨t, turns, rfl⟩ := List.exists_cons_of_length_pos hturns
    cases hcs with
    | done hblank =>
      rw [List.append_assoc, readMoreMembers, dropSpace_blank hblank]
      rfl
  | @cons s s' s'' member members hhead _ ih =>
    intro cs turns hcs hturns
    obtain ⟨t, turns, rfl⟩ := List.exists_cons_of_length_pos (Nat.zero_lt_of_lt hturns)
    cases hcs with
    | @next _ _ blank before cs more hblank hbefore hmember hmore =>
      obtain ⟨tail, rfl, hread⟩ :=
        readMember_spelled refuse hhead hmember (hmore.separated rest)
      simp only [List.append_assoc, List.cons_append, readMoreMembers, dropSpace_blank hblank,
        dropSpace_cons (c := ',') rfl, dropSpace_blank hbefore, dropSpace_cons (c := '"') rfl,
        hread, bind, Except.bind]
      exact ih hmore (Nat.lt_of_succ_lt_succ hturns)

/-- **Every text of an object is read member by member.** -/
theorem readMembers_spelled {s s' : σ} {members : List (String × Json)}
    (h : TakesMembers step s members s') (hcs : MembersSpelledBy members cs) (rest : List Char) :
    readMembers refuse step s (cs ++ rest) = .ok (s', rest) := by
  cases hcs with
  | none hblank =>
    cases h
    unfold readMembers
    rw [List.append_assoc, dropSpace_blank hblank]
    rfl
  | @some member members blank cs more hblank hmember hmore =>
    cases h with
    | cons hhead hothers =>
      obtain ⟨tail, rfl, hread⟩ :=
        readMember_spelled refuse hhead hmember (hmore.separated rest)
      simp only [List.append_assoc, List.cons_append, readMembers, dropSpace_blank hblank,
        dropSpace_cons (c := '"') rfl, hread, bind, Except.bind]
      exact readMoreMembers_spelled refuse hothers rest hmore (hmore.length_lt rest)

end Loops

/-! ## 5. Values -/

theorem readColon_blank {ε : Type} (refuse : JsonError → ε) (h : IsBlank blank)
    (cs : List Char) : readColon refuse (blank ++ ':' :: cs) = .ok cs := by
  unfold readColon
  rw [dropSpace_blank h]
  rfl

theorem readValue_blank (h : IsBlank blank) (limit : Nat) (cs : List Char) :
    readValue limit (blank ++ cs) = readValue limit cs := by
  cases limit <;> simp only [readValue, dropSpace_blank h]

/-- A member of a value is kept with the value that is read for it. -/
theorem takesMember_value {limit : Nat} {name : String} {value : Json}
    (h : Takes (readValue limit) value value) (acc : List (String × Json)) :
    TakesMember (readValueMember limit) acc (name, value) ((name, value) :: acc) := by
  intro blank before cs rest hblank hbefore hcs hrest
  unfold readValueMember
  simp only [readColon_blank id hblank, readValue_blank hbefore, h hcs hrest, bind, Except.bind]
  rfl

theorem takes_leaf {j : Json} (limit : Nat) (hleaf : j.IsLeaf) : Takes (readValue limit) j j :=
  fun _ _ hcs hrest => readValue_of_readLeaf (readLeaf_spelled hcs hleaf hrest) limit

theorem takes_array {limit : Nat} {items : List Json}
    (h : List.Forall₂ (Takes (readValue limit)) items items) :
    Takes (readValue (limit + 1)) (.array items) (.array items) := by
  intro cs rest hcs _
  obtain ⟨inner, hitems, rfl⟩ := hcs.exists_items
  rw [List.cons_append, readValue_array, readItems_spelled id h hitems]
  rfl

theorem takes_object {limit : Nat} {members : List (String × Json)}
    (h : TakesMembers (readValueMember limit) [] members members.reverse) :
    Takes (readValue (limit + 1)) (.object members) (.object members) := by
  intro cs rest hcs _
  obtain ⟨inner, hmembers, rfl⟩ := hcs.exists_members
  rw [List.cons_append, readValue_object, readMembers_spelled id h hmembers]
  simp only [bind, Except.bind, List.reverse_reverse]
  rfl

mutual

/-- **Every text of a value is read as the value**, if it does not nest too deep. -/
theorem readValue_spelled : ∀ (limit : Nat) (j : Json), j.depth ≤ limit →
    Takes (readValue limit) j j
  | limit + 1, .array items, hdepth => by
    rw [depth, Nat.add_le_add_iff_right] at hdepth
    exact takes_array (readItems_values limit items hdepth)
  | limit + 1, .object members, hdepth => by
    rw [depth, Nat.add_le_add_iff_right] at hdepth
    have hmembers := readMembers_values limit members [] hdepth
    rw [List.append_nil] at hmembers
    exact takes_object hmembers
  | limit, .null, _ => takes_leaf limit trivial
  | limit, .boolean _, _ => takes_leaf limit trivial
  | limit, .integer _, _ => takes_leaf limit trivial
  | limit, .double _, _ => takes_leaf limit trivial
  | limit, .text _, _ => takes_leaf limit trivial

theorem readItems_values (limit : Nat) : ∀ items : List Json, depthItems items ≤ limit →
    List.Forall₂ (Takes (readValue limit)) items items
  | [], _ => .nil
  | item :: rest, hdepth => by
    rw [depthItems, Nat.max_le] at hdepth
    exact .cons (readValue_spelled limit item hdepth.1) (readItems_values limit rest hdepth.2)

theorem readMembers_values (limit : Nat) : ∀ (members acc : List (String × Json)),
    depthMembers members ≤ limit →
    TakesMembers (readValueMember limit) acc members (members.reverse ++ acc)
  | [], _, _ => .nil
  | (name, value) :: rest, acc, hdepth => by
    rw [depthMembers, Nat.max_le] at hdepth
    have hrest := readMembers_values limit rest ((name, value) :: acc) hdepth.2
    rw [List.reverse_cons, List.append_assoc, List.singleton_append]
    exact .cons (takesMember_value (readValue_spelled limit value hdepth.1) acc) hrest

end

end TreeScript.Json
