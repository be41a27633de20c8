import TreeScript.Proofs.Text.Quoted
import TreeScript.Proofs.Value.Equality
import TreeScript.Proofs.Value.Number

/-!
# Nested text is unambiguous

The text of a sequence or a mapping can be read back in one way only.  The first character of a
nested value tells its kind; a number goes up to the next comma or closing bracket, a text up to the
quote that closes it, and a sequence or a mapping to its own closing bracket.  So what begins with
the text of a value determines the value, and what follows (`determined_written`).

The value is determined up to `EqualInOrder`, which is finer than the equality of the language: it
does not leave open in which order a mapping lists its keys.  What it does leave open is the sign of
zero.
-/

namespace TreeScript.Value

/-! ## 1. Equal values in the same order -/

/-- **Values that are equal and list their keys in the same order**: `Equal`, but for mappings that
have the same list of keys. -/
inductive EqualInOrder : Value → Value → Prop where
  | number {x y : Float} (h : (Binary64.ofFloat x).Equal (Binary64.ofFloat y)) :
    EqualInOrder (.number x) (.number y)
  | text (s : String) : EqualInOrder (.text s) (.text s)
  | boolean (b : Bool) : EqualInOrder (.boolean b) (.boolean b)
  | sequence {items others : List Value} (length : items.length = others.length)
    (equal : ∀ (i : Nat) (v w : Value), items[i]? = some v → others[i]? = some w →
      EqualInOrder v w) : EqualInOrder (.sequence items) (.sequence others)
  | mapping {entries others : List (String × Value)}
    (keys : Entries.keys entries = Entries.keys others)
    (equal : ∀ (key : String) (v w : Value), Entries.get? entries key = some v →
      Entries.get? others key = some w → EqualInOrder v w) :
    EqualInOrder (.mapping entries) (.mapping others)
  | absence : EqualInOrder .absence .absence

theorem EqualInOrder.equal {a b : Value} (h : a.EqualInOrder b) : a.Equal b := by
  induction h with
  | number h => exact .number h
  | text s => exact .text s
  | boolean b => exact .boolean b
  | sequence length _ ih => exact .sequence length ih
  | mapping keys _ ih => exact .mapping (fun key => by rw [keys]) ih
  | absence => exact .absence

/-- Items that are equal pairwise make equal sequences. -/
theorem equalInOrder_of_items {items others : List Value}
    (h : List.Forall₂ EqualInOrder items others) :
    (Value.sequence items).EqualInOrder (.sequence others) := by
  rw [List.forall₂_iff_get] at h
  refine .sequence h.1 fun i v w hv hw => ?_
  obtain ⟨hi, rfl⟩ := List.getElem?_eq_some_iff.mp hv
  obtain ⟨hi', rfl⟩ := List.getElem?_eq_some_iff.mp hw
  exact h.2 i hi hi'

/-- Entries that are equal pairwise make equal mappings. -/
theorem equalInOrder_of_entries {entries others : List (String × Value)}
    (h : List.Forall₂ (fun e e' => e.1 = e'.1 ∧ e.2.EqualInOrder e'.2) entries others) :
    (Value.mapping entries).EqualInOrder (.mapping others) := by
  refine .mapping (Entries.keys_eq_of_forall₂ h) fun key v w hv hw => ?_
  exact Entries.related_of_get? h hv hw

/-! ## 2. The first character -/

/-- Whether a character ends what stands before it in a collection. -/
def IsEnd (c : Char) : Prop := c = ',' ∨ c = ']' ∨ c = '\x7d'

instance : DecidablePred IsEnd := fun c =>
  inferInstanceAs (Decidable (c = ',' ∨ c = ']' ∨ c = '\x7d'))

/-- The kind of value that a first character belongs to. -/
def kindOfFirst (c : Char) : String :=
  if c = '"' then "text"
  else if c = '[' then "sequence"
  else if c = '\x7b' then "mapping"
  else if c = 't' ∨ c = 'f' then "boolean"
  else if c = 'n' then "absence"
  else "number"

theorem kindOfFirst_isFigure {c : Char} (h : isFigure c = true) :
    kindOfFirst c = "number" ∧ ¬ IsEnd c := by
  have hne : ∀ d ∈ ['"', '[', '\x7b', 't', 'f', 'n', ',', ']', '\x7d'], c ≠ d := by
    rintro d hd rfl
    revert h
    fin_cases hd <;> decide
  simp only [List.forall_mem_cons] at hne
  obtain ⟨h₁, h₂, h₃, h₄, h₅, h₆, h₇, h₈, h₉, -⟩ := hne
  simp [kindOfFirst, IsEnd, *]

/-- **The first character of a nested value tells its kind**, and ends nothing. -/
theorem written_first (v : Value) :
    ∃ c cs, written true v = c :: cs ∧ kindOfFirst c = v.typeName ∧ ¬ IsEnd c := by
  cases v with
  | number x =>
    unfold written
    cases htext : numberText x with
    | nil => exact absurd htext (numberText_ne_nil x)
    | cons c cs =>
      refine ⟨c, cs, rfl, ?_⟩
      rcases numberText_characters x with hfigures | hword
      · exact kindOfFirst_isFigure (hfigures c (by simp [htext]))
      · simp only [htext, List.mem_cons, List.cons.injEq, List.not_mem_nil, or_false] at hword
        rcases hword with ⟨rfl, -⟩ | ⟨rfl, -⟩ | ⟨rfl, -⟩ <;> exact ⟨rfl, by decide⟩
  | text s => exact ⟨'"', _, by rw [written, if_pos rfl, Text.quote], rfl, by decide⟩
  | boolean b => cases b <;> exact ⟨_, _, by rw [written], rfl, by decide⟩
  | sequence items => exact ⟨'[', _, by rw [written], rfl, by decide⟩
  | mapping entries => exact ⟨'\x7b', _, by rw [written], rfl, by decide⟩
  | absence => exact ⟨'n', _, by rw [written], rfl, by decide⟩

/-! ## 3. Items between brackets -/

/-- A text that ends what stands before it, or nothing. -/
def Ended (rest : List Char) : Prop := ∀ c ∈ rest.head?, IsEnd c

section Listed

variable {α : Type} (write : α → List Char) (close : Char)

/-- The items after the first one, each behind a comma, and the closing bracket. -/
def listedMore : List α → List Char
  | [] => [close]
  | item :: rest => ',' :: ' ' :: (write item ++ listedMore rest)

/-- Items with commas between them, and the closing bracket. -/
def listed : List α → List Char
  | [] => [close]
  | item :: rest => write item ++ listedMore write close rest

/-- An item and what follows it are known from the characters that begin with it. -/
def Determined (R : α → α → Prop) (item : α) : Prop :=
  ∀ {other : α} {rest rest' : List Char}, Ended rest → Ended rest' →
    write item ++ rest = write other ++ rest' → R item other ∧ rest = rest'

variable {write close} {R : α → α → Prop} {items others : List α} {rest rest' : List Char}

theorem ended_listedMore (hclose : close = ']' ∨ close = '\x7d') (items : List α)
    (rest : List Char) : Ended (listedMore write close items ++ rest) := by
  intro c hc
  cases items with
  | nil =>
    obtain rfl : close = c := Option.some.inj hc
    exact Or.inr hclose
  | cons item items =>
    obtain rfl : ',' = c := Option.some.inj hc
    exact Or.inl rfl

theorem determined_listedMore (hclose : close = ']' ∨ close = '\x7d')
    (hitems : ∀ item ∈ items, Determined write R item)
    (h : listedMore write close items ++ rest = listedMore write close others ++ rest') :
    List.Forall₂ R items others ∧ rest = rest' := by
  induction items generalizing others with
  | nil =>
    cases others with
    | nil => exact ⟨.nil, (List.cons.inj h).2⟩
    | cons other others =>
      have hcomma : close = ',' := (List.cons.inj h).1
      rcases hclose with rfl | rfl <;> cases hcomma
  | cons item items ih =>
    cases others with
    | nil =>
      have hcomma : ',' = close := (List.cons.inj h).1
      rcases hclose with rfl | rfl <;> cases hcomma
    | cons other others =>
      rw [List.forall_mem_cons] at hitems
      have hmore : write item ++ (listedMore write close items ++ rest) =
          write other ++ (listedMore write close others ++ rest') := by
        simpa [listedMore] using h
      obtain ⟨hitem, hrest⟩ := hitems.1 (ended_listedMore hclose items rest)
        (ended_listedMore hclose others rest') hmore
      obtain ⟨hothers, hend⟩ := ih hitems.2 hrest
      exact ⟨.cons hitem hothers, hend⟩

/-- **Items between brackets are known one by one**, if each of them is, and so is what follows the
closing bracket. -/
theorem determined_listed (hclose : close = ']' ∨ close = '\x7d')
    (hfirst : ∀ item, ∃ c cs, write item = c :: cs ∧ ¬ IsEnd c)
    (hitems : ∀ item ∈ items, Determined write R item)
    (h : listed write close items ++ rest = listed write close others ++ rest') :
    List.Forall₂ R items others ∧ rest = rest' := by
  have hend : IsEnd close := Or.inr hclose
  cases items with
  | nil =>
    cases others with
    | nil => exact ⟨.nil, (List.cons.inj h).2⟩
    | cons other others =>
      obtain ⟨c, cs, hwrite, hc⟩ := hfirst other
      rw [listed, listed, hwrite] at h
      obtain rfl : close = c := (List.cons.inj h).1
      exact absurd hend hc
  | cons item items =>
    cases others with
    | nil =>
      obtain ⟨c, cs, hwrite, hc⟩ := hfirst item
      rw [listed, listed, hwrite] at h
      obtain rfl : c = close := (List.cons.inj h).1
      exact absurd hend hc
    | cons other others =>
      exact determined_listedMore hclose hitems (congrArg (fun cs => ',' :: ' ' :: cs) h)

end Listed

/-! ## 4. Values -/

/-- A key, a colon and the value. -/
def writtenEntry (entry : String × Value) : List Char :=
  Text.quote entry.1.toList ++ ':' :: ' ' :: written true entry.2

theorem writtenItems_eq : ∀ items : List Value,
    writtenItems items = listed (written true) ']' items
  | [] => by rw [writtenItems, listed]
  | [item] => by rw [writtenItems, listed, listedMore]
  | item :: next :: rest => by
    rw [writtenItems, writtenItems_eq (next :: rest), listed, listed, listedMore]
    exact List.cons_ne_nil _ _

theorem writtenEntries_eq : ∀ entries : List (String × Value),
    writtenEntries entries = listed writtenEntry '\x7d' entries
  | [] => by rw [writtenEntries, listed]
  | [(key, v)] => by simp [writtenEntries, listed, listedMore, writtenEntry]
  | (key, v) :: next :: rest => by
    rw [writtenEntries, writtenEntries_eq (next :: rest)]
    · simp [listed, listedMore, writtenEntry]
    · exact List.cons_ne_nil _ _

/-- An entry is known if its value is. -/
theorem determined_writtenEntry {entry : String × Value}
    (h : Determined (written true) EqualInOrder entry.2) :
    Determined writtenEntry (fun e e' => e.1 = e'.1 ∧ e.2.EqualInOrder e'.2) entry := by
  intro other rest rest' hrest hrest' heq
  unfold writtenEntry at heq
  rw [List.append_assoc, List.append_assoc] at heq
  obtain ⟨hkey, hvalue⟩ := Text.quote_append_inj heq
  obtain ⟨hequal, hend⟩ := h hrest hrest' (List.cons.inj (List.cons.inj hvalue).2).2
  exact ⟨⟨String.toList_inj.mp hkey, hequal⟩, hend⟩

/-- What begins with the same characters is of one kind. -/
theorem typeName_eq_of_written {a b : Value} {rest rest' : List Char}
    (h : written true a ++ rest = written true b ++ rest') : a.typeName = b.typeName := by
  obtain ⟨c, cs, hc, hkind, -⟩ := written_first a
  obtain ⟨d, ds, hd, hkind', -⟩ := written_first b
  rw [hc, hd] at h
  obtain rfl : c = d := (List.cons.inj h).1
  exact hkind.symm.trans hkind'

/-- No character of a number ends it. -/
theorem not_isEnd_of_mem_numberText {x : Float} : ∀ c ∈ numberText x, ¬ IsEnd c := by
  intro c hc
  rcases numberText_characters x with hfigures | hword
  · exact (kindOfFirst_isFigure (hfigures c hc)).2
  · simp only [List.mem_cons, List.not_mem_nil, or_false] at hword
    rcases hword with hword | hword | hword <;> rw [hword] at hc <;> fin_cases hc <;> decide

/-- A number other than NaN is known from its text, which goes up to the next end. -/
theorem determined_number {x : Float} (hx : Binary64.ofFloat x ≠ .nan) :
    Determined (written true) EqualInOrder (.number x) := by
  intro b rest rest' hrest hrest' heq
  cases b with
  | number y =>
    rw [written, written] at heq
    obtain ⟨htext, hend⟩ := Text.append_inj_of_ends not_isEnd_of_mem_numberText
      not_isEnd_of_mem_numberText hrest hrest' heq
    exact ⟨.number (equal_of_numberText_eq hx htext), hend⟩
  | _ => simpa [typeName] using typeName_eq_of_written heq

/-- A text is known from the text between its quotes. -/
theorem determined_text (s : String) : Determined (written true) EqualInOrder (.text s) := by
  intro b rest rest' _ _ heq
  cases b with
  | text t =>
    rw [written, written, if_pos rfl, if_pos rfl] at heq
    obtain ⟨htext, hend⟩ := Text.quote_append_inj heq
    obtain rfl : s = t := String.toList_inj.mp htext
    exact ⟨.text s, hend⟩
  | _ => simpa [typeName] using typeName_eq_of_written heq

theorem determined_boolean (p : Bool) :
    Determined (written true) EqualInOrder (.boolean p) := by
  intro b rest rest' _ _ heq
  cases b with
  | boolean q =>
    cases p <;> cases q <;> simp [written] at heq
    · exact ⟨.boolean false, heq⟩
    · exact ⟨.boolean true, heq⟩
  | _ => simpa [typeName] using typeName_eq_of_written heq

theorem determined_absence : Determined (written true) EqualInOrder .absence := by
  intro b rest rest' _ _ heq
  cases b with
  | absence => exact ⟨.absence, List.append_cancel_left heq⟩
  | _ => simpa [typeName] using typeName_eq_of_written heq

/-- A sequence is known if its items are. -/
theorem determined_sequence {items : List Value}
    (h : ∀ v ∈ items, Determined (written true) EqualInOrder v) :
    Determined (written true) EqualInOrder (.sequence items) := by
  intro b rest rest' _ _ heq
  cases b with
  | sequence others =>
    rw [written, written, writtenItems_eq, writtenItems_eq] at heq
    have hfirst : ∀ v, ∃ c cs, written true v = c :: cs ∧ ¬ IsEnd c := by
      intro v
      obtain ⟨c, cs, hc, -, hend⟩ := written_first v
      exact ⟨c, cs, hc, hend⟩
    obtain ⟨hequal, hend⟩ := determined_listed (.inl rfl) hfirst h (List.cons.inj heq).2
    exact ⟨equalInOrder_of_items hequal, hend⟩
  | _ => simpa [typeName] using typeName_eq_of_written heq

/-- A mapping is known if its values are. -/
theorem determined_mapping {entries : List (String × Value)}
    (h : ∀ entry ∈ entries, Determined (written true) EqualInOrder entry.2) :
    Determined (written true) EqualInOrder (.mapping entries) := by
  intro b rest rest' _ _ heq
  cases b with
  | mapping others =>
    rw [written, written, writtenEntries_eq, writtenEntries_eq] at heq
    have hfirst : ∀ entry, ∃ c cs, writtenEntry entry = c :: cs ∧ ¬ IsEnd c := by
      intro entry
      exact ⟨'"', _, rfl, by decide⟩
    obtain ⟨hequal, hend⟩ := determined_listed (.inr rfl) hfirst
      (fun entry hentry => determined_writtenEntry (h entry hentry)) (List.cons.inj heq).2
    exact ⟨equalInOrder_of_entries hequal, hend⟩
  | _ => simpa [typeName] using typeName_eq_of_written heq

/-- **A value without NaN is known from the characters that begin with its text**, and so is what
follows. -/
theorem determined_written {a : Value} (h : ¬ a.HoldsNaN) :
    Determined (written true) EqualInOrder a := by
  induction a using nested_induction with
  | number x =>
    rw [holdsNaN_number, Binary64.isNaN_iff] at h
    exact determined_number h
  | text s => exact determined_text s
  | boolean p => exact determined_boolean p
  | sequence items ih =>
    rw [holdsNaN_sequence] at h
    refine determined_sequence fun v hv => ih v hv ?_
    intro hnan
    exact h ⟨v, hv, hnan⟩
  | mapping entries ih =>
    rw [holdsNaN_mapping] at h
    refine determined_mapping fun entry hentry => ih entry hentry ?_
    intro hnan
    exact h ⟨entry, hentry, hnan⟩
  | absence => exact determined_absence

/-- **Nested text is unambiguous.**  If two values have the same text inside a sequence, and there
is no NaN in them, they are equal, and their mappings list their keys in the same order. -/
theorem equal_of_nested_text {a b : Value} (hnan : ¬ a.HoldsNaN) (ha : a.WellKeyed)
    (hb : b.WellKeyed) (h : (Value.sequence [a]).toText = (Value.sequence [b]).toText) :
    a.same b = true ∧ a.EqualInOrder b := by
  have hwritten : written true a ++ [']'] = written true b ++ [']'] := by
    have hchars := String.ofList_inj.mp h
    simpa [chars, written, writtenItems] using hchars
  have hended : Ended [']'] := by
    intro c hc
    obtain rfl : ']' = c := Option.some.inj hc
    decide
  obtain ⟨hequal, -⟩ := determined_written hnan hended hended hwritten
  exact ⟨(same_iff_equal ha hb).mpr hequal.equal, hequal⟩

/-- A text with quotes and brackets in it, and a zero of either sign. -/
def tricky (x : Float) : Value :=
  .mapping [("\"]", .text "1, \\u\x7b0\x7d"), ("", .sequence [.number x, .absence])]

theorem wellKeyed_tricky (x : Float) : (tricky x).WellKeyed := by
  have hnumber : (Value.number x).WellKeyed := wellKeyed_atom rfl
  have htext : ∀ s, (Value.text s).WellKeyed := fun s => wellKeyed_atom rfl
  have habsence : Value.absence.WellKeyed := wellKeyed_atom rfl
  simp [tricky, wellKeyed_mapping, wellKeyed_sequence, Entries.Distinct, hnumber, htext, habsence]

theorem not_holdsNaN_tricky {x : Float} (hx : x.isNaN = false) : ¬ (tricky x).HoldsNaN := by
  have hnumber : ¬ (Value.number x).HoldsNaN := by rw [holdsNaN_number, hx]; exact nofun
  have htext : ∀ s, ¬ (Value.text s).HoldsNaN := fun s => not_holdsNaN_atom rfl rfl
  have habsence : ¬ Value.absence.HoldsNaN := not_holdsNaN_atom rfl rfl
  simp [tricky, holdsNaN_mapping, holdsNaN_sequence, hnumber, htext, habsence]

theorem equal_of_nested_text_zeros :
    ¬ (tricky 0).HoldsNaN ∧ (tricky 0).WellKeyed ∧ (tricky (-0)).WellKeyed ∧
      (Value.sequence [tricky 0]).toText = (Value.sequence [tricky (-0)]).toText ∧
      (tricky 0).same (tricky (-0)) = true ∧ (tricky 0).EqualInOrder (tricky (-0)) := by
  have hnan : ¬ (tricky 0).HoldsNaN := not_holdsNaN_tricky (by decide +kernel)
  have htext : (Value.sequence [tricky 0]).toText = (Value.sequence [tricky (-0)]).toText := by
    decide +kernel
  have h := wellKeyed_tricky 0
  have h' := wellKeyed_tricky (-0)
  exact ⟨hnan, h, h', htext, equal_of_nested_text hnan h h' htext⟩

end TreeScript.Value
