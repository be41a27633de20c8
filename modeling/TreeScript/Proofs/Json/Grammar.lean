import TreeScript.Proofs.Json.Depth

/-!
# The texts that spell a value

`Json.write` gives a value one text, and there are many others: blanks may stand between any two
tokens, a number has many numerals, and the characters of a text can be escaped, for which see
`CharSpelledBy`.  The relations of this module say which texts are a value's.  They follow the
grammar of the format and not the reader: that the reader takes them all is proved elsewhere.

`SpelledBy` is the text of a value from its first character to its last.  Inside it, an array and an
object are laid out as a first item or member and what comes after it, up to the closing bracket, so
that a comma is always followed by something.
-/

namespace TreeScript.Json

/-! ## 1. Numerals -/

/-- Digits of which there is at least one. -/
structure IsRun (ds : List Char) : Prop where
  digits : ∀ c ∈ ds, c.isDigit = true
  nonempty : ds ≠ []

/-- The power of ten at the end of a numeral. -/
structure PowerText where
  letter : Char
  sign : List Char
  digits : List Char
  letter_eq : letter = 'e' ∨ letter = 'E'
  sign_eq : sign = [] ∨ sign = ['+'] ∨ sign = ['-']
  isRun : IsRun digits

/-- The text of a power of ten. -/
def PowerText.text (p : PowerText) : List Char := p.letter :: (p.sign ++ p.digits)

/-- The exponent of a power of ten. -/
def PowerText.exponent (p : PowerText) : Int :=
  if p.sign = ['-'] then -(Decimal.natOfDigits p.digits : Int) else Decimal.natOfDigits p.digits

/-- A numeral, part by part: a minus or nothing, digits, and then perhaps a point with digits and
perhaps a power of ten. -/
structure NumberText where
  negative : Bool
  whole : List Char
  fraction : Option (List Char)
  power : Option PowerText
  isWhole : IsWhole whole
  isRun : ∀ ds ∈ fraction, IsRun ds

namespace NumberText

/-- The text from the point on. -/
def tail (n : NumberText) : List Char :=
  (n.fraction.elim [] fun ds => '.' :: ds) ++ n.power.elim [] PowerText.text

/-- The text of a numeral. -/
def text (n : NumberText) : List Char :=
  (if n.negative then ['-'] else []) ++ (n.whole ++ n.tail)

/-- The decimal that a numeral stands for. -/
def decimal (n : NumberText) : Decimal :=
  ⟨n.negative, Decimal.natOfDigits (n.whole ++ n.fraction.getD []),
    n.power.elim 0 PowerText.exponent - (n.fraction.getD []).length⟩

/-- Whether a numeral is an integer of 64 bits.  A zero with a minus is not: it is a double. -/
def isInteger (n : NumberText) : Bool :=
  n.fraction.isNone && n.power.isNone &&
    if n.negative then
      0 < Decimal.natOfDigits n.whole && Decimal.natOfDigits n.whole ≤ Nat.pow 2 63
    else Decimal.natOfDigits n.whole < UInt64.size

/-- **The number of a numeral**: an integer, or the double next to its decimal unless that lies
beyond all of them. -/
def value? (n : NumberText) : Option Json :=
  if n.isInteger then
    some (.integer (if n.negative then -(Decimal.natOfDigits n.whole : Int)
      else Decimal.natOfDigits n.whole))
  else
    match n.decimal.toBinary64 with
    | .finite negative m p => some (.double (Binary64.finite negative m p).toFloat)
    | _ => none

/-- A numeral stands for a number. -/
theorem isNumber_of_value? {n : NumberText} {j : Json} (h : n.value? = some j) :
    (∃ i, j = .integer i) ∨ ∃ x, j = .double x := by
  unfold value? at h
  split at h
  · cases h
    exact .inl ⟨_, rfl⟩
  · split at h
    · cases h
      exact .inr ⟨_, rfl⟩
    · cases h

theorem isLeaf_of_value? {n : NumberText} {j : Json} (h : n.value? = some j) : j.IsLeaf := by
  rcases isNumber_of_value? h with ⟨i, rfl⟩ | ⟨x, rfl⟩ <;> trivial

end NumberText

/-! ## 2. Values -/

/-- A text of nothing but space. -/
def IsBlank (cs : List Char) : Prop := ∀ c ∈ cs, isSpace c = true

mutual

/-- **The texts that spell a value.** -/
inductive SpelledBy : Json → List Char → Prop where
  | null : SpelledBy .null ['n', 'u', 'l', 'l']
  | yes : SpelledBy (.boolean true) ['t', 'r', 'u', 'e']
  | no : SpelledBy (.boolean false) ['f', 'a', 'l', 's', 'e']
  | number {j : Json} (n : NumberText) (h : n.value? = some j) : SpelledBy j n.text
  | text {s : String} {inner : List Char} (h : CharsSpelledBy s.toList inner) :
      SpelledBy (.text s) (quote inner)
  | array {items : List Json} {cs : List Char} (h : ItemsSpelledBy items cs) :
      SpelledBy (.array items) ('[' :: cs)
  | object {members : List (String × Json)} {cs : List Char} (h : MembersSpelledBy members cs) :
      SpelledBy (.object members) ('\x7b' :: cs)

/-- The texts of an array after its opening bracket. -/
inductive ItemsSpelledBy : List Json → List Char → Prop where
  | none {blank : List Char} (hblank : IsBlank blank) : ItemsSpelledBy [] (blank ++ [']'])
  | some {item : Json} {rest : List Json} {blank cs more : List Char} (hblank : IsBlank blank)
      (hitem : SpelledBy item cs) (hmore : MoreItemsSpelledBy rest more) :
      ItemsSpelledBy (item :: rest) (blank ++ (cs ++ more))

/-- The texts of an array after one of its items. -/
inductive MoreItemsSpelledBy : List Json → List Char → Prop where
  | done {blank : List Char} (hblank : IsBlank blank) : MoreItemsSpelledBy [] (blank ++ [']'])
  | next {item : Json} {rest : List Json} {blank before cs more : List Char}
      (hblank : IsBlank blank) (hbefore : IsBlank before) (hitem : SpelledBy item cs)
      (hmore : MoreItemsSpelledBy rest more) :
      MoreItemsSpelledBy (item :: rest) (blank ++ ',' :: (before ++ (cs ++ more)))

/-- The texts of a member: its name, a colon and its value. -/
inductive MemberSpelledBy : String × Json → List Char → Prop where
  | intro {name : String} {value : Json} {inner blank before cs : List Char}
      (hname : CharsSpelledBy name.toList inner) (hblank : IsBlank blank)
      (hbefore : IsBlank before) (hvalue : SpelledBy value cs) :
      MemberSpelledBy (name, value) (quote inner ++ (blank ++ ':' :: (before ++ cs)))

/-- The texts of an object after its opening brace. -/
inductive MembersSpelledBy : List (String × Json) → List Char → Prop where
  | none {blank : List Char} (hblank : IsBlank blank) : MembersSpelledBy [] (blank ++ ['\x7d'])
  | some {member : String × Json} {rest : List (String × Json)} {blank cs more : List Char}
      (hblank : IsBlank blank) (hmember : MemberSpelledBy member cs)
      (hmore : MoreMembersSpelledBy rest more) :
      MembersSpelledBy (member :: rest) (blank ++ (cs ++ more))

/-- The texts of an object after one of its members. -/
inductive MoreMembersSpelledBy : List (String × Json) → List Char → Prop where
  | done {blank : List Char} (hblank : IsBlank blank) :
      MoreMembersSpelledBy [] (blank ++ ['\x7d'])
  | next {member : String × Json} {rest : List (String × Json)}
      {blank before cs more : List Char} (hblank : IsBlank blank) (hbefore : IsBlank before)
      (hmember : MemberSpelledBy member cs) (hmore : MoreMembersSpelledBy rest more) :
      MoreMembersSpelledBy (member :: rest) (blank ++ ',' :: (before ++ (cs ++ more)))

end

/-! ## 3. The shape of a text -/

/-- Between the quotes of a text there stands a text. -/
theorem SpelledBy.exists_inner {s : String} {cs : List Char} (h : SpelledBy (.text s) cs) :
    ∃ inner, CharsSpelledBy s.toList inner ∧ cs = quote inner := by
  cases h with
  | number n hn =>
    rcases NumberText.isNumber_of_value? hn with ⟨i, hi⟩ | ⟨x, hx⟩
    · cases hi
    · cases hx
  | text hinner => exact ⟨_, hinner, rfl⟩

theorem SpelledBy.exists_items {items : List Json} {cs : List Char}
    (h : SpelledBy (.array items) cs) : ∃ inner, ItemsSpelledBy items inner ∧ cs = '[' :: inner := by
  cases h with
  | number n hn => exact (NumberText.isLeaf_of_value? hn).elim
  | array hitems => exact ⟨_, hitems, rfl⟩

theorem SpelledBy.exists_members {members : List (String × Json)} {cs : List Char}
    (h : SpelledBy (.object members) cs) :
    ∃ inner, MembersSpelledBy members inner ∧ cs = '\x7b' :: inner := by
  cases h with
  | number n hn => exact (NumberText.isLeaf_of_value? hn).elim
  | object hmembers => exact ⟨_, hmembers, rfl⟩

/-- **Whether a whole text is a value's**: it spells the value, with blanks before and after. -/
def IsWrittenIn (j : Json) (text : String) : Prop :=
  ∃ before cs after, IsBlank before ∧ SpelledBy j cs ∧ IsBlank after ∧
    text.toList = before ++ (cs ++ after)

end TreeScript.Json
