import TreeScript.Proofs.Value.Inside
import TreeScript.Proofs.Table.Faithful
import TreeScript.Run.Interpreter

/-!
# What all values have

A property of values is `Closed` if it goes from what lies directly inside a value to the value and
back, mappings being built from pairs as the language builds them.  Then every operation of the
language keeps it: what an operation gives is a number, a text or a truth value, or it was inside one
of its operands, or it was built of them.  That every mapping in a value has distinct keys is such a
property (`closed_wellKeyed`).
-/

namespace TreeScript

namespace Value

/-- **A property that values have with all that lies inside them.** -/
structure Closed (P : Value → Prop) : Prop where
  atom : ∀ {v}, v.isAtom = true → P v
  sequence : ∀ {items}, (∀ v ∈ items, P v) → P (.sequence items)
  item : ∀ {items}, P (.sequence items) → ∀ v ∈ items, P v
  mapping : ∀ {pairs}, (∀ pair ∈ pairs, P pair.2) → P (.mapping (Entries.ofPairs pairs))
  entry : ∀ {entries}, P (.mapping entries) → ∀ entry ∈ entries, P entry.2

theorem closed_true : Closed fun _ => True where
  atom _ := trivial
  sequence _ := trivial
  item _ _ _ := trivial
  mapping _ := trivial
  entry _ _ _ := trivial

theorem closed_wellKeyed : Closed WellKeyed where
  atom := wellKeyed_atom
  sequence := wellKeyed_sequence.mpr
  item := wellKeyed_sequence.mp
  mapping h := wellKeyed_mapping.mpr ⟨Entries.distinct_ofPairs _, fun entry hentry =>
    h entry (Entries.mem_of_mem_ofPairs hentry)⟩
  entry h := (wellKeyed_mapping.mp h).2

/-! ## Operations -/

variable {v : Value}

theorem isAtom_of_ofLiteral {payload : Json} {kind : LiteralKind}
    (h : ofLiteral payload kind = .ok v) : v.isAtom = true := by
  unfold ofLiteral at h
  split at h
  · split at h
    · cases h
      rfl
    · cases h
  · cases h
    rfl
  · cases h
    rfl
  · split at h
    · cases h
      rfl
    · split at h
      · cases h
        rfl
      · cases h
  · cases h
    rfl
  · cases h

theorem isAtom_of_arithmetic {op : BinaryOp} {a b : Value}
    {f : Float → Float → Except RunError Float} (h : arithmetic op a b f = .ok v) :
    v.isAtom = true := by
  unfold arithmetic at h
  split at h
  · rename_i x y
    cases hf : f x y with
    | ok z =>
      rw [hf] at h
      cases h
      rfl
    | error e =>
      rw [hf] at h
      cases h
  · cases h

theorem isAtom_of_comparison {op : BinaryOp} {a b : Value} {test : Ordering → Bool}
    (h : comparison op a b test = .ok v) : v.isAtom = true := by
  unfold comparison at h
  split at h
  · cases h
    rfl
  · cases h
    rfl
  · cases h

theorem isAtom_of_binary {op : BinaryOp} {a b : Value} (h : binary op a b = .ok v) :
    v.isAtom = true := by
  cases op with
  | add => exact isAtom_of_arithmetic h
  | sub => exact isAtom_of_arithmetic h
  | mul => exact isAtom_of_arithmetic h
  | div => exact isAtom_of_arithmetic h
  | mod => exact isAtom_of_arithmetic h
  | eq =>
    cases h
    rfl
  | ne =>
    cases h
    rfl
  | lt => exact isAtom_of_comparison h
  | gt => exact isAtom_of_comparison h
  | le => exact isAtom_of_comparison h
  | ge => exact isAtom_of_comparison h
  | and => cases h
  | or => cases h

theorem isAtom_of_unary {op : UnaryOp} {a : Value} (h : unary op a = .ok v) :
    v.isAtom = true := by
  unfold unary at h
  split at h
  · cases h
    rfl
  · cases h
  · cases h
    rfl

namespace Closed

variable {P : Value → Prop} (hP : Closed P)

include hP

/-- What is found by an index was inside the value. -/
theorem index {base position : Value} (hbase : P base) (h : Value.index base position = .ok v) :
    P v := by
  unfold Value.index at h
  split at h
  · rename_i items x
    split at h
    · cases h
    · split at h
      · rename_i item hitem
        cases h
        exact hP.item hbase v (List.mem_of_getElem? hitem)
      · cases h
  · split at h
    · rename_i value hvalue
      cases h
      exact hP.entry hbase _ (Entries.mem_of_get?_eq_some hvalue)
    · cases h
  · cases h

/-- What a loop goes through was inside the value, or is a text. -/
theorem items {collection : Value} {items : List Value} (hcollection : P collection)
    (h : Interpreter.itemsOf collection = .ok items) : ∀ v ∈ items, P v := by
  unfold Interpreter.itemsOf at h
  split at h
  · cases h
    exact hP.item hcollection
  · cases h
    simpa using fun key _ => hP.atom rfl
  · cases h

/-- A table is read as mappings of texts. -/
theorem table (s : String) : P (.sequence ((Table.parse s).map .mapping)) := by
  refine hP.sequence fun v hv => ?_
  obtain ⟨entries, hentries, rfl⟩ := List.mem_map.mp hv
  obtain ⟨header, -, line, -, rfl⟩ := Table.mem_ofLines hentries
  refine hP.mapping fun entry hentry => ?_
  obtain ⟨field, -, cell, -, rfl⟩ := Table.mem_pairCells hentry
  exact hP.atom rfl

end Closed

end Value

end TreeScript
