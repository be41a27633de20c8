import TreeScript.Proofs.Program.Shape

/-!
# The tree of a program

Of a program only the values of its literals are not bound by its own syntax: `payloads` lists them.
If each is a value that a literal can hold, the trees of the program fit the schema, and back from
its trees comes the program itself, whatever the payloads are.

Both facts go by the constructors of expressions and statements, with one theorem for each of the
lists that they hold.
-/

namespace TreeScript

open TreeScript.Tree (Fits FitsAll fits_node fits_text)

/-! ## 1. Payloads -/

mutual

/-- The values that the literals of an expression hold. -/
def Expr.payloads : Expr → List Json
  | .literal payload _ => [payload]
  | .identifier _ => []
  | .binary _ left right => left.payloads ++ right.payloads
  | .unary _ operand => operand.payloads
  | .call _ arguments => Expr.payloadsAll arguments
  | .index base position => base.payloads ++ position.payloads
  | .sequence elements => Expr.payloadsAll elements
  | .mapping entries => Expr.payloadsEntries entries

/-- The values that the literals of a list of expressions hold. -/
def Expr.payloadsAll : List Expr → List Json
  | [] => []
  | e :: rest => e.payloads ++ Expr.payloadsAll rest

/-- The values that the literals of the entries of a mapping hold. -/
def Expr.payloadsEntries : List (String × Expr) → List Json
  | [] => []
  | (_, value) :: rest => value.payloads ++ Expr.payloadsEntries rest

end

/-- The values that the literals of an expression hold that may be absent. -/
def Expr.payloads? : Option Expr → List Json
  | none => []
  | some e => e.payloads

mutual

/-- The values that the literals of a statement hold. -/
def Stmt.payloads : Stmt → List Json
  | .assign _ value => value.payloads
  | .branch condition thenBlock elseBlock =>
    condition.payloads ++ thenBlock.payloads ++ Stmt.payloads? elseBlock
  | .loop condition body => condition.payloads ++ body.payloads
  | .loopFor init condition increment body =>
    init.payloads ++ condition.payloads ++ increment.payloads ++ body.payloads
  | .loopEach _ collection body => collection.payloads ++ body.payloads
  | .declare _ _ body => body.payloads
  | .giveBack value => Expr.payloads? value
  | .evaluate expr => expr.payloads
  | .block statements => Stmt.payloadsAll statements

/-- The values that the literals of an else part hold. -/
def Stmt.payloads? : Option Stmt → List Json
  | none => []
  | some s => s.payloads

/-- The values that the literals of a list of statements hold. -/
def Stmt.payloadsAll : List Stmt → List Json
  | [] => []
  | s :: rest => s.payloads ++ Stmt.payloadsAll rest

end

/-- **The values that the literals of a program hold.** -/
def Program.payloads (p : Program) : List Json := Stmt.payloadsAll p.statements

/-! ## 2. Parts of nodes -/

namespace Tree

theorem fits_ofText? : ∀ s : Option String, Fits .optional .text (.ofText? s)
  | none => .absent
  | some s => .text (by decide) s

/-- Every operator and every kind is found by its own spelling. -/
theorem fits_binary (op : BinaryOp) : Fits .one (.word .binary) (.word (.binary op)) :=
  .word (by cases op <;> decide)

theorem fits_unary (op : UnaryOp) : Fits .one (.word .unary) (.word (.unary op)) :=
  .word (by cases op <;> decide)

theorem fits_kind (k : LiteralKind) : Fits .one (.word .kind) (.word (.kind k)) :=
  .word (by cases k <;> decide)

end Tree

theorem Parameter.fits_toTree (p : Parameter) : Fits .one (.node .parameter) p.toTree :=
  fits_node (by decide) (.cons (fits_text p.name)
    (.cons (Tree.fits_ofText? p.declaredType) .nil))

theorem Parameter.fits_toTrees : ∀ ps : List Parameter,
    FitsAll (.node .parameter) (ps.map Parameter.toTree)
  | [] => .nil
  | p :: ps => .cons p.fits_toTree (Parameter.fits_toTrees ps)

/-! ## 3. The tree of a program fits -/

mutual

/-- **The tree of an expression fits the schema** if its payloads are values. -/
theorem Expr.fits_toTree : ∀ e : Expr, (∀ v ∈ e.payloads, v.IsValue) →
    Fits .one (.node .expression) e.toTree
  | .literal payload kind, h => by
    have hpayload : payload.IsValue := h payload (by simp [Expr.payloads])
    rw [Expr.toTree]
    exact fits_node (by decide)
      (.cons (.payload hpayload) (.cons (Tree.fits_kind kind) .nil))
  | .identifier name, _ => by
    rw [Expr.toTree]
    exact fits_node (by decide) (.cons (fits_text name) .nil)
  | .binary op left right, h => by
    rw [Expr.payloads, List.forall_mem_append] at h
    rw [Expr.toTree]
    exact fits_node (by decide) (.cons (Tree.fits_binary op)
      (.cons (left.fits_toTree h.1) (.cons (right.fits_toTree h.2) .nil)))
  | .unary op operand, h => by
    rw [Expr.payloads] at h
    rw [Expr.toTree]
    exact fits_node (by decide)
      (.cons (Tree.fits_unary op) (.cons (operand.fits_toTree h) .nil))
  | .call name arguments, h => by
    rw [Expr.payloads] at h
    rw [Expr.toTree]
    exact fits_node (by decide) (.cons (fits_text name)
      (.cons (.list (Expr.fits_toTrees arguments h)) .nil))
  | .index base position, h => by
    rw [Expr.payloads, List.forall_mem_append] at h
    rw [Expr.toTree]
    exact fits_node (by decide)
      (.cons (base.fits_toTree h.1) (.cons (position.fits_toTree h.2) .nil))
  | .sequence elements, h => by
    rw [Expr.payloads] at h
    rw [Expr.toTree]
    exact fits_node (by decide) (.cons (.list (Expr.fits_toTrees elements h)) .nil)
  | .mapping entries, h => by
    rw [Expr.payloads] at h
    rw [Expr.toTree]
    exact fits_node (by decide) (.cons (.list (Expr.fits_entryTrees entries h)) .nil)

theorem Expr.fits_toTrees : ∀ es : List Expr, (∀ v ∈ Expr.payloadsAll es, v.IsValue) →
    FitsAll (.node .expression) (Expr.toTrees es)
  | [], _ => by
    rw [Expr.toTrees]
    exact .nil
  | e :: rest, h => by
    rw [Expr.payloadsAll, List.forall_mem_append] at h
    rw [Expr.toTrees]
    exact .cons (e.fits_toTree h.1) (Expr.fits_toTrees rest h.2)

theorem Expr.fits_entryTrees : ∀ entries : List (String × Expr),
    (∀ v ∈ Expr.payloadsEntries entries, v.IsValue) →
    FitsAll (.node .entry) (Expr.entryTrees entries)
  | [], _ => by
    rw [Expr.entryTrees]
    exact .nil
  | (key, value) :: rest, h => by
    rw [Expr.payloadsEntries, List.forall_mem_append] at h
    have hentry : Fits .one (.node .entry) (.node .entry [.text key, value.toTree]) :=
      fits_node (by decide)
        (.cons (fits_text key) (.cons (value.fits_toTree h.1) .nil))
    rw [Expr.entryTrees]
    exact .cons hentry (Expr.fits_entryTrees rest h.2)

end

theorem Expr.fits_toTree? : ∀ e : Option Expr, (∀ v ∈ Expr.payloads? e, v.IsValue) →
    Fits .optional (.node .expression) (Expr.toTree? e)
  | none, _ => .absent
  | some e, h => (e.fits_toTree h).optional

mutual

/-- **The tree of a statement fits the schema** if its payloads are values. -/
theorem Stmt.fits_toTree : ∀ s : Stmt, (∀ v ∈ s.payloads, v.IsValue) →
    Fits .one (.node .statement) s.toTree
  | .assign name value, h => by
    rw [Stmt.payloads] at h
    rw [Stmt.toTree]
    exact fits_node (by decide)
      (.cons (fits_text name) (.cons (value.fits_toTree h) .nil))
  | .branch condition thenBlock elseBlock, h => by
    rw [Stmt.payloads, List.forall_mem_append, List.forall_mem_append] at h
    obtain ⟨⟨hcondition, hthen⟩, helse⟩ := h
    rw [Stmt.toTree]
    exact fits_node (by decide) (.cons (condition.fits_toTree hcondition)
      (.cons (thenBlock.fits_toTree hthen) (.cons (Stmt.fits_toTree? elseBlock helse) .nil)))
  | .loop condition body, h => by
    rw [Stmt.payloads, List.forall_mem_append] at h
    rw [Stmt.toTree]
    exact fits_node (by decide)
      (.cons (condition.fits_toTree h.1) (.cons (body.fits_toTree h.2) .nil))
  | .loopFor init condition increment body, h => by
    rw [Stmt.payloads, List.forall_mem_append, List.forall_mem_append,
      List.forall_mem_append] at h
    obtain ⟨⟨⟨hinit, hcondition⟩, hincrement⟩, hbody⟩ := h
    rw [Stmt.toTree]
    exact fits_node (by decide) (.cons (init.fits_toTree hinit)
      (.cons (condition.fits_toTree hcondition) (.cons (increment.fits_toTree hincrement)
        (.cons (body.fits_toTree hbody) .nil))))
  | .loopEach item collection body, h => by
    rw [Stmt.payloads, List.forall_mem_append] at h
    rw [Stmt.toTree]
    exact fits_node (by decide) (.cons (fits_text item)
      (.cons (collection.fits_toTree h.1) (.cons (body.fits_toTree h.2) .nil)))
  | .declare name parameters body, h => by
    rw [Stmt.payloads] at h
    rw [Stmt.toTree]
    exact fits_node (by decide) (.cons (fits_text name)
      (.cons (.list (Parameter.fits_toTrees parameters)) (.cons (body.fits_toTree h) .nil)))
  | .giveBack value, h => by
    rw [Stmt.payloads] at h
    rw [Stmt.toTree]
    exact fits_node (by decide) (.cons (Expr.fits_toTree? value h) .nil)
  | .evaluate expr, h => by
    rw [Stmt.payloads] at h
    rw [Stmt.toTree]
    exact fits_node (by decide) (.cons (expr.fits_toTree h) .nil)
  | .block statements, h => by
    rw [Stmt.payloads] at h
    rw [Stmt.toTree]
    exact fits_node (by decide) (.cons (.list (Stmt.fits_toTrees statements h)) .nil)

theorem Stmt.fits_toTree? : ∀ s : Option Stmt, (∀ v ∈ Stmt.payloads? s, v.IsValue) →
    Fits .optional (.node .statement) (Stmt.toTree? s)
  | none, _ => by
    rw [Stmt.toTree?]
    exact .absent
  | some s, h => by
    rw [Stmt.payloads?] at h
    rw [Stmt.toTree?]
    exact (s.fits_toTree h).optional

theorem Stmt.fits_toTrees : ∀ ss : List Stmt, (∀ v ∈ Stmt.payloadsAll ss, v.IsValue) →
    FitsAll (.node .statement) (Stmt.toTrees ss)
  | [], _ => by
    rw [Stmt.toTrees]
    exact .nil
  | s :: rest, h => by
    rw [Stmt.payloadsAll, List.forall_mem_append] at h
    rw [Stmt.toTrees]
    exact .cons (s.fits_toTree h.1) (Stmt.fits_toTrees rest h.2)

end

/-! ## 4. Back from the tree -/

theorem Parameter.ofTree?_toTree : ∀ p : Parameter, Parameter.ofTree? p.toTree = some p
  | ⟨_, none⟩ => rfl
  | ⟨_, some _⟩ => rfl

theorem Parameter.ofTrees?_toTrees : ∀ ps : List Parameter,
    Parameter.ofTrees? (ps.map Parameter.toTree) = some ps
  | [] => rfl
  | p :: ps => by
    rw [List.map_cons, Parameter.ofTrees?, p.ofTree?_toTree, Parameter.ofTrees?_toTrees ps]
    rfl

mutual

/-- **An expression is found in its tree.** -/
theorem Expr.ofTree?_toTree : ∀ e : Expr, Expr.ofTree? e.toTree = some e
  | .literal payload kind => by rw [Expr.toTree, Expr.ofTree?]
  | .identifier name => by rw [Expr.toTree, Expr.ofTree?]
  | .binary op left right => by
    rw [Expr.toTree, Expr.ofTree?, left.ofTree?_toTree, right.ofTree?_toTree]
    rfl
  | .unary op operand => by
    rw [Expr.toTree, Expr.ofTree?, operand.ofTree?_toTree]
    rfl
  | .call name arguments => by
    rw [Expr.toTree, Expr.ofTree?, Expr.ofTrees?_toTrees arguments]
    rfl
  | .index base position => by
    rw [Expr.toTree, Expr.ofTree?, base.ofTree?_toTree, position.ofTree?_toTree]
    rfl
  | .sequence elements => by
    rw [Expr.toTree, Expr.ofTree?, Expr.ofTrees?_toTrees elements]
    rfl
  | .mapping entries => by
    rw [Expr.toTree, Expr.ofTree?, Expr.ofEntryTrees?_entryTrees entries]
    rfl

theorem Expr.ofTrees?_toTrees : ∀ es : List Expr, Expr.ofTrees? (Expr.toTrees es) = some es
  | [] => by rw [Expr.toTrees, Expr.ofTrees?]
  | e :: rest => by
    rw [Expr.toTrees, Expr.ofTrees?, e.ofTree?_toTree, Expr.ofTrees?_toTrees rest]
    rfl

theorem Expr.ofEntryTrees?_entryTrees : ∀ entries : List (String × Expr),
    Expr.ofEntryTrees? (Expr.entryTrees entries) = some entries
  | [] => by rw [Expr.entryTrees, Expr.ofEntryTrees?]
  | (key, value) :: rest => by
    rw [Expr.entryTrees, Expr.ofEntryTrees?, value.ofTree?_toTree,
      Expr.ofEntryTrees?_entryTrees rest]
    rfl

end

/-- The tree of an expression is that of something. -/
theorem Expr.toTree_ne_absent (e : Expr) : e.toTree ≠ .absent := by
  intro h
  cases e <;> rw [Expr.toTree] at h <;> cases h

theorem Stmt.toTree_ne_absent (s : Stmt) : s.toTree ≠ .absent := by
  intro h
  cases s <;> rw [Stmt.toTree] at h <;> cases h

theorem Expr.ofOptional?_toTree? : ∀ e : Option Expr,
    Expr.ofOptional? (Expr.toTree? e) = some e
  | none => rfl
  | some e => by
    rw [Expr.toTree?, Expr.ofOptional?, e.ofTree?_toTree]
    · rfl
    · exact e.toTree_ne_absent

mutual

/-- **A statement is found in its tree.** -/
theorem Stmt.ofTree?_toTree : ∀ s : Stmt, Stmt.ofTree? s.toTree = some s
  | .assign name value => by
    rw [Stmt.toTree, Stmt.ofTree?, value.ofTree?_toTree]
    rfl
  | .branch condition thenBlock none => by
    rw [Stmt.toTree, Stmt.ofTree?, condition.ofTree?_toTree, thenBlock.ofTree?_toTree,
      Stmt.toTree?]
    rfl
  | .branch condition thenBlock (some elseBlock) => by
    have helse := elseBlock.ofTree?_toTree
    rw [Stmt.toTree, Stmt.ofTree?, condition.ofTree?_toTree, thenBlock.ofTree?_toTree,
      Stmt.toTree?]
    simp only [Option.bind_eq_bind, Option.bind_some]
    split
    · rename_i habsent
      exact absurd habsent elseBlock.toTree_ne_absent
    · rw [helse]
      rfl
  | .loop condition body => by
    rw [Stmt.toTree, Stmt.ofTree?, condition.ofTree?_toTree, body.ofTree?_toTree]
    rfl
  | .loopFor init condition increment body => by
    rw [Stmt.toTree, Stmt.ofTree?, init.ofTree?_toTree, condition.ofTree?_toTree,
      increment.ofTree?_toTree, body.ofTree?_toTree]
    rfl
  | .loopEach item collection body => by
    rw [Stmt.toTree, Stmt.ofTree?, collection.ofTree?_toTree, body.ofTree?_toTree]
    rfl
  | .declare name parameters body => by
    rw [Stmt.toTree, Stmt.ofTree?, Parameter.ofTrees?_toTrees parameters, body.ofTree?_toTree]
    rfl
  | .giveBack value => by
    rw [Stmt.toTree, Stmt.ofTree?, Expr.ofOptional?_toTree? value]
    rfl
  | .evaluate expr => by
    rw [Stmt.toTree, Stmt.ofTree?, expr.ofTree?_toTree]
    rfl
  | .block statements => by
    rw [Stmt.toTree, Stmt.ofTree?, Stmt.ofTrees?_toTrees statements]
    rfl

theorem Stmt.ofTrees?_toTrees : ∀ ss : List Stmt, Stmt.ofTrees? (Stmt.toTrees ss) = some ss
  | [] => by rw [Stmt.toTrees, Stmt.ofTrees?]
  | s :: rest => by
    rw [Stmt.toTrees, Stmt.ofTrees?, s.ofTree?_toTree, Stmt.ofTrees?_toTrees rest]
    rfl

end

end TreeScript
