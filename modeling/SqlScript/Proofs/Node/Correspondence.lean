import SqlScript.Node.Equality
import SqlScript.Output.Sink
import SqlScript.Proofs.Node.Skeleton

/-!
# Corresponding nodes have corresponding leaves

Nodes correspond when they have the same kind, related data and corresponding children. If the
relation leaves nothing of the data open but positions, all that can differ between the leaves of
the two nodes are positions:

* `Node.form_eq_of_corresponds`: corresponding nodes have one form;
* `Node.leaves_eq_of_corresponds`: their leaves are the same, with positions seen through the same
  functions;
* `Node.render_eq_of_corresponds`: nodes that differ in positions only are written alike, text by
  text and so on every device.
-/

namespace SqlScript

/-- A leaf with its position seen through a function. -/
def Leaf.mapPosition (f : Position → Position) : Leaf → Leaf
  | word text => word text
  | mark p => mark (f p)

/-- A skeleton with leaves put into its open places. -/
def Slot.fill : List Slot → List (List Leaf) → List Leaf
  | .word text :: ss, cs => .word text :: fill ss cs
  | .mark p :: ss, cs => .mark p :: fill ss cs
  | .child :: ss, c :: cs => c ++ fill ss cs
  | .child :: ss, [] => fill ss []
  | [], _ => []

namespace Layout

/-- The leaves of a layout fill its skeleton with the leaves of its children. -/
theorem map_leaves_eq_fill (f : Position → Position) (pieces : List Piece) :
    (pieces.flatMap Piece.leaves).map (Leaf.mapPosition f) =
      Slot.fill (slots f pieces)
        ((childNodes pieces).map fun c => c.leaves.map (Leaf.mapPosition f)) := by
  induction pieces with
  | nil => rfl
  | cons piece pieces ih =>
    rw [List.flatMap_cons, List.map_append, ih]
    cases piece <;> simp [Piece.leaves, Slot.fill, Leaf.mapPosition]

end Layout

open Layout

namespace Node

theorem map_leaves_eq_fill (f : Position → Position) (n : Node) :
    n.leaves.map (Leaf.mapPosition f) =
      Slot.fill (slots f n.layout)
        (n.children.map fun c => c.leaves.map (Leaf.mapPosition f)) := by
  rw [leaves_eq, Layout.map_leaves_eq_fill, childNodes_layout]

/-- Where positions are does not show in the fragments. -/
theorem fragments_eq_map_leaves (f : Position → Position) (n : Node) :
    n.fragments = (n.leaves.map (Leaf.mapPosition f)).filterMap Leaf.text? := by
  rw [fragments, List.filterMap_map]
  congr 1
  funext leaf
  cases leaf <;> rfl

/-! ## Correspondence -/

/-- Lists of related elements have the same images, if related elements have. -/
theorem map_eq_map_of_pairwise {r : α → β → Bool} {F : α → γ} {G : β → γ} {xs : List α}
    {ys : List β} (hr : ∀ x ∈ xs, ∀ y ∈ ys, r x y = true → F x = G y)
    (h : pairwise r xs ys = true) : xs.map F = ys.map G := by
  induction xs generalizing ys with
  | nil =>
    cases ys with
    | nil => rfl
    | cons y ys => cases h
  | cons x xs ih =>
    cases ys with
    | nil => cases h
    | cons y ys =>
      simp only [pairwise, Bool.and_eq_true] at h
      have hhead : F x = G y := hr x List.mem_cons_self y List.mem_cons_self h.1
      have htail : xs.map F = ys.map G :=
        ih (fun a ha b hb => hr a (.tail x ha) b (.tail y hb)) h.2
      rw [List.map_cons, List.map_cons, hhead, htail]

/-- What correspondence says of a root and its children. -/
theorem corresponds_iff {r : Attribute → Attribute → Bool} {a b : Node} :
    a.corresponds r b = true ↔ a.kind = b.kind ∧ pairwise r a.attributes b.attributes = true ∧
      pairwise (corresponds r) a.children b.children = true := by
  rw [corresponds_eq, Bool.and_eq_true, Bool.and_eq_true, beq_iff_eq, and_assoc]

theorem exists_unary_of_kind {n : Node} (h : n.kind = .unary) :
    ∃ op operand, n = expr (.unary op operand) := by
  have hi : n.ctorIdx = 0 := by rw [← family_kind, h]; rfl
  cases n with
  | expr e =>
    cases e <;> cases h
    exact ⟨_, _, rfl⟩
  | _ => cases hi

theorem unaryOperator?_eq_none {n : Node} (h : n.kind ≠ .unary) : n.unaryOperator? = none := by
  cases n with
  | expr e =>
    cases e with
    | unary op operand => exact absurd rfl h
    | _ => rfl
  | _ => rfl

variable {r : Attribute → Attribute → Bool} {f g : Position → Position}

/-- Corresponding unary expressions have one operator, although it is a child of theirs. -/
theorem unaryOperator?_eq_of_corresponds {a b : Node}
    (hr : ∀ k l, r (.operator k) (.operator l) = true → k = l)
    (h : a.corresponds r b = true) : a.unaryOperator? = b.unaryOperator? := by
  obtain ⟨hk, -, hc⟩ := corresponds_iff.mp h
  by_cases hu : a.kind = .unary
  · obtain ⟨op, operand, rfl⟩ := exists_unary_of_kind hu
    obtain ⟨op', operand', rfl⟩ := exists_unary_of_kind (hk ▸ hu)
    simp only [children, Expr.children, pairwise, Bool.and_eq_true] at hc
    obtain ⟨-, hop, -⟩ := corresponds_iff.mp hc.1
    simp only [attributes, pairwise, Bool.and_eq_true] at hop
    simp [unaryOperator?, hr _ _ hop.1]
  · rw [unaryOperator?_eq_none hu, unaryOperator?_eq_none (hk ▸ hu)]

/-- Corresponding nodes have one form. -/
theorem form_eq_of_corresponds {a b : Node}
    (hr : ∀ x y, r x y = true → x.mapPosition f = y.mapPosition g)
    (h : a.corresponds r b = true) : a.form f = b.form g := by
  obtain ⟨hk, hd, -⟩ := corresponds_iff.mp h
  have hdata := map_eq_map_of_pairwise (fun x _ y _ => hr x y) hd
  have hoperator : ∀ k l, r (.operator k) (.operator l) = true → k = l :=
    fun k l hkl => Attribute.operator.inj (hr _ _ hkl)
  rw [form, form, hk, hdata, unaryOperator?_eq_of_corresponds hoperator h]

/-- Corresponding nodes have the same leaves, positions seen through the same functions. -/
theorem leaves_eq_of_corresponds {a b : Node} (hfg : InStep f g)
    (hr : ∀ x y, r x y = true → x.mapPosition f = y.mapPosition g)
    (h : a.corresponds r b = true) :
    a.leaves.map (Leaf.mapPosition f) = b.leaves.map (Leaf.mapPosition g) := by
  obtain ⟨-, -, hc⟩ := corresponds_iff.mp h
  have hchildren : (a.children.map fun c => c.leaves.map (Leaf.mapPosition f)) =
      b.children.map fun c => c.leaves.map (Leaf.mapPosition g) :=
    map_eq_map_of_pairwise (fun c hmem d _ hcd => leaves_eq_of_corresponds hfg hr hcd) hc
  rw [map_leaves_eq_fill, map_leaves_eq_fill, slots_layout hfg (form_eq_of_corresponds hr h),
    hchildren]
termination_by a.weight
decreasing_by exact weight_lt_of_mem_children hmem

end Node

/-! ## Nodes that differ in positions only -/

/-- Whether two data are the same but for where they stand: positions may differ in value, and so
may the comments of a script. -/
def Attribute.agreesUpToPosition : Attribute → Attribute → Bool
  | position _, position _ => true
  | comments _, comments _ => true
  | x, y => x == y

theorem Attribute.mapPosition_eq_of_agrees {x y : Attribute}
    (h : x.agreesUpToPosition y = true) : x.mapPosition .forget = y.mapPosition .forget := by
  unfold agreesUpToPosition at h
  split at h
  · rfl
  · rfl
  · rw [beq_iff_eq.mp h]

namespace Node

/-- Nodes that differ in positions only have the same text, and are written alike: on every device
they end in the same state, with the same number of bytes and the same fault, if any. -/
theorem render_eq_of_corresponds {a b : Node}
    (h : a.corresponds Attribute.agreesUpToPosition b = true) :
    a.toSql = b.toSql ∧ ∀ (σ : Type u) (d : Device σ) (s : σ), a.render d s = b.render d s := by
  have hleaves := leaves_eq_of_corresponds inStep_forget
    (fun _ _ => Attribute.mapPosition_eq_of_agrees) h
  have hfragments : a.fragments = b.fragments := by
    rw [fragments_eq_map_leaves .forget a, fragments_eq_map_leaves .forget b, hleaves]
  refine ⟨?_, fun σ d s => ?_⟩
  · rw [toSql, toSql, hfragments]
  · rw [render, render, Sink.node, Sink.node, hfragments]

end Node

/-- `DROP TABLE a CASCADE` on a line. -/
def Statement.dropTableOnLine (line : UInt32) : Statement :=
  .dropTable ⟨⟨line, 1⟩, false, ⟨⟨⟨"a", ⟨⟨line, 12⟩, ⟨line, 13⟩⟩⟩, []⟩, []⟩, some ⟨line, 21⟩⟩

/-- The statement on the first line of a script. -/
def Script.dropTable : Script :=
  ⟨⟨.dropTableOnLine 1, []⟩, [], rfl⟩

/-- The statement on the third line of a script, with a comment above it. -/
def Script.dropTableBelowComment : Script :=
  ⟨⟨.dropTableOnLine 3, []⟩, [⟨⟨⟨"-- a", ⟨⟨2, 1⟩, ⟨2, 5⟩⟩⟩, []⟩⟩], rfl⟩

/-- Two scripts of which this speaks: they differ in every position and in their comments. -/
theorem Node.render_dropTable :
    (script .dropTable).corresponds Attribute.agreesUpToPosition
        (script .dropTableBelowComment) = true ∧
      (script .dropTable).toSql = (script .dropTableBelowComment).toSql ∧
      (script .dropTable).render .scripted { script := [], chunk := some 2, limit := none } =
        (script .dropTableBelowComment).render .scripted
          { script := [], chunk := some 2, limit := none } := by
  have h : (script .dropTable).corresponds Attribute.agreesUpToPosition
      (script .dropTableBelowComment) = true := by
    simp [corresponds_eq, kind, attributes, children, pairwise, Script.dropTable,
      Script.dropTableBelowComment, Statement.dropTableOnLine, Statement.kind,
      Statement.attributes, Statement.children, Node.ident, Expr.kind, Expr.attributes,
      Expr.children, Attribute.ofSpan, Attribute.ofList, Attribute.ofPosition?,
      Attribute.agreesUpToPosition]
  obtain ⟨htext, hrender⟩ := render_eq_of_corresponds h
  exact ⟨h, htext, hrender _ .scripted _⟩

end SqlScript
