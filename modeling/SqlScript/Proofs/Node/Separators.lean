import SqlScript.Proofs.Node.Skeleton

/-!
# The text of a node around the texts of its children

A node writes each of its children once, in order, and what it writes around them is its own: the
separators. These are read off the skeleton of the layout, so that no child has a say in them.

* `weave`: separators with texts between them;
* `Layout.join_fragments`: a layout writes its separators, woven with the texts of its children;
* `Node.noValue_attributes`: only a node without children holds a text or a constant;
* `Node.toSql_eq_weave`: the text of a node is that of its children, in order, between separators
  that depend on the form of the node only.
-/

namespace SqlScript

/-- The texts in front of, between and behind the open places of a skeleton. -/
def Slot.separators : List Slot → List String
  | [] => [""]
  | .word text :: ss => (separators ss).modifyHead (text ++ ·)
  | .mark _ :: ss => separators ss
  | .child :: ss => "" :: separators ss

/-- Separators with texts between them: one text behind each separator but the last. -/
def weave : List String → List String → String
  | s :: ss, t :: ts => s ++ t ++ weave ss ts
  | s :: _, [] => s
  | [], _ => ""

/-- The texts that a node writes in front of, between and behind its children. -/
def Node.separators (n : Node) : List String :=
  Slot.separators (Layout.slots Position.forget n.layout)

theorem Slot.separators_ne_nil (ss : List Slot) : separators ss ≠ [] := by
  induction ss with
  | nil => simp [separators]
  | cons slot ss ih => cases slot <;> simp [separators, ih]

theorem weave_modifyHead {ss : List String} (h : ss ≠ []) (text : String) (ts : List String) :
    weave (ss.modifyHead (text ++ ·)) ts = text ++ weave ss ts := by
  cases ss with
  | nil => exact absurd rfl h
  | cons s ss => cases ts <;> simp [weave, String.append_assoc]

namespace Layout

variable {f : Position → Position}

/-- There is one separator more than there are children. -/
theorem length_separators_slots (pieces : List Piece) :
    (Slot.separators (slots f pieces)).length = (childNodes pieces).length + 1 := by
  induction pieces with
  | nil => rfl
  | cons piece pieces ih => cases piece <;> simp [Slot.separators, ih]

/-- A layout writes its separators, woven with the texts of its children. -/
theorem join_fragments (pieces : List Piece) :
    String.join (fragments pieces) =
      weave (Slot.separators (slots f pieces)) ((childNodes pieces).map Node.toSql) := by
  induction pieces with
  | nil => rfl
  | cons piece pieces ih =>
    have hcons : fragments (piece :: pieces) =
        piece.leaves.filterMap Leaf.text? ++ fragments pieces := by
      simp [fragments]
    rw [hcons, String.join_append, ih]
    cases piece with
    | word text =>
      rw [slots_word, Slot.separators, weave_modifyHead (Slot.separators_ne_nil _)]
      simp [Piece.leaves, Leaf.text?]
    | mark p =>
      have htext : (Piece.mark p).leaves.filterMap Leaf.text? = [] := rfl
      simp [htext, Slot.separators]
    | child c =>
      have htext : String.join ((Piece.child c).leaves.filterMap Leaf.text?) = c.toSql := rfl
      simp [htext, Slot.separators, weave]

end Layout

open Layout

/-! ## What nodes with children hold -/

/-- Whether a datum is a text or a constant, rather than a position, a flag, a choice among
keywords, the presence of a part or a number of parts. -/
def Attribute.isValue : Attribute → Bool
  | text _ | literal _ | builtin _ | frameBound _ => true
  | _ => false

namespace Attribute

/-- No datum of a list is a text or a constant. -/
def NoValue (as : List Attribute) : Prop :=
  ∀ a ∈ as, a.isValue = false

@[simp] theorem noValue_nil : NoValue [] := by
  simp [NoValue]

@[simp] theorem noValue_cons {a : Attribute} {as : List Attribute} :
    NoValue (a :: as) ↔ a.isValue = false ∧ NoValue as := by
  simp [NoValue]

@[simp] theorem noValue_append {as bs : List Attribute} :
    NoValue (as ++ bs) ↔ NoValue as ∧ NoValue bs := by
  simp only [NoValue, List.mem_append]
  constructor
  · intro h
    exact ⟨fun a ha => h a (.inl ha), fun a ha => h a (.inr ha)⟩
  · rintro ⟨h₁, h₂⟩ a (ha | ha)
    · exact h₁ a ha
    · exact h₂ a ha

@[simp] theorem noValue_ofSpan (span : Span) : NoValue (ofSpan span) := by
  simp [ofSpan, isValue]

@[simp] theorem noValue_ofPosition? (o : Option Position) : NoValue (ofPosition? o) := by
  cases o <;> simp [ofPosition?, isValue]

@[simp] theorem isValue_mapPosition (f : Position → Position) (a : Attribute) :
    (a.mapPosition f).isValue = a.isValue := by
  cases a <;> rfl

end Attribute

namespace Node

open Attribute

theorem noValue_tableReference (t : TableReference) : NoValue t.attributes := by
  cases t with
  | table name args aliasName hints =>
    cases args <;> cases hints <;>
      simp [TableReference.attributes, TableArgs.attributes?, TableHints.attributes?, ofList,
        ofOption, isValue]
  | _ => simp [TableReference.attributes, ColumnList.attributes, ofList, ofOption, isValue]

theorem noValue_constraintName (name : Option ConstraintName) :
    NoValue (ConstraintName.attributes? name) := by
  cases name <;> simp [ConstraintName.attributes?, isValue]

theorem noValue_columnRule (r : ColumnRule) : NoValue r.attributes := by
  cases r with
  | references key =>
    obtain ⟨_, _, columns⟩ := key
    cases columns <;> simp [ColumnRule.attributes, ColumnList.attributes, ofList, isValue]
  | _ => simp [ColumnRule.attributes, isValue]

theorem noValue_statement (s : Statement) : NoValue s.attributes := by
  cases s with
  | createTable s =>
    obtain ⟨_, _, _, _, _, external⟩ := s
    cases external <;> simp [Statement.attributes, ofList, isValue]
  | _ =>
    simp [Statement.attributes, Query.attributes, ColumnList.attributes, ofList, ofOption,
      isValue]

/-- A node with children holds neither a text nor a constant itself. -/
theorem noValue_attributes {n : Node} (h : n.children ≠ []) : NoValue n.attributes := by
  cases n with
  | expr e =>
    cases e <;>
      simp_all [children, Expr.children, attributes, Expr.attributes, ofList, ofOption, isValue]
  | dataType t =>
    cases t <;> simp_all [children, DataType.children, attributes, DataType.attributes, isValue]
  | windowSpec w => simp [attributes, WindowSpec.attributes, ofList, ofOption, isValue]
  | windowFrame w => simp [attributes, WindowFrame.attributes, ofOption, isValue]
  | statement s => exact noValue_statement s
  | setExpr s => cases s <;> simp [attributes, SetExpr.attributes, ofList, ofOption, isValue]
  | selectItem i => cases i <;> simp [attributes, SelectItem.attributes, isValue]
  | sortKey k =>
    obtain ⟨_, direction⟩ := k
    cases direction <;> simp [attributes, SortKey.attributes, isValue]
  | limit l =>
    obtain ⟨_, value, _⟩ := l
    cases value <;> simp [attributes, Limit.attributes, ofOption, isValue]
  | tableReference t => exact noValue_tableReference t
  | joinSpec s =>
    cases s <;> simp [attributes, JoinSpec.attributes, ColumnList.attributes, ofList, isValue]
  | insertSource s => cases s <;> simp [attributes, InsertSource.attributes, ofList, isValue]
  | tableElement e =>
    cases e with
    | column c => simp [attributes, TableElement.attributes, ofList, ofOption, isValue]
    | constraint c => exact noValue_constraintName c.name
  | columnConstraint c => exact noValue_constraintName c.name
  | columnRule r => exact noValue_columnRule r
  | tableRule r =>
    cases r <;> simp [attributes, TableRule.attributes, ColumnList.attributes, ofList, isValue]
  | tableChange c => cases c <;> simp [attributes, TableChange.attributes, isValue]
  | columnChange c => cases c <;> simp [attributes, ColumnChange.attributes, isValue]
  | _ => simp_all [children, attributes, ofList, isValue]

/-! ## The text of a node -/

/-- The text of a node is that of its children, each once and in order, between separators. These
depend on the form of the node alone; and where there are children, the form has no text and no
constant in it, but flags, keywords, the presence of parts and the number of elements. -/
theorem toSql_eq_weave (n : Node) :
    n.toSql = weave n.separators (n.children.map toSql) ∧
      n.separators.length = n.children.length + 1 ∧
      (∀ m : Node, m.form .forget = n.form .forget → m.separators = n.separators) ∧
      (n.children ≠ [] → NoValue (n.form .forget).data) := by
  refine ⟨?_, ?_, ?_, ?_⟩
  · rw [toSql, fragments, leaves_eq, separators, ← childNodes_layout]
    exact join_fragments n.layout
  · rw [separators, length_separators_slots, childNodes_layout]
  · intro m h
    rw [separators, separators, slots_layout inStep_forget h]
  · intro h a ha
    obtain ⟨b, hb, rfl⟩ := List.mem_map.mp ha
    rw [isValue_mapPosition]
    exact noValue_attributes h b hb

/-- `NOT a`, or the negation of another identifier, at some place. -/
def negated (name : String) (line : UInt32) : Node :=
  expr (.unary ⟨.not, ⟨⟨line, 1⟩, ⟨line, 4⟩⟩⟩ (.ident ⟨name, ⟨⟨line, 5⟩, ⟨line, 6⟩⟩⟩))

/-- Two negations of different identifiers, of which this speaks. -/
theorem separators_negated :
    (negated "b" 2).form .forget = (negated "a" 1).form .forget ∧
      (negated "b" 2).separators = (negated "a" 1).separators ∧
      (negated "a" 1).children ≠ [] ∧ NoValue ((negated "a" 1).form .forget).data := by
  have hform : (negated "b" 2).form .forget = (negated "a" 1).form .forget := rfl
  have hchildren : (negated "a" 1).children ≠ [] := List.cons_ne_nil _ _
  obtain ⟨-, -, hsame, hvalue⟩ := (negated "a" 1).toSql_eq_weave
  exact ⟨hform, hsame _ hform, hchildren, hvalue hchildren⟩

end Node

end SqlScript
