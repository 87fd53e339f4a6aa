import SqlScript.Node.Attribute
import SqlScript.Node.Text

/-!
# What a layout owes to the node itself

The skeleton of a layout is the layout with its children left open. It depends on what the node
holds itself, and on nothing below it. To compare nodes whose positions differ, the positions of
one are seen through a function `f` and those of the other through a function `g`:

* `Node.form`: the kind of a node, what it holds itself and, for a unary expression, its operator;
* `slots_layout`: nodes of one form have one skeleton.
-/

namespace SqlScript

/-! ## Skeletons -/

/-- One place of a layout, with a child left open. -/
inductive Slot where
  | word (text : String)
  | mark (p : Position)
  | child
  deriving DecidableEq, Repr

/-- What a piece leaves in the skeleton, its position seen through a function. -/
def Piece.slot (f : Position → Position) : Piece → Slot
  | word text => .word text
  | mark p => .mark (f p)
  | child _ => .child

namespace Layout

variable {f : Position → Position}

/-- The skeleton of a layout. -/
def slots (f : Position → Position) (pieces : List Piece) : List Slot :=
  pieces.map (Piece.slot f)

/-- Open places with a word between each two of them. -/
def places (separator : String) (k : Nat) : List Slot :=
  (List.replicate k Slot.child).intersperse (.word separator)

@[simp] theorem slots_nil : slots f [] = [] := rfl

@[simp] theorem slots_word (text : String) (ps : List Piece) :
    slots f (.word text :: ps) = .word text :: slots f ps := rfl

@[simp] theorem slots_mark (p : Position) (ps : List Piece) :
    slots f (.mark p :: ps) = .mark (f p) :: slots f ps := rfl

@[simp] theorem slots_child (n : Node) (ps : List Piece) :
    slots f (.child n :: ps) = .child :: slots f ps := rfl

@[simp] theorem slots_append (ps qs : List Piece) :
    slots f (ps ++ qs) = slots f ps ++ slots f qs := List.map_append

@[simp] theorem slots_ite {c : Prop} [Decidable c] (ps qs : List Piece) :
    slots f (if c then ps else qs) = if c then slots f ps else slots f qs := by
  split <;> rfl

@[simp] theorem slots_wordIf (b : Bool) (text : String) :
    slots f (wordIf b text) = if b then [.word text] else [] := by
  simp [wordIf]

@[simp] theorem slots_words (texts : List String) :
    slots f (texts.map .word) = texts.map .word := by
  simp [slots, Piece.slot]

@[simp] theorem slots_separated (text : String) (ns : List Node) :
    slots f (separated text ns) = places text ns.length := by
  unfold separated places
  induction ns with
  | nil => rfl
  | cons n ns ih =>
    cases ns with
    | nil => rfl
    | cons m ns => simpa [List.intersperse, List.replicate_succ] using ih

@[simp] theorem slots_parenthesized (ns : List Node) :
    slots f (parenthesized ns) = .word "(" :: places ", " ns.length ++ [.word ")"] := by
  simp [parenthesized]

theorem isEmpty_eq_decide (l : List α) : l.isEmpty = decide (l.length = 0) := by
  cases l <;> simp

@[simp] theorem slots_clause (keyword : String) (ns : List Node) :
    slots f (clause keyword ns) =
      if ns.length = 0 then [] else .word keyword :: places ", " ns.length := by
  simp [clause, isEmpty_eq_decide]

@[simp] theorem slots_token (text : String) (span : Span) :
    slots f (token text span) = [.mark (f span.start), .word text, .mark (f span.stop)] := rfl

@[simp] theorem slots_enclosed (span : Span) (ps : List Piece) :
    slots f (enclosed span ps) =
      .mark (f span.start) :: slots f ps ++ [.mark (f span.stop)] := by
  simp [enclosed]

@[simp] theorem slots_whenSome_none (layout : α → List Piece) :
    slots f (whenSome none layout) = [] := rfl

@[simp] theorem slots_whenSome_some (x : α) (layout : α → List Piece) :
    slots f (whenSome (some x) layout) = slots f (layout x) := rfl

/-- An optional part shows in the skeleton only by being there. -/
theorem slots_whenSome {layout : α → List Piece} {ss : List Slot} (o : Option α)
    (h : ∀ x, slots f (layout x) = ss) :
    slots f (whenSome o layout) = if o.isSome then ss else [] := by
  cases o with
  | none => rfl
  | some x => exact h x

/-- A list of like parts shows in the skeleton only by its length. -/
theorem slots_flatMap {layout : α → List Piece} {ss : List Slot} (l : List α)
    (h : ∀ x, slots f (layout x) = ss) :
    slots f (l.flatMap layout) = (List.replicate l.length ss).flatten := by
  induction l with
  | nil => rfl
  | cons x l ih => simp [h, ih, List.replicate_succ]

end Layout

/-! ## Forms -/

/-- A datum with its position seen through a function. The comments of a script are no part of its
layout and are left out. -/
def Attribute.mapPosition (f : Position → Position) : Attribute → Attribute
  | position p => position (f p)
  | comments _ => comments []
  | a => a

/-- What the layout of a node may depend on, beside the children in it. -/
structure Form where
  kind : NodeKind
  data : List Attribute
  /-- The operator of a unary expression, which decides about the blank behind it. -/
  operator : Option OperatorKind

namespace Node

/-- The operator of a unary expression. -/
def unaryOperator? : Node → Option OperatorKind
  | expr (.unary op _) => some op.val
  | _ => none

/-- The form of a node, its own positions seen through a function. -/
def form (f : Position → Position) (n : Node) : Form :=
  ⟨n.kind, n.attributes.map (Attribute.mapPosition f), n.unaryOperator?⟩

end Node

/-- Wherever two functions lead to one position, they do so one column to the right as well. -/
def InStep (f g : Position → Position) : Prop :=
  ∀ p q, f p = g q → f (p.advance 1) = g (q.advance 1)

/-- Forgets where a position is. -/
def Position.forget (_ : Position) : Position := ⟨0, 0⟩

theorem inStep_forget : InStep Position.forget Position.forget :=
  fun _ _ _ => rfl

/-! ## One form, one skeleton

In each of these, the members of a family are taken in pairs. Pairs of different kinds fall away,
and in the rest the data of the two are equal one by one. -/

open Layout Attribute

variable {f g : Position → Position}

theorem slots_expr {a b : Expr} (hfg : InStep f g) (hk : a.kind = b.kind)
    (hd : a.attributes.map (mapPosition f) = b.attributes.map (mapPosition g))
    (ho : (Node.expr a).unaryOperator? = (Node.expr b).unaryOperator?) :
    slots f a.layout = slots g b.layout := by
  cases a <;> cases b <;> cases hk
  case wildcard.wildcard.refl star star' =>
    have hstar : f star = g star' := by simpa [Expr.attributes, mapPosition] using hd
    simp [Expr.layout, hstar, hfg star star' hstar]
  case existsQuery.existsQuery.refl notStart _ _ _ notStart' _ _ _ =>
    cases notStart <;> cases notStart' <;>
      simp_all [Expr.attributes, ofPosition?, mapPosition, Expr.layout]
  all_goals
    simp_all [Expr.attributes, ofSpan, ofList, ofOption, mapPosition, Node.unaryOperator?,
      Expr.layout, slots_whenSome, slots_flatMap]

theorem slots_dataType {a b : DataType}
    (hd : a.attributes.map (mapPosition f) = b.attributes.map (mapPosition g)) :
    slots f a.layout = slots g b.layout := by
  cases a <;> cases b <;> simp_all [DataType.attributes, ofSpan, mapPosition, DataType.layout]

theorem slots_windowSpec {a b : WindowSpec}
    (hd : a.attributes.map (mapPosition f) = b.attributes.map (mapPosition g)) :
    slots f a.layout = slots g b.layout := by
  simp_all [WindowSpec.attributes, ofSpan, ofList, ofOption, mapPosition, WindowSpec.layout,
    slots_whenSome, isEmpty_eq_decide]

theorem slots_windowFrame {a b : WindowFrame}
    (hd : a.attributes.map (mapPosition f) = b.attributes.map (mapPosition g)) :
    slots f a.layout = slots g b.layout := by
  obtain ⟨_, _, _, upper⟩ := a
  obtain ⟨_, _, _, upper'⟩ := b
  cases upper <;> cases upper' <;>
    simp_all [WindowFrame.attributes, ofOption, mapPosition, WindowFrame.layout]

theorem slots_sortKey {a b : SortKey}
    (hd : a.attributes.map (mapPosition f) = b.attributes.map (mapPosition g)) :
    slots f a.layout = slots g b.layout := by
  obtain ⟨_, direction⟩ := a
  obtain ⟨_, direction'⟩ := b
  cases direction <;> cases direction' <;>
    simp_all [SortKey.attributes, mapPosition, SortKey.layout]

theorem slots_setExpr {a b : SetExpr} (hk : a.kind = b.kind)
    (hd : a.attributes.map (mapPosition f) = b.attributes.map (mapPosition g)) :
    slots f a.layout = slots g b.layout := by
  cases a <;> cases b <;> cases hk <;>
    simp_all [SetExpr.attributes, ofSpan, ofList, ofOption, mapPosition, SetExpr.layout,
      slots_whenSome]

theorem slots_selectItem {a b : SelectItem} (hfg : InStep f g) (hk : a.kind = b.kind)
    (hd : a.attributes.map (mapPosition f) = b.attributes.map (mapPosition g)) :
    slots f a.layout = slots g b.layout := by
  cases a <;> cases b <;> cases hk
  case wildcard.wildcard.refl star star' =>
    have hstar : f star = g star' := by simpa [SelectItem.attributes, mapPosition] using hd
    simp [SelectItem.layout, hstar, hfg star star' hstar]
  all_goals simp_all [SelectItem.attributes, mapPosition, SelectItem.layout]

theorem slots_limit {a b : Limit}
    (hd : a.attributes.map (mapPosition f) = b.attributes.map (mapPosition g)) :
    slots f a.layout = slots g b.layout := by
  obtain ⟨_, value, _⟩ := a
  obtain ⟨_, value', _⟩ := b
  cases value <;> cases value' <;>
    simp_all [Limit.attributes, ofPosition?, ofOption, mapPosition, Limit.layout, slots_whenSome]

theorem slots_tableReference {a b : TableReference} (hk : a.kind = b.kind)
    (hd : a.attributes.map (mapPosition f) = b.attributes.map (mapPosition g)) :
    slots f a.layout = slots g b.layout := by
  cases a <;> cases b <;> cases hk
  case table.table.refl _ args _ hints _ args' _ hints' =>
    cases args <;> cases args' <;> cases hints <;> cases hints' <;>
      simp_all [TableReference.attributes, TableArgs.attributes?, TableHints.attributes?, ofList,
        ofOption, mapPosition, TableReference.layout, aliasLayout, slots_whenSome]
  case derived.derived.refl lateralStart _ _ _ _ lateralStart' _ _ _ _ =>
    cases lateralStart <;> cases lateralStart' <;>
      simp_all [TableReference.attributes, ofPosition?, ofOption, mapPosition,
        TableReference.layout, aliasLayout, slots_whenSome]
  all_goals
    simp_all [TableReference.attributes, ColumnList.attributes, ofList, mapPosition,
      TableReference.layout, ColumnList.layout]

theorem slots_joinSpec {a b : JoinSpec} (hk : a.kind = b.kind)
    (hd : a.attributes.map (mapPosition f) = b.attributes.map (mapPosition g)) :
    slots f a.layout = slots g b.layout := by
  cases a <;> cases b <;> cases hk <;>
    simp_all [JoinSpec.attributes, ColumnList.attributes, ofList, mapPosition, JoinSpec.layout,
      ColumnList.layout]

theorem slots_insertSource {a b : InsertSource} (hk : a.kind = b.kind)
    (hd : a.attributes.map (mapPosition f) = b.attributes.map (mapPosition g)) :
    slots f a.layout = slots g b.layout := by
  cases a <;> cases b <;> cases hk <;>
    simp_all [InsertSource.attributes, ofList, mapPosition, InsertSource.layout]

theorem slots_constraintName {a b : Option ConstraintName}
    (hd : (ConstraintName.attributes? a).map (mapPosition f) =
      (ConstraintName.attributes? b).map (mapPosition g)) :
    slots f (ConstraintName.layout? a) = slots g (ConstraintName.layout? b) := by
  cases a <;> cases b <;>
    simp_all [ConstraintName.attributes?, mapPosition, ConstraintName.layout?]

theorem slots_tableElement {a b : TableElement} (hk : a.kind = b.kind)
    (hd : a.attributes.map (mapPosition f) = b.attributes.map (mapPosition g)) :
    slots f a.layout = slots g b.layout := by
  cases a <;> cases b <;> cases hk
  case column.column.refl =>
    simp_all [TableElement.attributes, ofList, ofOption, mapPosition, TableElement.layout,
      slots_whenSome, slots_flatMap]
  case constraint.constraint.refl => simp [TableElement.layout, slots_constraintName hd]

theorem slots_columnRule {a b : ColumnRule} (hk : a.kind = b.kind)
    (hd : a.attributes.map (mapPosition f) = b.attributes.map (mapPosition g)) :
    slots f a.layout = slots g b.layout := by
  cases a <;> cases b <;> cases hk
  case references.references.refl key key' =>
    obtain ⟨_, _, columns⟩ := key
    obtain ⟨_, _, columns'⟩ := key'
    cases columns <;> cases columns' <;>
      simp_all [ColumnRule.attributes, ColumnList.attributes, ofList, mapPosition,
        ColumnRule.layout, ReferenceKey.layout, ColumnList.layout]
  all_goals simp_all [ColumnRule.attributes, ofSpan, mapPosition, ColumnRule.layout]

theorem slots_tableRule {a b : TableRule} (hk : a.kind = b.kind)
    (hd : a.attributes.map (mapPosition f) = b.attributes.map (mapPosition g)) :
    slots f a.layout = slots g b.layout := by
  cases a <;> cases b <;> cases hk <;>
    simp_all [TableRule.attributes, ColumnList.attributes, ofSpan, ofList, mapPosition,
      TableRule.layout, ColumnList.layout]

theorem slots_cascade {a b : Option Position}
    (hd : (ofPosition? a).map (mapPosition f) = (ofPosition? b).map (mapPosition g)) :
    slots f (cascadeLayout a) = slots g (cascadeLayout b) := by
  cases a <;> cases b <;> simp_all [ofPosition?, mapPosition, cascadeLayout]

theorem slots_columnChange {a b : ColumnChange} (hk : a.kind = b.kind)
    (hd : a.attributes.map (mapPosition f) = b.attributes.map (mapPosition g)) :
    slots f a.layout = slots g b.layout := by
  cases a <;> cases b <;> cases hk <;>
    simp_all [ColumnChange.attributes, ofSpan, mapPosition, ColumnChange.layout]

theorem slots_tableChange {a b : TableChange} (hk : a.kind = b.kind)
    (hd : a.attributes.map (mapPosition f) = b.attributes.map (mapPosition g)) :
    slots f a.layout = slots g b.layout := by
  cases a <;> cases b <;> cases hk <;>
    simp only [TableChange.attributes, List.map_cons, List.cons.injEq, mapPosition,
      position.injEq] at hd <;>
    simp [TableChange.layout, hd.1]
  case dropConstraint.dropConstraint.refl => exact slots_cascade hd.2
  case dropColumn.dropColumn.refl => exact slots_cascade hd.2

theorem slots_statement {a b : Statement} (hk : a.kind = b.kind)
    (hd : a.attributes.map (mapPosition f) = b.attributes.map (mapPosition g)) :
    slots f a.layout = slots g b.layout := by
  cases a <;> cases b <;> cases hk
  case createTable.createTable.refl s s' =>
    obtain ⟨_, _, _, _, _, external⟩ := s
    obtain ⟨_, _, _, _, _, external'⟩ := s'
    cases external <;> cases external' <;>
      simp_all [Statement.attributes, ofList, mapPosition, Statement.layout]
  case dropTable.dropTable.refl s s' =>
    simp only [Statement.attributes, List.map_cons, mapPosition, ofList, List.cons_append,
      List.nil_append, List.cons.injEq] at hd
    simp_all [Statement.layout, slots_cascade hd.2.2.2]
  all_goals
    simp_all [Statement.attributes, Query.attributes, ColumnList.attributes, ofList, ofOption,
      mapPosition, Statement.layout, Query.layout, ColumnList.layout, selectionLayout,
      slots_whenSome, isEmpty_eq_decide]

theorem slots_script {a b : Script}
    (hd : a.statements.toList.length = b.statements.toList.length) :
    slots f a.layout = slots g b.layout := by
  obtain ⟨⟨_, _⟩, _, _⟩ := a
  obtain ⟨⟨_, _⟩, _, _⟩ := b
  simp_all [Script.layout, slots_flatMap]

/-! ## All nodes -/

/-- The number, among the forms of `Node`, of the one in which nodes of a kind come. -/
def NodeKind.family : NodeKind → Nat
  | ident | compoundIdent | wildcard | qualifiedWildcard | literal | binary | unary | isNull
  | inList | inSubquery | between | cast | nested | function | caseWhen | existsQuery
  | subquery => 0
  | objectName => 1
  | operator => 2
  | dataType => 3
  | windowSpec => 4
  | windowFrame => 5
  | frameBound => 6
  | query | insert | update | delete | createView | createTable | alterTable | dropTable
  | createIndex | dropIndex | explain => 7
  | withClause => 8
  | cte => 9
  | select | parenthesizedQuery | setOperation => 10
  | unnamedItem | aliasedItem | qualifiedWildcardItem | wildcardItem => 11
  | sortKey => 12
  | limit => 13
  | table | derivedTable | crossJoin | qualifiedJoin | naturalJoin | partitionedTable => 14
  | joinType => 15
  | joinCondition | sharedColumns => 16
  | assignment => 17
  | insertValues | insertQuery => 18
  | row => 19
  | columnDef | tableConstraint => 20
  | columnConstraint => 21
  | columnNotNull | columnUnique | referenceKey | columnCheck => 22
  | tableUnique | tableForeignKey | tableCheck => 23
  | addColumn | addConstraint | dropConstraint | dropColumn | alterColumn => 24
  | setDefault | dropDefault | setType | setNotNull | dropNotNull => 25
  | script => 26
  | comment => 27
  | commentGroup => 28

namespace Node

theorem family_kind (n : Node) : n.kind.family = n.ctorIdx := by
  cases n with
  | expr e => cases e <;> rfl
  | statement s => cases s <;> rfl
  | setExpr s => cases s <;> rfl
  | selectItem i => cases i <;> rfl
  | tableReference t => cases t <;> rfl
  | joinSpec s => cases s <;> rfl
  | insertSource s => cases s <;> rfl
  | tableElement e => cases e <;> rfl
  | columnRule r => cases r <;> rfl
  | tableRule r => cases r <;> rfl
  | tableChange c => cases c <;> rfl
  | columnChange c => cases c <;> rfl
  | _ => rfl

/-- Nodes of one form have one skeleton. -/
theorem slots_layout (hfg : InStep f g) {a b : Node} (h : a.form f = b.form g) :
    slots f a.layout = slots g b.layout := by
  simp only [form, Form.mk.injEq] at h
  obtain ⟨hk, hd, ho⟩ := h
  have hi : a.ctorIdx = b.ctorIdx := by rw [← family_kind, ← family_kind, hk]
  cases a <;> cases b <;> cases hi
  case expr.expr.refl => exact slots_expr hfg hk hd ho
  case dataType.dataType.refl => exact slots_dataType hd
  case windowSpec.windowSpec.refl => exact slots_windowSpec hd
  case windowFrame.windowFrame.refl => exact slots_windowFrame hd
  case statement.statement.refl => exact slots_statement hk hd
  case setExpr.setExpr.refl => exact slots_setExpr hk hd
  case selectItem.selectItem.refl => exact slots_selectItem hfg hk hd
  case sortKey.sortKey.refl => exact slots_sortKey hd
  case limit.limit.refl => exact slots_limit hd
  case tableReference.tableReference.refl => exact slots_tableReference hk hd
  case joinSpec.joinSpec.refl => exact slots_joinSpec hk hd
  case insertSource.insertSource.refl => exact slots_insertSource hk hd
  case tableElement.tableElement.refl => exact slots_tableElement hk hd
  case columnRule.columnRule.refl => exact slots_columnRule hk hd
  case tableRule.tableRule.refl => exact slots_tableRule hk hd
  case tableChange.tableChange.refl => exact slots_tableChange hk hd
  case columnChange.columnChange.refl => exact slots_columnChange hk hd
  case columnConstraint.columnConstraint.refl =>
    simp [layout, ColumnConstraint.layout, slots_constraintName hd]
  case script.script.refl =>
    simp only [attributes, ofList, List.map_cons, mapPosition, List.cons.injEq,
      count.injEq] at hd
    exact slots_script hd.1
  all_goals
    simp_all [attributes, ofSpan, ofList, mapPosition, layout, ObjectName.layout, With.layout,
      Cte.layout, Assignment.layout, Row.layout]

end Node

end SqlScript
