import SqlScript.Node.Children

/-!
# Recursion over children

Nodes have a weight, and children weigh less than their parent:

* `weight_lt_of_mem_children`: so recursion over children ends.
-/

namespace SqlScript.Node

/-- The size of a node. A statement counts no more than what it holds, so that a query weighs less
than the source of rows around it. -/
noncomputable def weight : Node → Nat
  | statement s => sizeOf s
  | n => sizeOf n

/-- Every node of a list weighs less than a bound. -/
def AllBelow (w : Nat) (cs : List Node) : Prop :=
  ∀ c ∈ cs, c.weight < w

@[simp] theorem allBelow_nil (w : Nat) : AllBelow w [] := by
  simp [AllBelow]

@[simp] theorem allBelow_cons {w : Nat} {c : Node} {cs : List Node} :
    AllBelow w (c :: cs) ↔ c.weight < w ∧ AllBelow w cs := by
  simp [AllBelow]

@[simp] theorem allBelow_append {w : Nat} {cs ds : List Node} :
    AllBelow w (cs ++ ds) ↔ AllBelow w cs ∧ AllBelow w ds := by
  simp only [AllBelow, List.mem_append]
  constructor
  · intro h
    exact ⟨fun c hc => h c (Or.inl hc), fun c hc => h c (Or.inr hc)⟩
  · rintro ⟨h₁, h₂⟩ c (hc | hc)
    · exact h₁ c hc
    · exact h₂ c hc

/-! ## Lists of parts as lists of nodes -/

/-- A way of seeing parts as nodes that adds at most two to their size. -/
class Thin {α : Type} [SizeOf α] (f : α → Node) : Prop where
  weight_le (x : α) : (f x).weight ≤ sizeOf x + 2

theorem sizeOf_add_two_le_of_mem {α : Type} [SizeOf α] {x : α} {l : List α} (h : x ∈ l) :
    sizeOf x + 2 ≤ sizeOf l := by
  induction h with
  | head l =>
    simp only [List.cons.sizeOf_spec]
    have : 1 ≤ sizeOf l := by
      cases l <;> simp only [List.nil.sizeOf_spec, List.cons.sizeOf_spec] <;> omega
    omega
  | tail y _ ih =>
    simp only [List.cons.sizeOf_spec]
    omega

theorem allBelow_map {α : Type} [SizeOf α] {f : α → Node} [Thin f] {w : Nat} {l : List α}
    (h : sizeOf l < w) : AllBelow w (l.map f) := by
  intro c hc
  obtain ⟨x, hx, rfl⟩ := List.mem_map.mp hc
  have h₁ : (f x).weight ≤ sizeOf x + 2 := Thin.weight_le x
  have h₂ := sizeOf_add_two_le_of_mem hx
  omega

theorem allBelow_map_option {α : Type} [SizeOf α] {f : α → Node} [Thin f] {w : Nat}
    {o : Option α} (h : sizeOf o + 1 < w) : AllBelow w (o.toList.map f) := by
  cases o with
  | none => simp
  | some x =>
    have : (f x).weight ≤ sizeOf x + 2 := Thin.weight_le x
    simp only [Option.some.sizeOf_spec] at h
    simp only [Option.toList_some, List.map_cons, List.map_nil, allBelow_cons, allBelow_nil,
      and_true]
    omega

theorem allBelow_map_nonEmpty {α : Type} [SizeOf α] {f : α → Node} [Thin f] {w : Nat}
    {l : NonEmptyList α} (h : sizeOf l < w) : AllBelow w (l.toList.map f) := by
  cases l with
  | mk x xs =>
    simp only [NonEmptyList.mk.sizeOf_spec] at h
    have : (f x).weight ≤ sizeOf x + 2 := Thin.weight_le x
    have : 1 ≤ sizeOf xs := by
      cases xs <;> simp only [List.nil.sizeOf_spec, List.cons.sizeOf_spec] <;> omega
    simp only [NonEmptyList.toList_mk, List.map_cons, allBelow_cons]
    exact ⟨by omega, allBelow_map (by omega)⟩

theorem allBelow_flatMap {w : Nat} {l : List (Expr × Expr)} (h : sizeOf l < w) :
    AllBelow w (l.flatMap fun branch => [expr branch.1, expr branch.2]) := by
  induction l with
  | nil => simp
  | cons b l ih =>
    cases b
    simp only [List.cons.sizeOf_spec, Prod.mk.sizeOf_spec] at h
    simp only [List.flatMap_cons, allBelow_append, allBelow_cons, allBelow_nil, and_true, weight,
      expr.sizeOf_spec]
    exact ⟨⟨by omega, by omega⟩, ih (by omega)⟩

theorem allBelow_flatMap_nonEmpty {w : Nat} {l : NonEmptyList (Expr × Expr)} (h : sizeOf l < w) :
    AllBelow w (l.toList.flatMap fun branch => [expr branch.1, expr branch.2]) := by
  cases l
  simp only [NonEmptyList.mk.sizeOf_spec] at h
  refine allBelow_flatMap ?_
  simp only [NonEmptyList.toList_mk, List.cons.sizeOf_spec]
  omega

instance : Thin ident where
  weight_le _ := by
    simp only [ident, weight, expr.sizeOf_spec, Expr.ident.sizeOf_spec]
    omega

instance : Thin literal where
  weight_le _ := by
    simp only [literal, weight, expr.sizeOf_spec, Expr.literal.sizeOf_spec]
    omega

instance : Thin statement where
  weight_le _ := Nat.le_add_right _ 2

instance : Thin expr where
  weight_le _ := by
    simp only [weight, expr.sizeOf_spec]
    omega

instance : Thin objectName where
  weight_le _ := by
    simp only [weight, objectName.sizeOf_spec]
    omega

instance : Thin windowSpec where
  weight_le _ := by
    simp only [weight, windowSpec.sizeOf_spec]
    omega

instance : Thin windowFrame where
  weight_le _ := by
    simp only [weight, windowFrame.sizeOf_spec]
    omega

instance : Thin frameBound where
  weight_le _ := by
    simp only [weight, frameBound.sizeOf_spec]
    omega

instance : Thin withClause where
  weight_le _ := by
    simp only [weight, withClause.sizeOf_spec]
    omega

instance : Thin cte where
  weight_le _ := by
    simp only [weight, cte.sizeOf_spec]
    omega

instance : Thin selectItem where
  weight_le _ := by
    simp only [weight, selectItem.sizeOf_spec]
    omega

instance : Thin sortKey where
  weight_le _ := by
    simp only [weight, sortKey.sizeOf_spec]
    omega

instance : Thin limit where
  weight_le _ := by
    simp only [weight, limit.sizeOf_spec]
    omega

instance : Thin tableReference where
  weight_le _ := by
    simp only [weight, tableReference.sizeOf_spec]
    omega

instance : Thin assignment where
  weight_le _ := by
    simp only [weight, assignment.sizeOf_spec]
    omega

instance : Thin row where
  weight_le _ := by
    simp only [weight, row.sizeOf_spec]
    omega

instance : Thin tableElement where
  weight_le _ := by
    simp only [weight, tableElement.sizeOf_spec]
    omega

instance : Thin columnConstraint where
  weight_le _ := by
    simp only [weight, columnConstraint.sizeOf_spec]
    omega

instance : Thin comment where
  weight_le _ := by
    simp only [weight, comment.sizeOf_spec]
    omega

/-! ## The children of each type -/

theorem sizeOf_position_pos (p : Position) : 0 < sizeOf p := by
  cases p
  simp only [Position.mk.sizeOf_spec]
  omega

theorem sizeOf_expr_pos (e : Expr) : 0 < sizeOf e := by
  cases e <;> simp only [Expr.ident.sizeOf_spec, Expr.compound.sizeOf_spec,
    Expr.wildcard.sizeOf_spec, Expr.qualifiedWildcard.sizeOf_spec, Expr.literal.sizeOf_spec,
    Expr.binary.sizeOf_spec, Expr.unary.sizeOf_spec, Expr.isNull.sizeOf_spec,
    Expr.inList.sizeOf_spec, Expr.inSubquery.sizeOf_spec, Expr.between.sizeOf_spec,
    Expr.cast.sizeOf_spec, Expr.nested.sizeOf_spec, Expr.function.sizeOf_spec,
    Expr.caseWhen.sizeOf_spec, Expr.existsQuery.sizeOf_spec, Expr.subquery.sizeOf_spec] <;> omega

theorem AllBelow.mono {w v : Nat} {cs : List Node} (h : AllBelow w cs) (hw : w ≤ v) :
    AllBelow v cs :=
  fun c hc => Nat.lt_of_lt_of_le (h c hc) hw

theorem allBelow_columnList {w : Nat} {l : ColumnList} (h : sizeOf l ≤ w) :
    AllBelow w l.children := by
  cases l
  simp only [ColumnList.mk.sizeOf_spec] at h
  simp only [ColumnList.children]
  exact allBelow_map_nonEmpty (by omega)

theorem allBelow_dataType (t : DataType) : AllBelow (1 + sizeOf t) t.children := by
  cases t with
  | builtin type span => exact allBelow_nil _
  | array element span =>
    simp only [DataType.children, allBelow_cons, allBelow_nil, and_true, weight,
      dataType.sizeOf_spec, DataType.array.sizeOf_spec]
    omega
  | custom name span =>
    simp only [DataType.children, allBelow_cons, allBelow_nil, and_true, weight,
      objectName.sizeOf_spec, DataType.custom.sizeOf_spec]
    omega

theorem allBelow_expr (e : Expr) : AllBelow (1 + sizeOf e) e.children := by
  cases e with
  | ident name => exact allBelow_nil _
  | compound parts =>
    exact allBelow_map_nonEmpty (by simp only [Expr.compound.sizeOf_spec]; omega)
  | wildcard star => exact allBelow_nil _
  | qualifiedWildcard qualifier starEnd =>
    simp only [Expr.children, allBelow_cons, allBelow_nil, and_true, weight,
      objectName.sizeOf_spec, Expr.qualifiedWildcard.sizeOf_spec]
    omega
  | literal value => exact allBelow_nil _
  | binary left op right =>
    simp only [Expr.children, allBelow_cons, allBelow_nil, and_true, weight, expr.sizeOf_spec,
      operator.sizeOf_spec, Expr.binary.sizeOf_spec]
    omega
  | unary op operand =>
    simp only [Expr.children, allBelow_cons, allBelow_nil, and_true, weight, expr.sizeOf_spec,
      operator.sizeOf_spec, Expr.unary.sizeOf_spec]
    omega
  | isNull operand negated nullEnd =>
    simp only [Expr.children, allBelow_cons, allBelow_nil, and_true, weight, expr.sizeOf_spec,
      Expr.isNull.sizeOf_spec]
    omega
  | inList operand items negated closeEnd =>
    simp only [Expr.inList.sizeOf_spec]
    refine allBelow_cons.mpr ⟨?_, allBelow_map_nonEmpty (by omega)⟩
    simp only [weight, expr.sizeOf_spec]
    omega
  | inSubquery operand query negated closeEnd =>
    simp only [Expr.children, Node.query, allBelow_cons, allBelow_nil, and_true, weight,
      expr.sizeOf_spec, Statement.query.sizeOf_spec, Expr.inSubquery.sizeOf_spec]
    omega
  | between operand negated low high =>
    simp only [Expr.children, allBelow_cons, allBelow_nil, and_true, weight, expr.sizeOf_spec,
      Expr.between.sizeOf_spec]
    omega
  | cast span operand type =>
    simp only [Expr.children, allBelow_cons, allBelow_nil, and_true, weight, expr.sizeOf_spec,
      dataType.sizeOf_spec, Expr.cast.sizeOf_spec]
    omega
  | nested span inner =>
    simp only [Expr.children, allBelow_cons, allBelow_nil, and_true, weight, expr.sizeOf_spec,
      Expr.nested.sizeOf_spec]
    omega
  | function name distinct args closeEnd window =>
    simp only [Expr.function.sizeOf_spec]
    refine allBelow_cons.mpr ⟨?_, allBelow_append.mpr
      ⟨allBelow_map (by omega), allBelow_map_option (by omega)⟩⟩
    simp only [weight, objectName.sizeOf_spec]
    omega
  | caseWhen span operand branches otherwise =>
    simp only [Expr.caseWhen.sizeOf_spec]
    exact allBelow_append.mpr ⟨allBelow_append.mpr
      ⟨allBelow_map_option (by omega), allBelow_flatMap_nonEmpty (by omega)⟩,
      allBelow_map_option (by omega)⟩
  | existsQuery notStart existsStart query closeEnd =>
    simp only [Expr.children, Node.query, allBelow_cons, allBelow_nil, and_true, weight,
      Statement.query.sizeOf_spec, Expr.existsQuery.sizeOf_spec]
    omega
  | subquery span query =>
    simp only [Expr.children, Node.query, allBelow_cons, allBelow_nil, and_true, weight,
      Statement.query.sizeOf_spec, Expr.subquery.sizeOf_spec]
    omega

theorem allBelow_windowSpec (x : WindowSpec) : AllBelow (1 + sizeOf x) x.children := by
  cases x
  simp only [WindowSpec.children, WindowSpec.mk.sizeOf_spec]
  exact allBelow_append.mpr ⟨allBelow_append.mpr
    ⟨allBelow_map (by omega), allBelow_map (by omega)⟩, allBelow_map_option (by omega)⟩

theorem allBelow_windowFrame (x : WindowFrame) : AllBelow (1 + sizeOf x) x.children := by
  cases x
  simp only [WindowFrame.children, WindowFrame.mk.sizeOf_spec]
  refine allBelow_cons.mpr ⟨?_, allBelow_map_option (by omega)⟩
  simp only [weight, frameBound.sizeOf_spec]
  omega

theorem allBelow_query (x : Query) : AllBelow (1 + sizeOf x) x.children := by
  cases x
  simp only [Query.children, Query.mk.sizeOf_spec]
  refine allBelow_append.mpr ⟨allBelow_append.mpr ⟨allBelow_map_option (by omega),
    allBelow_cons.mpr ⟨?_, allBelow_map (by omega)⟩⟩, allBelow_map_option (by omega)⟩
  simp only [weight, setExpr.sizeOf_spec]
  omega

theorem allBelow_setExpr (x : SetExpr) : AllBelow (1 + sizeOf x) x.children := by
  cases x with
  | select body =>
    cases body
    simp only [SetExpr.children, SetExpr.select.sizeOf_spec, Select.mk.sizeOf_spec]
    exact allBelow_append.mpr ⟨allBelow_append.mpr ⟨allBelow_append.mpr ⟨allBelow_append.mpr
      ⟨allBelow_map_nonEmpty (by omega), allBelow_map (by omega)⟩, allBelow_map_option (by omega)⟩,
      allBelow_map (by omega)⟩, allBelow_map_option (by omega)⟩
  | parenthesized span query =>
    simp only [SetExpr.children, Node.query, allBelow_cons, allBelow_nil, and_true, weight,
      Statement.query.sizeOf_spec, SetExpr.parenthesized.sizeOf_spec]
    omega
  | setOperation left op all right =>
    simp only [SetExpr.children, allBelow_cons, allBelow_nil, and_true, weight,
      setExpr.sizeOf_spec, SetExpr.setOperation.sizeOf_spec]
    omega

theorem allBelow_selectItem (x : SelectItem) : AllBelow (1 + sizeOf x) x.children := by
  cases x with
  | unnamed e =>
    simp only [SelectItem.children, allBelow_cons, allBelow_nil, and_true, weight,
      expr.sizeOf_spec, SelectItem.unnamed.sizeOf_spec]
    omega
  | aliased e aliasName =>
    have := sizeOf_expr_pos e
    simp only [SelectItem.children, ident, allBelow_cons, allBelow_nil, and_true, weight,
      expr.sizeOf_spec, Expr.ident.sizeOf_spec, SelectItem.aliased.sizeOf_spec]
    omega
  | qualifiedWildcard qualifier starEnd =>
    simp only [SelectItem.children, allBelow_cons, allBelow_nil, and_true, weight,
      objectName.sizeOf_spec, SelectItem.qualifiedWildcard.sizeOf_spec]
    omega
  | wildcard star => exact allBelow_nil _

theorem allBelow_limit (x : Limit) : AllBelow (1 + sizeOf x) x.children := by
  obtain ⟨_, value, _⟩ := x
  simp only [Limit.children, Limit.mk.sizeOf_spec]
  cases value with
  | all allEnd =>
    simp only [LimitValue.all.sizeOf_spec]
    exact allBelow_append.mpr ⟨allBelow_nil _, allBelow_map_option (by omega)⟩
  | count n =>
    simp only [LimitValue.count.sizeOf_spec]
    refine allBelow_append.mpr ⟨allBelow_cons.mpr ⟨?_, allBelow_nil _⟩,
      allBelow_map_option (by omega)⟩
    simp only [literal, weight, expr.sizeOf_spec, Expr.literal.sizeOf_spec]
    omega

theorem allBelow_tableArgs {w : Nat} {x : Option TableArgs} (h : sizeOf x < w) :
    AllBelow w (TableArgs.children? x) := by
  cases x with
  | none => exact allBelow_nil _
  | some x =>
    cases x
    simp only [Option.some.sizeOf_spec, TableArgs.mk.sizeOf_spec] at h
    simp only [TableArgs.children?]
    exact allBelow_map (by omega)

theorem allBelow_tableHints {w : Nat} {x : Option TableHints} (h : sizeOf x < w) :
    AllBelow w (TableHints.children? x) := by
  cases x with
  | none => exact allBelow_nil _
  | some x =>
    cases x
    simp only [Option.some.sizeOf_spec, TableHints.mk.sizeOf_spec] at h
    simp only [TableHints.children?]
    exact allBelow_map_nonEmpty (by omega)

theorem allBelow_tableReference (x : TableReference) : AllBelow (1 + sizeOf x) x.children := by
  cases x with
  | table name args aliasName hints =>
    simp only [TableReference.table.sizeOf_spec]
    refine allBelow_cons.mpr ⟨?_, allBelow_append.mpr ⟨allBelow_append.mpr
      ⟨allBelow_tableArgs (by omega), allBelow_map_option (by omega)⟩,
      allBelow_tableHints (by omega)⟩⟩
    simp only [weight, objectName.sizeOf_spec]
    omega
  | derived lateralStart openStart query closeEnd aliasName =>
    simp only [TableReference.derived.sizeOf_spec]
    refine allBelow_cons.mpr ⟨?_, allBelow_map_option (by omega)⟩
    simp only [Node.query, weight, Statement.query.sizeOf_spec]
    omega
  | crossJoin left right =>
    simp only [TableReference.children, allBelow_cons, allBelow_nil, and_true, weight,
      tableReference.sizeOf_spec, TableReference.crossJoin.sizeOf_spec]
    omega
  | qualifiedJoin left type right spec =>
    simp only [TableReference.children, allBelow_cons, allBelow_nil, and_true, weight,
      tableReference.sizeOf_spec, joinType.sizeOf_spec, joinSpec.sizeOf_spec,
      TableReference.qualifiedJoin.sizeOf_spec]
    omega
  | naturalJoin left naturalStart type right =>
    simp only [TableReference.children, allBelow_cons, allBelow_nil, and_true, weight,
      tableReference.sizeOf_spec, joinType.sizeOf_spec, TableReference.naturalJoin.sizeOf_spec]
    omega
  | partitioned source partitionStart columns =>
    simp only [TableReference.partitioned.sizeOf_spec]
    refine allBelow_cons.mpr ⟨?_, allBelow_columnList (by omega)⟩
    simp only [weight, tableReference.sizeOf_spec]
    omega

theorem allBelow_joinSpec (x : JoinSpec) : AllBelow (1 + sizeOf x) x.children := by
  cases x with
  | condition onStart e =>
    simp only [JoinSpec.children, allBelow_cons, allBelow_nil, and_true, weight,
      expr.sizeOf_spec, JoinSpec.condition.sizeOf_spec]
    omega
  | sharedColumns usingStart columns =>
    exact allBelow_columnList (by simp only [JoinSpec.sharedColumns.sizeOf_spec]; omega)

theorem allBelow_insertSource (x : InsertSource) : AllBelow (1 + sizeOf x) x.children := by
  cases x with
  | values valuesStart rows =>
    exact allBelow_map_nonEmpty (by simp only [InsertSource.values.sizeOf_spec]; omega)
  | query q =>
    simp only [InsertSource.children, Node.query, allBelow_cons, allBelow_nil, and_true, weight,
      Statement.query.sizeOf_spec, InsertSource.query.sizeOf_spec]
    omega

theorem allBelow_constraintName {w : Nat} {x : Option ConstraintName} (h : sizeOf x < w) :
    AllBelow w (ConstraintName.children? x) := by
  cases x with
  | none => exact allBelow_nil _
  | some x =>
    obtain ⟨p, _⟩ := x
    have := sizeOf_position_pos p
    simp only [Option.some.sizeOf_spec, ConstraintName.mk.sizeOf_spec] at h
    simp only [ConstraintName.children?, ident, allBelow_cons, allBelow_nil, and_true, weight,
      expr.sizeOf_spec, Expr.ident.sizeOf_spec]
    omega

theorem allBelow_columnConstraint (x : ColumnConstraint) : AllBelow (1 + sizeOf x)
    (ConstraintName.children? x.name ++ [.columnRule x.rule]) := by
  cases x
  simp only [ColumnConstraint.mk.sizeOf_spec]
  refine allBelow_append.mpr ⟨allBelow_constraintName (by omega),
    allBelow_cons.mpr ⟨?_, allBelow_nil _⟩⟩
  simp only [weight, columnRule.sizeOf_spec]
  omega

theorem allBelow_tableElement (x : TableElement) : AllBelow (1 + sizeOf x) x.children := by
  cases x with
  | column c =>
    cases c
    simp only [TableElement.children, TableElement.column.sizeOf_spec, ColumnDef.mk.sizeOf_spec]
    refine allBelow_cons.mpr ⟨?_, allBelow_cons.mpr ⟨?_, allBelow_append.mpr
      ⟨allBelow_map_option (by omega), allBelow_map (by omega)⟩⟩⟩
    · simp only [ident, weight, expr.sizeOf_spec, Expr.ident.sizeOf_spec]
      omega
    · simp only [weight, dataType.sizeOf_spec]
      omega
  | constraint c =>
    cases c
    simp only [TableElement.children, TableElement.constraint.sizeOf_spec,
      TableConstraint.mk.sizeOf_spec]
    refine allBelow_append.mpr ⟨allBelow_constraintName (by omega),
      allBelow_cons.mpr ⟨?_, allBelow_nil _⟩⟩
    simp only [weight, tableRule.sizeOf_spec]
    omega

theorem allBelow_referenceKey (x : ReferenceKey) : AllBelow (1 + sizeOf x) x.children := by
  obtain ⟨_, _, columns⟩ := x
  simp only [ReferenceKey.children, ReferenceKey.mk.sizeOf_spec]
  refine allBelow_cons.mpr ⟨?_, ?_⟩
  · simp only [weight, objectName.sizeOf_spec]
    omega
  · cases columns with
    | none => exact allBelow_nil _
    | some columns =>
      exact allBelow_columnList (by simp only [Option.some.sizeOf_spec]; omega)

theorem allBelow_columnRule (x : ColumnRule) : AllBelow (1 + sizeOf x) x.children := by
  cases x with
  | notNull span => exact allBelow_nil _
  | unique primaryKey span => exact allBelow_nil _
  | references key =>
    exact (allBelow_referenceKey key).mono (by simp only [ColumnRule.references.sizeOf_spec]; omega)
  | check span e =>
    simp only [ColumnRule.children, allBelow_cons, allBelow_nil, and_true, weight,
      expr.sizeOf_spec, ColumnRule.check.sizeOf_spec]
    omega

theorem allBelow_tableRule (x : TableRule) : AllBelow (1 + sizeOf x) x.children := by
  cases x with
  | unique primaryKey keywordStart columns =>
    exact allBelow_columnList (by simp only [TableRule.unique.sizeOf_spec]; omega)
  | foreignKey foreignStart columns key =>
    have := sizeOf_position_pos foreignStart
    simp only [TableRule.foreignKey.sizeOf_spec]
    refine allBelow_append.mpr ⟨allBelow_columnList (by omega),
      allBelow_cons.mpr ⟨?_, allBelow_nil _⟩⟩
    simp only [referenceKey, weight, columnRule.sizeOf_spec, ColumnRule.references.sizeOf_spec]
    omega
  | check span e =>
    simp only [TableRule.children, allBelow_cons, allBelow_nil, and_true, weight,
      expr.sizeOf_spec, TableRule.check.sizeOf_spec]
    omega

theorem allBelow_columnChange (x : ColumnChange) : AllBelow (1 + sizeOf x) x.children := by
  cases x with
  | setDefault setStart value =>
    simp only [ColumnChange.children, allBelow_cons, allBelow_nil, and_true, weight,
      expr.sizeOf_spec, ColumnChange.setDefault.sizeOf_spec]
    omega
  | dropDefault span => exact allBelow_nil _
  | setType typeStart type =>
    simp only [ColumnChange.children, allBelow_cons, allBelow_nil, and_true, weight,
      dataType.sizeOf_spec, ColumnChange.setType.sizeOf_spec]
    omega
  | setNotNull span => exact allBelow_nil _
  | dropNotNull span => exact allBelow_nil _

theorem allBelow_tableChange (x : TableChange) : AllBelow (1 + sizeOf x) x.children := by
  cases x with
  | addColumn p column =>
    have := sizeOf_position_pos p
    simp only [TableChange.children, allBelow_cons, allBelow_nil, and_true, weight,
      tableElement.sizeOf_spec, TableElement.column.sizeOf_spec, TableChange.addColumn.sizeOf_spec]
    omega
  | addConstraint p constraint =>
    have := sizeOf_position_pos p
    simp only [TableChange.children, allBelow_cons, allBelow_nil, and_true, weight,
      tableElement.sizeOf_spec, TableElement.constraint.sizeOf_spec,
      TableChange.addConstraint.sizeOf_spec]
    omega
  | dropConstraint p name cascadeEnd =>
    have := sizeOf_position_pos p
    simp only [TableChange.children, ident, allBelow_cons, allBelow_nil, and_true, weight,
      expr.sizeOf_spec, Expr.ident.sizeOf_spec, TableChange.dropConstraint.sizeOf_spec]
    omega
  | dropColumn p name cascadeEnd =>
    have := sizeOf_position_pos p
    simp only [TableChange.children, ident, allBelow_cons, allBelow_nil, and_true, weight,
      expr.sizeOf_spec, Expr.ident.sizeOf_spec, TableChange.dropColumn.sizeOf_spec]
    omega
  | alterColumn p column change =>
    have := sizeOf_position_pos p
    simp only [TableChange.children, ident, allBelow_cons, allBelow_nil, and_true, weight,
      expr.sizeOf_spec, Expr.ident.sizeOf_spec, columnChange.sizeOf_spec,
      TableChange.alterColumn.sizeOf_spec]
    omega

theorem allBelow_statement (x : Statement) : AllBelow (sizeOf x) x.children := by
  cases x with
  | query q => exact allBelow_query q
  | insert s =>
    cases s
    simp only [Statement.children, Statement.insert.sizeOf_spec, Insert.mk.sizeOf_spec]
    refine allBelow_cons.mpr ⟨?_, allBelow_append.mpr ⟨allBelow_map (by omega),
      allBelow_cons.mpr ⟨?_, allBelow_map (by omega)⟩⟩⟩
    · simp only [weight, objectName.sizeOf_spec]
      omega
    · simp only [weight, insertSource.sizeOf_spec]
      omega
  | update s =>
    cases s
    simp only [Statement.children, Statement.update.sizeOf_spec, Update.mk.sizeOf_spec]
    refine allBelow_cons.mpr ⟨?_, allBelow_append.mpr
      ⟨allBelow_map_nonEmpty (by omega), allBelow_map_option (by omega)⟩⟩
    simp only [weight, objectName.sizeOf_spec]
    omega
  | delete s =>
    cases s
    simp only [Statement.children, Statement.delete.sizeOf_spec, Delete.mk.sizeOf_spec]
    refine allBelow_cons.mpr ⟨?_, allBelow_map_option (by omega)⟩
    simp only [weight, objectName.sizeOf_spec]
    omega
  | createView s =>
    cases s
    simp only [Statement.children, Node.query, allBelow_cons, allBelow_nil, and_true, weight,
      objectName.sizeOf_spec, Statement.query.sizeOf_spec, Statement.createView.sizeOf_spec,
      CreateView.mk.sizeOf_spec]
    omega
  | createTable s =>
    obtain ⟨_, _, _, _, _, external⟩ := s
    simp only [Statement.children, Statement.createTable.sizeOf_spec, CreateTable.mk.sizeOf_spec]
    refine allBelow_cons.mpr ⟨?_, allBelow_append.mpr ⟨allBelow_map_nonEmpty (by omega), ?_⟩⟩
    · simp only [weight, objectName.sizeOf_spec]
      omega
    · cases external with
      | none => exact allBelow_nil _
      | some external =>
        obtain ⟨p, _, _⟩ := external
        have := sizeOf_position_pos p
        simp only [literal, allBelow_cons, allBelow_nil, and_true, weight, expr.sizeOf_spec,
          Expr.literal.sizeOf_spec, Option.some.sizeOf_spec, ExternalStorage.mk.sizeOf_spec]
        omega
  | alterTable s =>
    cases s
    simp only [Statement.children, allBelow_cons, allBelow_nil, and_true, weight,
      objectName.sizeOf_spec, tableChange.sizeOf_spec, Statement.alterTable.sizeOf_spec,
      AlterTable.mk.sizeOf_spec]
    omega
  | dropTable s =>
    cases s
    simp only [Statement.children, Statement.dropTable.sizeOf_spec, DropTable.mk.sizeOf_spec]
    exact allBelow_map_nonEmpty (by omega)
  | createIndex s =>
    cases s
    simp only [Statement.children, Statement.createIndex.sizeOf_spec, CreateIndex.mk.sizeOf_spec]
    refine allBelow_append.mpr ⟨allBelow_map_option (by omega), allBelow_cons.mpr
      ⟨?_, allBelow_append.mpr ⟨allBelow_append.mpr ⟨allBelow_map_option (by omega),
        allBelow_columnList (by omega)⟩, allBelow_map_option (by omega)⟩⟩⟩
    simp only [weight, objectName.sizeOf_spec]
    omega
  | dropIndex s =>
    cases s
    simp only [Statement.children, Statement.dropIndex.sizeOf_spec, DropIndex.mk.sizeOf_spec]
    exact allBelow_map_nonEmpty (by omega)
  | explain p s =>
    simp only [Statement.children, allBelow_cons, allBelow_nil, and_true, weight,
      Statement.explain.sizeOf_spec]
    omega

/-- Children weigh less than their parent. -/
theorem weight_lt_of_mem_children {c n : Node} (h : c ∈ n.children) : c.weight < n.weight := by
  suffices AllBelow n.weight n.children from this c h
  cases n with
  | expr e => exact allBelow_expr e
  | objectName name =>
    exact allBelow_map_nonEmpty (by simp only [weight, objectName.sizeOf_spec]; omega)
  | operator op => exact allBelow_nil _
  | dataType type => exact allBelow_dataType type
  | windowSpec window => exact allBelow_windowSpec window
  | windowFrame frame => exact allBelow_windowFrame frame
  | frameBound bound => exact allBelow_nil _
  | statement s => exact allBelow_statement s
  | withClause clause =>
    cases clause
    simp only [children, weight, withClause.sizeOf_spec, With.mk.sizeOf_spec]
    exact allBelow_map_nonEmpty (by omega)
  | cte table =>
    obtain ⟨_, _, closeEnd⟩ := table
    have := sizeOf_position_pos closeEnd
    simp only [children, ident, query, allBelow_cons, allBelow_nil, and_true, weight,
      expr.sizeOf_spec, Expr.ident.sizeOf_spec, Statement.query.sizeOf_spec, cte.sizeOf_spec,
      Cte.mk.sizeOf_spec]
    omega
  | setExpr body => exact allBelow_setExpr body
  | selectItem item => exact allBelow_selectItem item
  | sortKey key =>
    cases key
    simp only [children, allBelow_cons, allBelow_nil, and_true, weight, expr.sizeOf_spec,
      sortKey.sizeOf_spec, SortKey.mk.sizeOf_spec]
    omega
  | limit l => exact allBelow_limit l
  | tableReference table => exact allBelow_tableReference table
  | joinType type => exact allBelow_nil _
  | joinSpec spec => exact allBelow_joinSpec spec
  | assignment a =>
    obtain ⟨_, value⟩ := a
    have := sizeOf_expr_pos value
    simp only [children, ident, allBelow_cons, allBelow_nil, and_true, weight, expr.sizeOf_spec,
      Expr.ident.sizeOf_spec, assignment.sizeOf_spec, Assignment.mk.sizeOf_spec]
    omega
  | insertSource source => exact allBelow_insertSource source
  | row r =>
    cases r
    simp only [children, weight, row.sizeOf_spec, Row.mk.sizeOf_spec]
    exact allBelow_map_nonEmpty (by omega)
  | tableElement element => exact allBelow_tableElement element
  | columnConstraint constraint => exact allBelow_columnConstraint constraint
  | columnRule rule => exact allBelow_columnRule rule
  | tableRule rule => exact allBelow_tableRule rule
  | tableChange change => exact allBelow_tableChange change
  | columnChange change => exact allBelow_columnChange change
  | script s =>
    cases s
    simp only [children, weight, script.sizeOf_spec, Script.mk.sizeOf_spec]
    exact allBelow_map_nonEmpty (by omega)
  | comment c => exact allBelow_nil _
  | commentGroup g =>
    cases g
    simp only [children, weight, commentGroup.sizeOf_spec, CommentGroup.mk.sizeOf_spec]
    exact allBelow_map_nonEmpty (by omega)

end SqlScript.Node
