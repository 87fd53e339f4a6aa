import SqlScript.Proofs.Node.Skeleton

/-!
# What a node is made of

A node is made up of its kind, what it holds itself and its children; nothing of it is missing in
these three. Children of one list are all of one family, such as the columns of a table, and the
data say how long each list is and which optional parts are there, so that the children fall into
the parts they come from in one way only:

* `Node.Family`: a type of parts that are nodes, with the kinds of nodes they can be;
* `Node.eq_of_parts`: nodes of one kind with the same data and the same children are equal.
-/

namespace SqlScript

/-! ## Data -/

theorem Token.eq_iff {a b : Token α} : a = b ↔ a.val = b.val ∧ a.span = b.span := by
  cases a
  cases b
  simp

@[simp] theorem NonEmptyList.toList_inj {xs ys : NonEmptyList α} :
    xs.toList = ys.toList ↔ xs = ys := by
  cases xs
  cases ys
  simp

@[simp] theorem Option.toList_inj {o o' : Option α} : o.toList = o'.toList ↔ o = o' := by
  cases o <;> cases o' <;> simp

namespace Attribute

@[simp] theorem ofSpan_inj {s t : Span} : ofSpan s = ofSpan t ↔ s = t := by
  cases s
  cases t
  simp [ofSpan]

@[simp] theorem ofSpan_append_inj {s t : Span} {as bs : List Attribute} :
    ofSpan s ++ as = ofSpan t ++ bs ↔ s = t ∧ as = bs := by
  cases s
  cases t
  simp [ofSpan, and_assoc]

@[simp] theorem ofPosition?_inj {p q : Option Position} :
    ofPosition? p = ofPosition? q ↔ p = q := by
  cases p <;> cases q <;> simp [ofPosition?]

@[simp] theorem ofPosition?_append_inj {p q : Option Position} {as bs : List Attribute} :
    ofPosition? p ++ as = ofPosition? q ++ bs ↔ p = q ∧ as = bs := by
  cases p <;> cases q <;> simp [ofPosition?]

@[simp] theorem ofList_inj {xs ys : List α} : ofList xs = ofList ys ↔ xs.length = ys.length := by
  simp [ofList]

@[simp] theorem ofOption_inj {o o' : Option α} :
    ofOption o = ofOption o' ↔ o.isSome = o'.isSome := by
  simp [ofOption]

end Attribute

/-! ## Families -/

namespace Node

theorem ctorIdx_eq_of_kind {a b : Node} (h : a.kind = b.kind) : a.ctorIdx = b.ctorIdx := by
  rw [← family_kind, ← family_kind, h]

/-- A way of seeing parts as nodes: it keeps the parts apart, and nothing else has their kinds. For
a constructor of `Node` both are found by cases. -/
class Family {α : Type} (f : α → Node) : Prop where
  inj : ∀ {x y : α}, f x = f y → x = y := by
    intro x y h
    cases h
    rfl
  exists_of_kind : ∀ {x : α} {c : Node}, c.kind = (f x).kind → ∃ y, c = f y := by
    intro x c h
    cases c <;> cases ctorIdx_eq_of_kind h
    exact ⟨_, rfl⟩

instance : Family expr := {}
instance : Family objectName := {}
instance : Family operator := {}
instance : Family dataType := {}
instance : Family windowSpec := {}
instance : Family windowFrame := {}
instance : Family frameBound := {}
instance : Family statement := {}
instance : Family withClause := {}
instance : Family cte := {}
instance : Family setExpr := {}
instance : Family selectItem := {}
instance : Family sortKey := {}
instance : Family limit := {}
instance : Family tableReference := {}
instance : Family joinType := {}
instance : Family joinSpec := {}
instance : Family assignment := {}
instance : Family insertSource := {}
instance : Family row := {}
instance : Family tableElement := {}
instance : Family columnConstraint := {}
instance : Family columnRule := {}
instance : Family tableRule := {}
instance : Family tableChange := {}
instance : Family columnChange := {}
instance : Family comment := {}

/-- The members of one kind in a family of several. -/
theorem Family.member {α β : Type} {f : α → Node} [Family f] {g : β → α}
    (hinj : ∀ {x y}, g x = g y → x = y)
    (hkind : ∀ {x a}, (f a).kind = (f (g x)).kind → ∃ y, a = g y) : Family fun x => f (g x) where
  inj h := hinj (inj h)
  exists_of_kind h := by
    obtain ⟨a, rfl⟩ := exists_of_kind h
    obtain ⟨y, rfl⟩ := hkind h
    exact ⟨y, rfl⟩

instance : Family ident :=
  .member (f := expr) Expr.ident.inj fun {_ e} h => by cases e <;> cases h; exact ⟨_, rfl⟩

instance : Family literal :=
  .member (f := expr) Expr.literal.inj fun {_ e} h => by cases e <;> cases h; exact ⟨_, rfl⟩

instance : Family query :=
  .member (f := statement) Statement.query.inj fun {_ s} h => by cases s <;> cases h; exact ⟨_, rfl⟩

instance : Family referenceKey :=
  .member (f := columnRule) ColumnRule.references.inj fun {_ r} h => by
    cases r <;> cases h; exact ⟨_, rfl⟩

instance : Family fun c => tableElement (.column c) :=
  .member (f := tableElement) TableElement.column.inj fun {_ e} h => by
    cases e <;> cases h; exact ⟨_, rfl⟩

instance : Family fun c => tableElement (.constraint c) :=
  .member (f := tableElement) TableElement.constraint.inj fun {_ e} h => by
    cases e <;> cases h; exact ⟨_, rfl⟩

/-! ## Lists of children

A list of children from several parts is cut where the data say that one part ends. -/

section Members

variable {α : Type} {f : α → Node} [Family f]

theorem family_inj {x y : α} : f x = f y ↔ x = y :=
  ⟨Family.inj, congrArg f⟩

@[simp] theorem map_inj {xs ys : List α} : xs.map f = ys.map f ↔ xs = ys :=
  List.map_inj_right fun _ _ => Family.inj

@[simp] theorem map_append_inj {xs ys : List α} {cs ds : List Node} (h : xs.length = ys.length) :
    xs.map f ++ cs = ys.map f ++ ds ↔ xs = ys ∧ cs = ds := by
  constructor
  · intro heq
    obtain ⟨hmap, hrest⟩ := List.append_inj heq (by simpa using h)
    exact ⟨map_inj.mp hmap, hrest⟩
  · rintro ⟨rfl, rfl⟩
    rfl

@[simp] theorem nonEmptyMap_append_inj {xs ys : NonEmptyList α} {cs ds : List Node}
    (h : xs.length = ys.length) :
    xs.toList.map f ++ cs = ys.toList.map f ++ ds ↔ xs = ys ∧ cs = ds := by
  rw [map_append_inj (by simpa using h), NonEmptyList.toList_inj]

@[simp] theorem optionMap_append_inj {o o' : Option α} {cs ds : List Node}
    (h : o.isSome = o'.isSome) :
    o.toList.map f ++ cs = o'.toList.map f ++ ds ↔ o = o' ∧ cs = ds := by
  cases o <;> cases o' <;> simp_all [family_inj]

end Members

theorem branches_append_inj {bs bs' : List (Expr × Expr)} {cs ds : List Node}
    (h : bs.length = bs'.length) :
    bs.flatMap (fun b => [expr b.1, expr b.2]) ++ cs =
        bs'.flatMap (fun b => [expr b.1, expr b.2]) ++ ds ↔ bs = bs' ∧ cs = ds := by
  induction bs generalizing bs' with
  | nil =>
    obtain rfl := List.length_eq_zero_iff.mp h.symm
    simp
  | cons b bs ih =>
    cases bs' with
    | nil => cases h
    | cons b' bs' => simp [ih (Nat.succ.inj h), Prod.ext_iff, and_assoc]

@[simp] theorem nonEmptyBranches_append_inj {bs bs' : NonEmptyList (Expr × Expr)}
    {cs ds : List Node} (h : bs.length = bs'.length) :
    bs.toList.flatMap (fun b => [expr b.1, expr b.2]) ++ cs =
        bs'.toList.flatMap (fun b => [expr b.1, expr b.2]) ++ ds ↔ bs = bs' ∧ cs = ds := by
  rw [branches_append_inj (by simpa using h), NonEmptyList.toList_inj]

end Node

/-! ## Parts and nodes

In each of these, members of different kinds fall away. In the rest the data are equal one by one;
the lengths among them tell where each list of children ends, so the children are equal part by
part. -/

open Attribute

theorem Expr.eq_of_parts {a b : Expr} (hk : a.kind = b.kind) (hd : a.attributes = b.attributes)
    (hc : a.children = b.children) : a = b := by
  cases a <;> cases b <;> cases hk <;>
    simp_all [attributes, children, Token.eq_iff, Node.family_inj]

theorem DataType.eq_of_parts {a b : DataType} (hd : a.attributes = b.attributes)
    (hc : a.children = b.children) : a = b := by
  cases a <;> cases b <;> simp_all [attributes, children]

theorem WindowSpec.eq_of_parts {a b : WindowSpec} (hd : a.attributes = b.attributes)
    (hc : a.children = b.children) : a = b := by
  cases a
  cases b
  simp_all [attributes, children]

theorem WindowFrame.eq_of_parts {a b : WindowFrame} (hd : a.attributes = b.attributes)
    (hc : a.children = b.children) : a = b := by
  cases a
  cases b
  simp_all [attributes, children]

theorem SortKey.eq_of_parts {a b : SortKey} (hd : a.attributes = b.attributes)
    (hc : a.expr = b.expr) : a = b := by
  rcases a with ⟨_, _ | ⟨_, _⟩⟩ <;> rcases b with ⟨_, _ | ⟨_, _⟩⟩ <;> simp_all [attributes]

theorem Query.eq_of_parts {a b : Query} (hd : a.attributes = b.attributes)
    (hc : a.children = b.children) : a = b := by
  cases a
  cases b
  simp_all [attributes, children]

theorem SetExpr.eq_of_parts {a b : SetExpr} (hk : a.kind = b.kind)
    (hd : a.attributes = b.attributes) (hc : a.children = b.children) : a = b := by
  cases a <;> cases b <;> cases hk
  case select.select.refl body body' =>
    cases body
    cases body'
    simp_all [attributes, children]
  all_goals simp_all [attributes, children, Node.family_inj]

theorem SelectItem.eq_of_parts {a b : SelectItem} (hk : a.kind = b.kind)
    (hd : a.attributes = b.attributes) (hc : a.children = b.children) : a = b := by
  cases a <;> cases b <;> cases hk <;> simp_all [attributes, children, Node.family_inj]

theorem Limit.eq_of_parts {a b : Limit} (hd : a.attributes = b.attributes)
    (hc : a.children = b.children) : a = b := by
  obtain ⟨_, value, _⟩ := a
  obtain ⟨_, value', _⟩ := b
  cases value <;> cases value' <;> simp_all [attributes, children, ofPosition?, Node.family_inj]

theorem TableReference.eq_of_parts {a b : TableReference} (hk : a.kind = b.kind)
    (hd : a.attributes = b.attributes) (hc : a.children = b.children) : a = b := by
  cases a <;> cases b <;> cases hk
  case table.table.refl _ args _ hints _ args' _ hints' =>
    rcases args with _ | ⟨_, _⟩ <;> rcases args' with _ | ⟨_, _⟩ <;>
      rcases hints with _ | ⟨_, _, _⟩ <;> rcases hints' with _ | ⟨_, _, _⟩ <;>
      simp_all [attributes, children, TableArgs.attributes?, TableHints.attributes?,
        TableArgs.children?, TableHints.children?]
  case partitioned.partitioned.refl _ _ columns _ _ columns' =>
    cases columns
    cases columns'
    simp_all [attributes, children, ColumnList.attributes, ColumnList.children]
  all_goals simp_all [attributes, children, Node.family_inj]

theorem JoinSpec.eq_of_parts {a b : JoinSpec} (hk : a.kind = b.kind)
    (hd : a.attributes = b.attributes) (hc : a.children = b.children) : a = b := by
  cases a <;> cases b <;> cases hk
  case condition.condition.refl => simp_all [attributes, children]
  case sharedColumns.sharedColumns.refl _ columns _ columns' =>
    cases columns
    cases columns'
    simp_all [attributes, children, ColumnList.attributes, ColumnList.children]

theorem InsertSource.eq_of_parts {a b : InsertSource} (hk : a.kind = b.kind)
    (hd : a.attributes = b.attributes) (hc : a.children = b.children) : a = b := by
  cases a <;> cases b <;> cases hk <;> simp_all [attributes, children, Node.family_inj]

theorem ConstraintName.eq_of_parts {a b : Option ConstraintName}
    (hd : attributes? a = attributes? b) (hc : children? a = children? b) : a = b := by
  rcases a with _ | ⟨_, _⟩ <;> rcases b with _ | ⟨_, _⟩ <;>
    simp_all [attributes?, children?, Node.family_inj]

theorem TableElement.eq_of_parts {a b : TableElement} (hk : a.kind = b.kind)
    (hd : a.attributes = b.attributes) (hc : a.children = b.children) : a = b := by
  cases a <;> cases b <;> cases hk
  case column.column.refl c c' =>
    cases c
    cases c'
    simp_all [attributes, children, Node.family_inj]
  case constraint.constraint.refl c c' =>
    obtain ⟨name, rule⟩ := c
    obtain ⟨name', rule'⟩ := c'
    simp only [children, List.append_singleton_inj, Node.tableRule.injEq] at hc
    have hname : name = name' := ConstraintName.eq_of_parts hd hc.1
    rw [hname, hc.2]

theorem ReferenceKey.eq_of_parts {a b : ReferenceKey}
    (hd : (ColumnRule.references a).attributes = (ColumnRule.references b).attributes)
    (hc : a.children = b.children) : a = b := by
  rcases a with ⟨_, _, _ | ⟨_, _⟩⟩ <;> rcases b with ⟨_, _, _ | ⟨_, _⟩⟩ <;>
    simp_all [ColumnRule.attributes, children, ColumnList.attributes, ColumnList.children]

theorem ColumnRule.eq_of_parts {a b : ColumnRule} (hk : a.kind = b.kind)
    (hd : a.attributes = b.attributes) (hc : a.children = b.children) : a = b := by
  cases a <;> cases b <;> cases hk
  case references.references.refl => exact congrArg references (ReferenceKey.eq_of_parts hd hc)
  all_goals simp_all [attributes, children]

theorem TableRule.eq_of_parts {a b : TableRule} (hk : a.kind = b.kind)
    (hd : a.attributes = b.attributes) (hc : a.children = b.children) : a = b := by
  cases a <;> cases b <;> cases hk
  case unique.unique.refl _ _ columns _ _ columns' =>
    cases columns
    cases columns'
    simp_all [attributes, children, ColumnList.attributes, ColumnList.children]
  case foreignKey.foreignKey.refl _ columns _ _ columns' _ =>
    cases columns
    cases columns'
    simp_all [attributes, children, ColumnList.attributes, ColumnList.children, Node.family_inj]
  case check.check.refl => simp_all [attributes, children]

theorem ColumnChange.eq_of_parts {a b : ColumnChange} (hk : a.kind = b.kind)
    (hd : a.attributes = b.attributes) (hc : a.children = b.children) : a = b := by
  cases a <;> cases b <;> cases hk <;> simp_all [attributes, children]

theorem TableChange.eq_of_parts {a b : TableChange} (hk : a.kind = b.kind)
    (hd : a.attributes = b.attributes) (hc : a.children = b.children) : a = b := by
  cases a <;> cases b <;> cases hk <;> simp_all [attributes, children, Node.family_inj]

theorem Statement.eq_of_parts {a b : Statement} (hk : a.kind = b.kind)
    (hd : a.attributes = b.attributes) (hc : a.children = b.children) : a = b := by
  cases a <;> cases b <;> cases hk
  case query.query.refl => exact congrArg query (Query.eq_of_parts hd hc)
  case createTable.createTable.refl s s' =>
    rcases s with ⟨_, _, _, _, _, _ | ⟨_, _, _⟩⟩ <;>
      rcases s' with ⟨_, _, _, _, _, _ | ⟨_, _, _⟩⟩ <;>
      simp_all [attributes, children, Node.family_inj]
  case explain.explain.refl => simp_all [attributes, children]
  case createIndex.createIndex.refl s s' =>
    obtain ⟨_, _, _, _, _, ⟨_, _⟩, _⟩ := s
    obtain ⟨_, _, _, _, _, ⟨_, _⟩, _⟩ := s'
    simp_all [attributes, children, ColumnList.attributes, ColumnList.children, Node.family_inj]
  all_goals
    rename_i s s'
    cases s
    cases s'
    simp_all [attributes, children, Node.family_inj]

/-- Nodes of one kind with the same data and the same children are equal. -/
theorem Node.eq_of_parts {a b : Node} (hk : a.kind = b.kind)
    (hd : a.attributes = b.attributes) (hc : a.children = b.children) : a = b := by
  have hi := ctorIdx_eq_of_kind hk
  cases a <;> cases b <;> cases hi
  case expr.expr.refl => exact congrArg expr (Expr.eq_of_parts hk hd hc)
  case dataType.dataType.refl => exact congrArg dataType (DataType.eq_of_parts hd hc)
  case windowSpec.windowSpec.refl => exact congrArg windowSpec (WindowSpec.eq_of_parts hd hc)
  case windowFrame.windowFrame.refl => exact congrArg windowFrame (WindowFrame.eq_of_parts hd hc)
  case statement.statement.refl => exact congrArg statement (Statement.eq_of_parts hk hd hc)
  case setExpr.setExpr.refl => exact congrArg setExpr (SetExpr.eq_of_parts hk hd hc)
  case selectItem.selectItem.refl => exact congrArg selectItem (SelectItem.eq_of_parts hk hd hc)
  case sortKey.sortKey.refl =>
    exact congrArg sortKey (SortKey.eq_of_parts hd (by simpa [children] using hc))
  case limit.limit.refl => exact congrArg limit (Limit.eq_of_parts hd hc)
  case tableReference.tableReference.refl =>
    exact congrArg tableReference (TableReference.eq_of_parts hk hd hc)
  case joinSpec.joinSpec.refl => exact congrArg joinSpec (JoinSpec.eq_of_parts hk hd hc)
  case insertSource.insertSource.refl =>
    exact congrArg insertSource (InsertSource.eq_of_parts hk hd hc)
  case tableElement.tableElement.refl =>
    exact congrArg tableElement (TableElement.eq_of_parts hk hd hc)
  case columnRule.columnRule.refl => exact congrArg columnRule (ColumnRule.eq_of_parts hk hd hc)
  case tableRule.tableRule.refl => exact congrArg tableRule (TableRule.eq_of_parts hk hd hc)
  case tableChange.tableChange.refl => exact congrArg tableChange (TableChange.eq_of_parts hk hd hc)
  case columnChange.columnChange.refl =>
    exact congrArg columnChange (ColumnChange.eq_of_parts hk hd hc)
  case columnConstraint.columnConstraint.refl c c' =>
    obtain ⟨name, rule⟩ := c
    obtain ⟨name', rule'⟩ := c'
    simp only [children, List.append_singleton_inj, columnRule.injEq] at hc
    have hname : name = name' := ConstraintName.eq_of_parts hd hc.1
    rw [hname, hc.2]
  case objectName.objectName.refl => simp_all [children]
  all_goals
    rename_i c c'
    cases c
    cases c'
    simp_all [attributes, children, family_inj]

end SqlScript
