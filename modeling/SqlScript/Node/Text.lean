import SqlScript.Node.Layout
import SqlScript.Node.Weight

/-!
# The text of nodes

Writing a node out means writing its layout out, with every child replaced by its own text:

* `childNodes_layout`: the children in a node's layout are its children, each once and in order;
* `Node.fragments`: the pieces of text of a whole node, in order;
* `Node.toSql`: its text;
* `Node.positions`: the positions recorded in the whole node, in the order of their tokens.
-/

namespace SqlScript

/-- The children in a layout. -/
def Layout.childNodes (pieces : List Piece) : List Node :=
  pieces.filterMap fun
    | .child n => some n
    | _ => none

namespace Layout

@[simp] theorem childNodes_nil : childNodes [] = [] := rfl

@[simp] theorem childNodes_word (text : String) (ps : List Piece) :
    childNodes (.word text :: ps) = childNodes ps := rfl

@[simp] theorem childNodes_mark (p : Position) (ps : List Piece) :
    childNodes (.mark p :: ps) = childNodes ps := rfl

@[simp] theorem childNodes_child (n : Node) (ps : List Piece) :
    childNodes (.child n :: ps) = n :: childNodes ps := rfl

@[simp] theorem childNodes_append (ps qs : List Piece) :
    childNodes (ps ++ qs) = childNodes ps ++ childNodes qs := by
  simp [childNodes]

@[simp] theorem childNodes_wordIf (b : Bool) (text : String) :
    childNodes (wordIf b text) = [] := by
  cases b <;> rfl

@[simp] theorem childNodes_words (texts : List String) :
    childNodes (texts.map .word) = [] := by
  induction texts with
  | nil => rfl
  | cons t ts ih => simp [ih]

@[simp] theorem childNodes_separated (text : String) (ns : List Node) :
    childNodes (separated text ns) = ns := by
  unfold separated
  induction ns with
  | nil => rfl
  | cons n ns ih =>
    cases ns with
    | nil => rfl
    | cons m ns => simpa [List.intersperse] using ih

@[simp] theorem childNodes_parenthesized (ns : List Node) :
    childNodes (parenthesized ns) = ns := by
  simp [parenthesized]

@[simp] theorem childNodes_clause (keyword : String) (ns : List Node) :
    childNodes (clause keyword ns) = ns := by
  unfold clause
  cases ns <;> simp

@[simp] theorem childNodes_token (text : String) (span : Span) :
    childNodes (token text span) = [] := rfl

@[simp] theorem childNodes_enclosed (span : Span) (ps : List Piece) :
    childNodes (enclosed span ps) = childNodes ps := by
  simp [enclosed]

@[simp] theorem childNodes_whenSome_none (f : α → List Piece) :
    childNodes (whenSome none f) = [] := rfl

@[simp] theorem childNodes_whenSome_some (x : α) (f : α → List Piece) :
    childNodes (whenSome (some x) f) = childNodes (f x) := rfl

theorem childNodes_flatMap (l : List α) (f : α → List Piece) :
    childNodes (l.flatMap f) = l.flatMap fun x => childNodes (f x) := by
  induction l with
  | nil => rfl
  | cons x l ih => simp [ih]

end Layout

open Layout

theorem childNodes_columnList (l : ColumnList) : childNodes l.layout = l.children := by
  simp [ColumnList.layout, ColumnList.children]

theorem childNodes_expr (e : Expr) : childNodes e.layout = e.children := by
  cases e with
  | function name distinct args closeEnd window =>
    cases window <;> simp [Expr.layout, Expr.children]
  | caseWhen span operand branches otherwise =>
    cases operand <;> cases otherwise <;> simp [Expr.layout, Expr.children, childNodes_flatMap]
  | existsQuery notStart existsStart query closeEnd =>
    cases notStart <;> simp [Expr.layout, Expr.children]
  | _ => simp [Expr.layout, Expr.children]

theorem childNodes_dataType (t : DataType) : childNodes t.layout = t.children := by
  cases t <;> simp [DataType.layout, DataType.children]

theorem childNodes_windowSpec (w : WindowSpec) : childNodes w.layout = w.children := by
  obtain ⟨_, _, _, frame⟩ := w
  cases frame <;> simp [WindowSpec.layout, WindowSpec.children]

theorem childNodes_windowFrame (f : WindowFrame) : childNodes f.layout = f.children := by
  obtain ⟨_, _, _, upper⟩ := f
  cases upper <;> simp [WindowFrame.layout, WindowFrame.children]

theorem childNodes_sortKey (k : SortKey) : childNodes k.layout = [.expr k.expr] := by
  obtain ⟨_, direction⟩ := k
  cases direction <;> simp [SortKey.layout]

theorem childNodes_query (q : Query) : childNodes q.layout = q.children := by
  obtain ⟨withClause, _, _, limit⟩ := q
  cases withClause <;> cases limit <;> simp [Query.layout, Query.children]

theorem childNodes_setExpr (s : SetExpr) : childNodes s.layout = s.children := by
  cases s with
  | select body =>
    obtain ⟨_, _, _, _, selection, _, having⟩ := body
    cases selection <;> cases having <;> simp [SetExpr.layout, SetExpr.children]
  | _ => simp [SetExpr.layout, SetExpr.children]

theorem childNodes_selectItem (i : SelectItem) : childNodes i.layout = i.children := by
  cases i <;> simp [SelectItem.layout, SelectItem.children]

theorem childNodes_limit (l : Limit) : childNodes l.layout = l.children := by
  obtain ⟨_, value, offset⟩ := l
  cases value <;> cases offset <;> simp [Limit.layout, Limit.children]

theorem childNodes_tableReference (t : TableReference) : childNodes t.layout = t.children := by
  cases t with
  | table name args aliasName hints =>
    cases args <;> cases aliasName <;> cases hints <;>
      simp [TableReference.layout, TableReference.children, aliasLayout, TableArgs.children?,
        TableHints.children?]
  | derived lateralStart openStart query closeEnd aliasName =>
    cases lateralStart <;> cases aliasName <;>
      simp [TableReference.layout, TableReference.children, aliasLayout]
  | _ => simp [TableReference.layout, TableReference.children, childNodes_columnList]

theorem childNodes_joinSpec (s : JoinSpec) : childNodes s.layout = s.children := by
  cases s <;> simp [JoinSpec.layout, JoinSpec.children, childNodes_columnList]

theorem childNodes_insertSource (s : InsertSource) : childNodes s.layout = s.children := by
  cases s <;> simp [InsertSource.layout, InsertSource.children]

theorem childNodes_constraintName (name : Option ConstraintName) :
    childNodes (ConstraintName.layout? name) = ConstraintName.children? name := by
  cases name <;> simp [ConstraintName.layout?, ConstraintName.children?]

theorem childNodes_tableElement (e : TableElement) : childNodes e.layout = e.children := by
  cases e with
  | column c =>
    obtain ⟨_, _, value, constraints⟩ := c
    have h : constraints.flatMap (fun constraint => [Node.columnConstraint constraint]) =
        constraints.map .columnConstraint := List.map_eq_flatMap.symm
    cases value <;> simp [TableElement.layout, TableElement.children, childNodes_flatMap, h]
  | constraint c => simp [TableElement.layout, TableElement.children, childNodes_constraintName]

theorem childNodes_referenceKey (k : ReferenceKey) : childNodes k.layout = k.children := by
  obtain ⟨_, _, columns⟩ := k
  cases columns <;> simp [ReferenceKey.layout, ReferenceKey.children, childNodes_columnList]

theorem childNodes_columnRule (r : ColumnRule) : childNodes r.layout = r.children := by
  cases r <;> simp [ColumnRule.layout, ColumnRule.children, childNodes_referenceKey]

theorem childNodes_tableRule (r : TableRule) : childNodes r.layout = r.children := by
  cases r <;> simp [TableRule.layout, TableRule.children, childNodes_columnList]

theorem childNodes_cascade (p : Option Position) : childNodes (cascadeLayout p) = [] := by
  cases p <;> simp [cascadeLayout]

theorem childNodes_tableChange (c : TableChange) : childNodes c.layout = c.children := by
  cases c <;> simp [TableChange.layout, TableChange.children, childNodes_cascade]

theorem childNodes_columnChange (c : ColumnChange) : childNodes c.layout = c.children := by
  cases c <;> simp [ColumnChange.layout, ColumnChange.children]

theorem childNodes_selection (s : Option Expr) :
    childNodes (selectionLayout s) = s.toList.map .expr := by
  cases s <;> simp [selectionLayout]

theorem childNodes_statement (s : Statement) : childNodes s.layout = s.children := by
  cases s with
  | query q => exact childNodes_query q
  | insert s =>
    obtain ⟨_, _, columns, _, _⟩ := s
    cases columns <;> simp [Statement.layout, Statement.children]
  | createTable s =>
    obtain ⟨_, _, _, _, _, external⟩ := s
    cases external <;> simp [Statement.layout, Statement.children]
  | createIndex s =>
    obtain ⟨_, _, name, _, method, _, _⟩ := s
    cases name <;> cases method <;>
      simp [Statement.layout, Statement.children, childNodes_columnList, childNodes_selection]
  | _ =>
    simp [Statement.layout, Statement.children, childNodes_selection, childNodes_cascade]

theorem childNodes_script (s : Script) :
    childNodes s.layout = s.statements.toList.map .statement := by
  obtain ⟨⟨head, tail⟩, _, _⟩ := s
  have h : tail.flatMap (fun statement => [Node.statement statement]) =
      tail.map .statement := List.map_eq_flatMap.symm
  simp [Script.layout, childNodes_flatMap, h]

/-- The children in a node's layout are its children, each once and in order. -/
theorem childNodes_layout (n : Node) : childNodes n.layout = n.children := by
  cases n with
  | expr e => exact childNodes_expr e
  | dataType t => exact childNodes_dataType t
  | windowSpec w => exact childNodes_windowSpec w
  | windowFrame f => exact childNodes_windowFrame f
  | statement s => exact childNodes_statement s
  | setExpr s => exact childNodes_setExpr s
  | selectItem i => exact childNodes_selectItem i
  | sortKey k => exact childNodes_sortKey k
  | limit l => exact childNodes_limit l
  | tableReference t => exact childNodes_tableReference t
  | joinSpec s => exact childNodes_joinSpec s
  | insertSource s => exact childNodes_insertSource s
  | tableElement e => exact childNodes_tableElement e
  | columnConstraint c =>
    simp [Node.layout, Node.children, ColumnConstraint.layout, childNodes_constraintName]
  | columnRule r => exact childNodes_columnRule r
  | tableRule r => exact childNodes_tableRule r
  | tableChange c => exact childNodes_tableChange c
  | columnChange c => exact childNodes_columnChange c
  | script s => exact childNodes_script s
  | _ =>
    simp [Node.layout, Node.children, ObjectName.layout, With.layout, Cte.layout,
      Assignment.layout, Row.layout]

theorem mem_children_of_mem_layout {c n : Node} (h : Piece.child c ∈ n.layout) :
    c ∈ n.children := by
  rw [← childNodes_layout, childNodes, List.mem_filterMap]
  exact ⟨.child c, h, rfl⟩

/-! ## Whole nodes -/

/-- What is left of a layout once every child has been replaced: a text or a position. -/
inductive Leaf where
  | word (text : String)
  | mark (p : Position)
  deriving DecidableEq, Repr

namespace Node

/-- The texts and positions of a whole node, from left to right. -/
def leaves (n : Node) : List Leaf :=
  n.layout.attach.flatMap fun ⟨piece, h⟩ =>
    match piece, h with
    | .word text, _ => [.word text]
    | .mark p, _ => [.mark p]
    | .child c, _ => c.leaves
termination_by n.weight
decreasing_by exact weight_lt_of_mem_children (mem_children_of_mem_layout (by assumption))

end Node

namespace Piece

/-- The texts and positions that a piece stands for. -/
def leaves : Piece → List Leaf
  | word text => [.word text]
  | mark p => [.mark p]
  | child n => n.leaves

end Piece

/-- The text of a leaf, if it is one. -/
def Leaf.text? : Leaf → Option String
  | word text => some text
  | mark _ => none

/-- The position of a leaf, if it is one. -/
def Leaf.position? : Leaf → Option Position
  | word _ => none
  | mark p => some p

/-- A node's leaves are those of its layout, piece by piece. -/
theorem Node.leaves_eq (n : Node) : n.leaves = n.layout.flatMap Piece.leaves := by
  rw [Node.leaves, List.flatMap_subtype (g := Piece.leaves), List.unattach_attach]
  intro piece h
  cases piece <;> rfl

/-- The pieces of text of a layout, with every child written out. -/
def Layout.fragments (pieces : List Piece) : List String :=
  (pieces.flatMap Piece.leaves).filterMap Leaf.text?

namespace Node

/-- The pieces of text of a node, in the order in which they are written. -/
def fragments (n : Node) : List String :=
  n.leaves.filterMap Leaf.text?

/-- The positions recorded in a node, in the order of the tokens they belong to. -/
def positions (n : Node) : List Position :=
  n.leaves.filterMap Leaf.position?

/-- The text of a node. -/
def toSql (n : Node) : String :=
  String.join n.fragments

end Node

/-- The text of a column list. -/
def ColumnList.toSql (l : ColumnList) : String :=
  String.join (Layout.fragments l.layout)

end SqlScript
