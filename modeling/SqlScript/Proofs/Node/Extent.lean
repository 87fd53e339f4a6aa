import SqlScript.Node.Text

/-!
# A node runs from its first position to its last

Each kind of node has a rule of its own for where it starts and stops. All of these rules come to
the same: a node starts with the first position in its layout and stops with the last. The
`outline` of a layout lists what has an extent in it, so that each rule is checked against one
layout only, and then the whole tree by induction:

* `frames_layout`: the layout of a node runs from its start to its stop;
* `head?_positions`, `getLast?_positions`: a node other than a script starts with the first position
  recorded in it, and stops with the last;
* `positions_script`: the positions of a script are those of its statements.
-/

namespace SqlScript

/-! ## Outlines -/

/-- The extent of a piece, if it has one: a position is an empty stretch. -/
def Piece.span? : Piece → Option Span
  | word _ => none
  | mark p => some ⟨p, p⟩
  | child n => some n.span

namespace Layout

/-- The extents of the pieces of a layout. -/
def outline (pieces : List Piece) : List Span :=
  pieces.filterMap Piece.span?

@[simp] theorem outline_nil : outline [] = [] := rfl

@[simp] theorem outline_word (text : String) (ps : List Piece) :
    outline (.word text :: ps) = outline ps := rfl

@[simp] theorem outline_mark (p : Position) (ps : List Piece) :
    outline (.mark p :: ps) = ⟨p, p⟩ :: outline ps := rfl

@[simp] theorem outline_child (n : Node) (ps : List Piece) :
    outline (.child n :: ps) = n.span :: outline ps := rfl

@[simp] theorem outline_append (ps qs : List Piece) :
    outline (ps ++ qs) = outline ps ++ outline qs := by
  simp [outline]

@[simp] theorem outline_wordIf (b : Bool) (text : String) : outline (wordIf b text) = [] := by
  cases b <;> rfl

@[simp] theorem outline_words (texts : List String) : outline (texts.map .word) = [] := by
  induction texts with
  | nil => rfl
  | cons t ts ih => simp [ih]

@[simp] theorem outline_separated (text : String) (ns : List Node) :
    outline (separated text ns) = ns.map Node.span := by
  unfold separated
  induction ns with
  | nil => rfl
  | cons n ns ih =>
    cases ns with
    | nil => rfl
    | cons m ns => simpa [List.intersperse] using ih

@[simp] theorem outline_parenthesized (ns : List Node) :
    outline (parenthesized ns) = ns.map Node.span := by
  simp [parenthesized]

@[simp] theorem outline_clause (keyword : String) (ns : List Node) :
    outline (clause keyword ns) = ns.map Node.span := by
  unfold clause
  cases ns <;> simp

@[simp] theorem outline_token (text : String) (span : Span) :
    outline (token text span) = [⟨span.start, span.start⟩, ⟨span.stop, span.stop⟩] := rfl

@[simp] theorem outline_enclosed (span : Span) (ps : List Piece) :
    outline (enclosed span ps) =
      ⟨span.start, span.start⟩ :: outline ps ++ [⟨span.stop, span.stop⟩] := by
  simp [enclosed]

@[simp] theorem outline_whenSome_none (f : α → List Piece) : outline (whenSome none f) = [] := rfl

@[simp] theorem outline_whenSome_some (x : α) (f : α → List Piece) :
    outline (whenSome (some x) f) = outline (f x) := rfl

theorem outline_flatMap (l : List α) (f : α → List Piece) :
    outline (l.flatMap f) = l.flatMap fun x => outline (f x) := by
  induction l with
  | nil => rfl
  | cons x l ih => simp [ih]

end Layout

open Layout

/-- A layout runs from one position to another. -/
structure Frames (pieces : List Piece) (start stop : Position) : Prop where
  first : (outline pieces).head?.map (·.start) = some start
  last : (outline pieces).getLast?.map (·.stop) = some stop

@[simp] theorem Node.start_span (n : Node) : n.span.start = n.start := rfl

@[simp] theorem Node.stop_span (n : Node) : n.span.stop = n.stop := rfl

@[simp] theorem NonEmptyList.head?_toList (xs : NonEmptyList α) : xs.toList.head? = some xs.head :=
  rfl

/-! ## Names, types and expressions -/

theorem frames_objectName (name : ObjectName) :
    Frames (ObjectName.layout name) (ObjectName.start name) (ObjectName.stop name) := by
  constructor <;>
    simp [ObjectName.layout, ObjectName.start, ObjectName.stop, NonEmptyList.getLast?_toList,
      Node.ident, Node.start, Node.stop, Expr.start, Expr.stop]

theorem frames_dataType (t : DataType) : Frames t.layout t.start t.stop := by
  cases t <;> constructor <;>
    simp [DataType.layout, DataType.start, DataType.stop, Node.start, Node.stop,
      List.getLast?_cons]

theorem frames_expr (e : Expr) : Frames e.layout e.start e.stop := by
  cases e with
  | function name distinct args closeEnd window =>
    cases window <;> constructor <;>
      simp [Expr.layout, Expr.start, Expr.stop, Node.start, Node.stop, List.getLast?_cons]
  | caseWhen span operand branches otherwise =>
    constructor <;> simp [Expr.layout, Expr.start, Expr.stop, List.getLast?_cons]
  | existsQuery notStart existsStart query closeEnd =>
    cases notStart <;> constructor <;> simp [Expr.layout, Expr.start, Expr.stop]
  | _ =>
    constructor <;>
      simp [Expr.layout, Expr.start, Expr.stop, Node.ident, Node.start, Node.stop,
        NonEmptyList.getLast?_toList, List.getLast?_cons]

theorem frames_windowSpec (w : WindowSpec) : Frames w.layout w.span.start w.span.stop := by
  constructor <;> simp [WindowSpec.layout, List.getLast?_cons]

theorem frames_windowFrame (f : WindowFrame) : Frames f.layout f.unitsStart f.stop := by
  obtain ⟨_, _, lower, upper⟩ := f
  cases upper <;> constructor <;> simp [WindowFrame.layout, WindowFrame.stop, Node.stop]

theorem frames_sortKey (k : SortKey) : Frames k.layout k.expr.start k.stop := by
  obtain ⟨expr, direction⟩ := k
  cases direction <;> constructor <;> simp [SortKey.layout, SortKey.stop, Node.start, Node.stop]

/-! ## Queries -/

theorem frames_query (q : Query) : Frames q.layout q.start q.stop := by
  obtain ⟨withClause, body, orderBy, limit⟩ := q
  constructor
  · cases withClause <;> simp [Query.layout, Query.start, Node.start]
  · cases limit with
    | some limit => simp [Query.layout, Query.stop, Node.stop, List.getLast?_cons]
    | none =>
      cases h : orderBy.getLast? <;>
        simp [Query.layout, Query.stop, Node.stop, List.getLast?_cons, h]

theorem frames_with (w : With) : Frames w.layout w.withStart w.stop := by
  constructor <;>
    simp [With.layout, With.stop, NonEmptyList.getLast?_toList, Node.stop, List.getLast?_cons]

theorem frames_cte (c : Cte) : Frames c.layout c.aliasName.span.start c.closeEnd := by
  constructor <;> simp [Cte.layout, Node.ident, Node.start, Expr.start]

theorem frames_select (s : Select) :
    Frames (SetExpr.select s).layout s.selectStart s.stop := by
  obtain ⟨selectStart, distinct, projection, tables, selection, groupBy, having⟩ := s
  constructor
  · simp [SetExpr.layout]
  · cases having with
    | some having => simp [SetExpr.layout, Select.stop, Node.stop, List.getLast?_cons]
    | none =>
      cases hg : groupBy.getLast? with
      | some key => simp [SetExpr.layout, Select.stop, Node.stop, List.getLast?_cons, hg]
      | none =>
        cases selection with
        | some selection =>
          simp [SetExpr.layout, Select.stop, Node.stop, List.getLast?_cons, hg]
        | none =>
          cases ht : tables.getLast? <;>
            simp [SetExpr.layout, Select.stop, Node.stop, List.getLast?_cons,
              NonEmptyList.getLast?_toList, hg, ht]

theorem frames_setExpr (s : SetExpr) : Frames s.layout s.start s.stop := by
  cases s with
  | select body => exact frames_select body
  | _ =>
    constructor <;>
      simp [SetExpr.layout, SetExpr.start, SetExpr.stop, Node.start, Node.stop, List.getLast?_cons]

theorem frames_selectItem (i : SelectItem) : Frames i.layout i.start i.stop := by
  cases i <;> constructor <;>
    simp [SelectItem.layout, SelectItem.start, SelectItem.stop, Node.ident, Node.start, Node.stop,
      Expr.stop]

theorem frames_limit (l : Limit) : Frames l.layout l.limitStart l.stop := by
  obtain ⟨_, value, offset⟩ := l
  cases value <;> cases offset <;> constructor <;>
    simp [Limit.layout, Limit.stop, Node.literal, Node.stop, Expr.stop]

/-! ## Tables -/

theorem frames_tableReference (t : TableReference) : Frames t.layout t.start t.stop := by
  cases t with
  | table name args aliasName hints =>
    constructor
    · simp [TableReference.layout, TableReference.start, Node.start]
    · cases hints <;> cases aliasName <;> cases args <;>
        simp [TableReference.layout, TableReference.stop, aliasLayout, Node.ident, Node.stop,
          Expr.stop, List.getLast?_cons]
  | derived lateralStart openStart query closeEnd aliasName =>
    constructor
    · cases lateralStart <;> simp [TableReference.layout, TableReference.start]
    · cases aliasName <;>
        simp [TableReference.layout, TableReference.stop, aliasLayout, Node.ident, Node.stop,
          Expr.stop]
  | _ =>
    constructor <;>
      simp [TableReference.layout, TableReference.start, TableReference.stop, ColumnList.layout,
        Node.start, Node.stop, List.getLast?_cons]

theorem frames_joinSpec (s : JoinSpec) : Frames s.layout s.start s.stop := by
  cases s <;> constructor <;>
    simp [JoinSpec.layout, JoinSpec.start, JoinSpec.stop, ColumnList.layout, Node.stop,
      List.getLast?_cons]

theorem frames_constraint {name : Option ConstraintName} {rule : Node} :
    Frames (ConstraintName.layout? name ++ [.child rule])
      (match name with | some name => name.constraintStart | none => rule.start) rule.stop := by
  cases name <;> constructor <;> simp [ConstraintName.layout?]

theorem frames_tableElement (e : TableElement) : Frames e.layout e.start e.stop := by
  cases e with
  | column c =>
    obtain ⟨name, type, value, constraints⟩ := c
    have hlist : constraints.flatMap (fun c => [(Node.columnConstraint c).span]) =
        constraints.map fun c => (Node.columnConstraint c).span := List.map_eq_flatMap.symm
    constructor
    · simp [TableElement.layout, TableElement.start, Node.ident, Node.start, Expr.start]
    · cases hc : constraints.getLast? <;> cases value <;>
        simp [TableElement.layout, TableElement.stop, ColumnDef.stop, Node.stop, outline_flatMap,
          List.getLast?_cons, hlist, hc]
  | constraint c => exact frames_constraint

theorem frames_referenceKey (k : ReferenceKey) : Frames k.layout k.referencesStart k.stop := by
  obtain ⟨_, table, columns⟩ := k
  cases columns <;> constructor <;>
    simp [ReferenceKey.layout, ReferenceKey.stop, ColumnList.layout, Node.stop, List.getLast?_cons]

theorem frames_columnRule (r : ColumnRule) : Frames r.layout r.start r.stop := by
  cases r with
  | references key => exact frames_referenceKey key
  | _ => constructor <;> simp [ColumnRule.layout, ColumnRule.start, ColumnRule.stop]

theorem frames_tableRule (r : TableRule) : Frames r.layout r.start r.stop := by
  cases r <;> constructor <;>
    simp [TableRule.layout, TableRule.start, TableRule.stop, ColumnList.layout, Node.referenceKey,
      Node.stop, ColumnRule.stop, List.getLast?_cons]

theorem frames_columnChange (c : ColumnChange) : Frames c.layout c.start c.stop := by
  cases c <;> constructor <;>
    simp [ColumnChange.layout, ColumnChange.start, ColumnChange.stop, Node.stop]

theorem frames_tableChange (c : TableChange) : Frames c.layout c.start c.stop := by
  cases c with
  | dropConstraint dropStart name cascadeEnd =>
    cases cascadeEnd <;> constructor <;>
      simp [TableChange.layout, TableChange.start, TableChange.stop, cascadeLayout, Node.ident,
        Node.stop, Expr.stop]
  | dropColumn dropStart name cascadeEnd =>
    cases cascadeEnd <;> constructor <;>
      simp [TableChange.layout, TableChange.start, TableChange.stop, cascadeLayout, Node.ident,
        Node.stop, Expr.stop]
  | _ =>
    constructor <;>
      simp [TableChange.layout, TableChange.start, TableChange.stop, Node.stop, TableElement.stop]

/-! ## Statements -/

theorem frames_insertSource (s : InsertSource) : Frames s.layout s.start s.stop := by
  cases s <;> constructor <;>
    simp [InsertSource.layout, InsertSource.start, InsertSource.stop, Node.query, Node.start,
      Node.stop, Statement.start, Statement.stop, NonEmptyList.getLast?_toList, List.getLast?_cons]

theorem frames_statement (s : Statement) : Frames s.layout s.start s.stop := by
  cases s with
  | query q => exact frames_query q
  | insert s =>
    obtain ⟨_, table, columns, source, updates⟩ := s
    constructor
    · simp [Statement.layout, Statement.start]
    · cases hu : updates.getLast? <;>
        simp [Statement.layout, Statement.stop, Insert.stop, Node.stop, List.getLast?_cons, hu]
  | update s =>
    obtain ⟨_, table, assignments, selection⟩ := s
    cases selection <;> constructor <;>
      simp [Statement.layout, Statement.start, Statement.stop, Update.stop, selectionLayout,
        Node.stop, NonEmptyList.getLast?_toList, List.getLast?_cons]
  | delete s =>
    obtain ⟨_, table, selection⟩ := s
    cases selection <;> constructor <;>
      simp [Statement.layout, Statement.start, Statement.stop, Delete.stop, selectionLayout,
        Node.stop]
  | createTable s =>
    obtain ⟨_, _, name, elements, closeEnd, external⟩ := s
    cases external <;> constructor <;>
      simp [Statement.layout, Statement.start, Statement.stop, CreateTable.stop, Node.literal,
        Node.stop, Expr.stop, List.getLast?_cons]
  | dropTable s =>
    obtain ⟨_, _, tables, cascadeEnd⟩ := s
    cases cascadeEnd <;> constructor <;>
      simp [Statement.layout, Statement.start, Statement.stop, DropTable.stop, cascadeLayout,
        Node.stop, NonEmptyList.getLast?_toList, List.getLast?_cons]
  | createIndex s =>
    obtain ⟨_, _, name, table, method, columns, selection⟩ := s
    cases selection <;> constructor <;>
      simp [Statement.layout, Statement.start, Statement.stop, CreateIndex.stop, selectionLayout,
        ColumnList.layout, Node.stop, List.getLast?_cons]
  | _ =>
    constructor <;>
      simp [Statement.layout, Statement.start, Statement.stop, Node.query, Node.ident, Node.stop,
        Expr.stop, NonEmptyList.getLast?_toList, List.getLast?_cons]

/-! ## All nodes -/

namespace Node

/-- Whether a node is a whole script. -/
def isScript : Node → Bool
  | script _ => true
  | _ => false

/-- A node other than a script starts with the first thing in its layout and stops with the
last. -/
theorem frames_layout {n : Node} (h : n.isScript = false) : Frames n.layout n.start n.stop := by
  cases n with
  | expr e => exact frames_expr e
  | objectName name => exact frames_objectName name
  | dataType t => exact frames_dataType t
  | windowSpec w => exact frames_windowSpec w
  | windowFrame f => exact frames_windowFrame f
  | statement s => exact frames_statement s
  | withClause w => exact frames_with w
  | cte c => exact frames_cte c
  | setExpr s => exact frames_setExpr s
  | selectItem i => exact frames_selectItem i
  | sortKey k => exact frames_sortKey k
  | limit l => exact frames_limit l
  | tableReference t => exact frames_tableReference t
  | joinSpec s => exact frames_joinSpec s
  | insertSource s => exact frames_insertSource s
  | tableElement e => exact frames_tableElement e
  | columnConstraint c => exact frames_constraint
  | columnRule r => exact frames_columnRule r
  | tableRule r => exact frames_tableRule r
  | tableChange c => exact frames_tableChange c
  | columnChange c => exact frames_columnChange c
  | script s => cases h
  | commentGroup g =>
    constructor <;>
      simp [layout, start, stop, CommentGroup.start, CommentGroup.stop,
        NonEmptyList.getLast?_toList]
  | _ =>
    constructor <;>
      simp [layout, start, stop, Assignment.layout, Row.layout, Node.ident, Expr.start,
        List.getLast?_cons]

/-- No script is part of another node. -/
theorem all_children_not_script (n : Node) : n.children.all (fun c => !c.isScript) = true := by
  cases n with
  | expr e =>
    cases e <;>
      simp [children, Expr.children, isScript, Node.query, Node.ident, List.all_flatMap]
  | dataType t => cases t <;> simp [children, DataType.children, isScript]
  | windowSpec w => simp [children, WindowSpec.children, isScript]
  | windowFrame f => simp [children, WindowFrame.children, isScript]
  | statement s =>
    cases s with
    | createTable s =>
      obtain ⟨_, _, _, _, _, external⟩ := s
      cases external <;> simp [children, Statement.children, isScript, Node.literal]
    | _ =>
      simp [children, Statement.children, Query.children, ColumnList.children, isScript,
        Node.query, Node.ident]
  | setExpr s => cases s <;> simp [children, SetExpr.children, isScript, Node.query]
  | selectItem i => cases i <;> simp [children, SelectItem.children, isScript, Node.ident]
  | limit l =>
    obtain ⟨_, value, _⟩ := l
    cases value <;> simp [children, Limit.children, isScript, Node.literal]
  | tableReference t =>
    cases t with
    | table name args aliasName hints =>
      cases args <;> cases hints <;>
        simp [children, TableReference.children, TableArgs.children?, TableHints.children?,
          isScript, Node.ident]
    | _ =>
      simp [children, TableReference.children, ColumnList.children, isScript, Node.query,
        Node.ident]
  | joinSpec s =>
    cases s <;>
      simp [children, JoinSpec.children, ColumnList.children, isScript, Node.ident]
  | insertSource s =>
    cases s <;> simp [children, InsertSource.children, isScript, Node.query]
  | tableElement e =>
    cases e with
    | column c => simp [children, TableElement.children, isScript, Node.ident]
    | constraint c =>
      obtain ⟨name, _⟩ := c
      cases name <;>
        simp [children, TableElement.children, ConstraintName.children?, isScript,
          Node.ident]
  | columnConstraint c =>
    obtain ⟨name, _⟩ := c
    cases name <;> simp [children, ConstraintName.children?, isScript, Node.ident]
  | columnRule r =>
    cases r with
    | references key =>
      obtain ⟨_, _, columns⟩ := key
      cases columns <;>
        simp [children, ColumnRule.children, ReferenceKey.children, ColumnList.children,
          isScript, Node.ident]
    | _ => simp [children, ColumnRule.children, isScript]
  | tableRule r =>
    cases r <;>
      simp [children, TableRule.children, ColumnList.children, isScript,
        Node.referenceKey, Node.ident]
  | tableChange c =>
    cases c <;> simp [children, TableChange.children, isScript, Node.ident]
  | columnChange c => cases c <;> simp [children, ColumnChange.children, isScript]
  | _ => simp [children, isScript, Node.ident, Node.query]

theorem isScript_of_mem_children {c n : Node} (h : c ∈ n.children) : c.isScript = false := by
  have hall := List.all_eq_true.mp n.all_children_not_script c h
  simpa using hall

end Node

/-! ## Positions -/

/-- The positions that a piece stands for. -/
def Piece.positions : Piece → List Position
  | word _ => []
  | mark p => [p]
  | child n => n.positions

namespace Layout

/-- If every child starts with its first position, a layout has the position first that its outline
starts with. -/
theorem head?_flatMap_positions {pieces : List Piece}
    (h : ∀ c, Piece.child c ∈ pieces → c.positions.head? = some c.start) :
    (pieces.flatMap Piece.positions).head? = (outline pieces).head?.map (·.start) := by
  induction pieces with
  | nil => rfl
  | cons piece pieces ih =>
    have ih := ih fun c hc => h c (List.mem_cons_of_mem _ hc)
    cases piece with
    | word text => simpa [Piece.positions] using ih
    | mark p => simp [Piece.positions]
    | child c => simp [Piece.positions, h c List.mem_cons_self]

/-- If every child stops with its last position, a layout has the position last that its outline
stops with. -/
theorem getLast?_flatMap_positions {pieces : List Piece}
    (h : ∀ c, Piece.child c ∈ pieces → c.positions.getLast? = some c.stop) :
    (pieces.flatMap Piece.positions).getLast? = (outline pieces).getLast?.map (·.stop) := by
  induction pieces with
  | nil => rfl
  | cons piece pieces ih =>
    have ih := ih fun c hc => h c (List.mem_cons_of_mem _ hc)
    rw [List.flatMap_cons, List.getLast?_append, ih]
    cases piece with
    | word text => simp [Piece.positions]
    | mark p =>
      cases hlast : (outline pieces).getLast? <;>
        simp [Piece.positions, List.getLast?_cons, hlast]
    | child c =>
      have hc : c.positions.getLast? = some c.stop := h c List.mem_cons_self
      cases hlast : (outline pieces).getLast? <;>
        simp [Piece.positions, List.getLast?_cons, hlast, hc]

end Layout

namespace Node

/-- A node's positions are those of its layout, piece by piece. -/
theorem positions_eq (n : Node) : n.positions = n.layout.flatMap Piece.positions := by
  rw [positions, leaves_eq, List.filterMap_flatMap]
  congr 1
  funext piece
  cases piece <;> rfl

/-- A node other than a script starts with the first position recorded in it. -/
theorem head?_positions {n : Node} (h : n.isScript = false) : n.positions.head? = some n.start := by
  rw [positions_eq, head?_flatMap_positions, (frames_layout h).first]
  intro c hc
  have hc := mem_children_of_mem_layout hc
  exact head?_positions (isScript_of_mem_children hc)
termination_by n.weight
decreasing_by exact weight_lt_of_mem_children hc

/-- A node other than a script stops with the last position recorded in it. -/
theorem getLast?_positions {n : Node} (h : n.isScript = false) :
    n.positions.getLast? = some n.stop := by
  rw [positions_eq, getLast?_flatMap_positions, (frames_layout h).last]
  intro c hc
  have hc := mem_children_of_mem_layout hc
  exact getLast?_positions (isScript_of_mem_children hc)
termination_by n.weight
decreasing_by exact weight_lt_of_mem_children hc

/-- The positions of a script are those of its statements. -/
theorem positions_script (s : Script) :
    (script s).positions = s.statements.toList.flatMap fun t => (statement t).positions := by
  obtain ⟨⟨head, tail⟩, _, _⟩ := s
  simp [positions_eq (script _), layout, Script.layout, Piece.positions, List.flatMap_assoc]

end Node

end SqlScript
