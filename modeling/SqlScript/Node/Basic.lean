import SqlScript.Node.Kind
import SqlScript.Tree.Script

/-!
# Nodes

A node is any part of a script that can be visited, written out or commented on. `Node` gathers the
types of the tree into one; each kind of node has exactly one form in it. So an identifier is an
expression wherever it stands, a query is a statement, and a reference to another table's key is a
rule for a column.

* `Node.kind`: what kind of node it is;
* `Node.start`, `Node.stop`: its extent.
-/

namespace SqlScript

/-- Any part of a script that can be visited, written out or commented on. -/
inductive Node where
  | expr (e : Expr)
  | objectName (name : ObjectName)
  | operator (op : Operator)
  | dataType (type : DataType)
  | windowSpec (window : WindowSpec)
  | windowFrame (frame : WindowFrame)
  | frameBound (bound : FrameBound)
  | statement (s : Statement)
  | withClause (clause : With)
  | cte (table : Cte)
  | setExpr (body : SetExpr)
  | selectItem (item : SelectItem)
  | sortKey (key : SortKey)
  | limit (l : Limit)
  | tableReference (table : TableReference)
  | joinType (type : JoinType)
  | joinSpec (spec : JoinSpec)
  | assignment (a : Assignment)
  | insertSource (source : InsertSource)
  | row (r : Row)
  | tableElement (element : TableElement)
  | columnConstraint (constraint : ColumnConstraint)
  | columnRule (rule : ColumnRule)
  | tableRule (rule : TableRule)
  | tableChange (change : TableChange)
  | columnChange (change : ColumnChange)
  | script (s : Script)
  | comment (c : Comment)
  | commentGroup (g : CommentGroup)

namespace Node

/-- An identifier as a node. -/
def ident (name : Ident) : Node := expr (.ident name)

/-- A literal as a node. -/
def literal (value : Literal) : Node := expr (.literal value)

/-- A query as a node. -/
def query (q : Query) : Node := statement (.query q)

/-- A reference to another table's key as a node. -/
def referenceKey (key : ReferenceKey) : Node := columnRule (.references key)

end Node

/-! ## Kinds -/

/-- The kind of an expression. -/
def Expr.kind : Expr → NodeKind
  | ident .. => .ident
  | compound .. => .compoundIdent
  | wildcard .. => .wildcard
  | qualifiedWildcard .. => .qualifiedWildcard
  | literal .. => .literal
  | binary .. => .binary
  | unary .. => .unary
  | isNull .. => .isNull
  | inList .. => .inList
  | inSubquery .. => .inSubquery
  | between .. => .between
  | cast .. => .cast
  | nested .. => .nested
  | function .. => .function
  | caseWhen .. => .caseWhen
  | existsQuery .. => .existsQuery
  | subquery .. => .subquery

/-- The kind of a statement. -/
def Statement.kind : Statement → NodeKind
  | query .. => .query
  | insert .. => .insert
  | update .. => .update
  | delete .. => .delete
  | createView .. => .createView
  | createTable .. => .createTable
  | alterTable .. => .alterTable
  | dropTable .. => .dropTable
  | createIndex .. => .createIndex
  | dropIndex .. => .dropIndex
  | explain .. => .explain

/-- The kind of a query's body. -/
def SetExpr.kind : SetExpr → NodeKind
  | select .. => .select
  | parenthesized .. => .parenthesizedQuery
  | setOperation .. => .setOperation

/-- The kind of an item of a projection. -/
def SelectItem.kind : SelectItem → NodeKind
  | unnamed .. => .unnamedItem
  | aliased .. => .aliasedItem
  | qualifiedWildcard .. => .qualifiedWildcardItem
  | wildcard .. => .wildcardItem

/-- The kind of a table reference. -/
def TableReference.kind : TableReference → NodeKind
  | table .. => .table
  | derived .. => .derivedTable
  | crossJoin .. => .crossJoin
  | qualifiedJoin .. => .qualifiedJoin
  | naturalJoin .. => .naturalJoin
  | partitioned .. => .partitionedTable

/-- The kind of a join condition. -/
def JoinSpec.kind : JoinSpec → NodeKind
  | condition .. => .joinCondition
  | sharedColumns .. => .sharedColumns

/-- The kind of a source of rows. -/
def InsertSource.kind : InsertSource → NodeKind
  | values .. => .insertValues
  | query .. => .insertQuery

/-- The kind of an element of a table. -/
def TableElement.kind : TableElement → NodeKind
  | column .. => .columnDef
  | constraint .. => .tableConstraint

/-- The kind of a rule for a column. -/
def ColumnRule.kind : ColumnRule → NodeKind
  | notNull .. => .columnNotNull
  | unique .. => .columnUnique
  | references .. => .referenceKey
  | check .. => .columnCheck

/-- The kind of a rule for a table. -/
def TableRule.kind : TableRule → NodeKind
  | unique .. => .tableUnique
  | foreignKey .. => .tableForeignKey
  | check .. => .tableCheck

/-- The kind of a change to a table. -/
def TableChange.kind : TableChange → NodeKind
  | addColumn .. => .addColumn
  | addConstraint .. => .addConstraint
  | dropConstraint .. => .dropConstraint
  | dropColumn .. => .dropColumn
  | alterColumn .. => .alterColumn

/-- The kind of a change to a column. -/
def ColumnChange.kind : ColumnChange → NodeKind
  | setDefault .. => .setDefault
  | dropDefault .. => .dropDefault
  | setType .. => .setType
  | setNotNull .. => .setNotNull
  | dropNotNull .. => .dropNotNull

namespace Node

/-- The kind of a node. -/
def kind : Node → NodeKind
  | expr e => e.kind
  | objectName _ => .objectName
  | operator _ => .operator
  | dataType _ => .dataType
  | windowSpec _ => .windowSpec
  | windowFrame _ => .windowFrame
  | frameBound _ => .frameBound
  | statement s => s.kind
  | withClause _ => .withClause
  | cte _ => .cte
  | setExpr body => body.kind
  | selectItem item => item.kind
  | sortKey _ => .sortKey
  | limit _ => .limit
  | tableReference table => table.kind
  | joinType _ => .joinType
  | joinSpec spec => spec.kind
  | assignment _ => .assignment
  | insertSource source => source.kind
  | row _ => .row
  | tableElement element => element.kind
  | columnConstraint _ => .columnConstraint
  | columnRule rule => rule.kind
  | tableRule rule => rule.kind
  | tableChange change => change.kind
  | columnChange change => change.kind
  | script _ => .script
  | comment _ => .comment
  | commentGroup _ => .commentGroup

/-- Whether a comment below a node may belong to the node as a whole. -/
def isContainer (n : Node) : Bool :=
  n.kind.isContainer

/-! ## Extents -/

/-- Where a node starts. -/
def start : Node → Position
  | expr e => e.start
  | objectName name => ObjectName.start name
  | operator op => op.span.start
  | dataType type => type.start
  | windowSpec window => window.span.start
  | windowFrame frame => frame.unitsStart
  | frameBound bound => bound.span.start
  | statement s => s.start
  | withClause clause => clause.withStart
  | cte table => table.aliasName.span.start
  | setExpr body => body.start
  | selectItem item => item.start
  | sortKey key => key.expr.start
  | limit l => l.limitStart
  | tableReference table => table.start
  | joinType type => type.span.start
  | joinSpec spec => spec.start
  | assignment a => a.column.span.start
  | insertSource source => source.start
  | row r => r.span.start
  | tableElement element => element.start
  | columnConstraint constraint => constraint.start
  | columnRule rule => rule.start
  | tableRule rule => rule.start
  | tableChange change => change.start
  | columnChange change => change.start
  | script s => s.start
  | comment c => c.span.start
  | commentGroup g => g.start

/-- Where a node stops. -/
def stop : Node → Position
  | expr e => e.stop
  | objectName name => ObjectName.stop name
  | operator op => op.span.stop
  | dataType type => type.stop
  | windowSpec window => window.span.stop
  | windowFrame frame => frame.stop
  | frameBound bound => bound.span.stop
  | statement s => s.stop
  | withClause clause => clause.stop
  | cte table => table.closeEnd
  | setExpr body => body.stop
  | selectItem item => item.stop
  | sortKey key => key.stop
  | limit l => l.stop
  | tableReference table => table.stop
  | joinType type => type.span.stop
  | joinSpec spec => spec.stop
  | assignment a => a.value.stop
  | insertSource source => source.stop
  | row r => r.span.stop
  | tableElement element => element.stop
  | columnConstraint constraint => constraint.rule.stop
  | columnRule rule => rule.stop
  | tableRule rule => rule.stop
  | tableChange change => change.stop
  | columnChange change => change.stop
  | script s => s.stop
  | comment c => c.span.stop
  | commentGroup g => g.stop

/-- The extent of a node. -/
def span (n : Node) : Span :=
  ⟨n.start, n.stop⟩

end Node

end SqlScript
