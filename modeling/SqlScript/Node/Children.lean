import SqlScript.Node.Basic

/-!
# Children of nodes

The children of a node are the nodes directly inside it, in the order in which they are written.
Parts that are no nodes themselves, such as the arguments of a table, give their nodes to the node
they belong to. The comments of a script are not its children.
-/

namespace SqlScript

/-- The columns of a column list. -/
def ColumnList.children (l : ColumnList) : List Node :=
  l.columns.toList.map .ident

/-- The children of a data type: the element of an array, or the name. -/
def DataType.children : DataType → List Node
  | builtin _ _ => []
  | array element _ => [.dataType element]
  | custom name _ => [.objectName name]

/-! ## Expressions and queries -/

/-- The children of an expression. -/
def Expr.children : Expr → List Node
  | ident _ => []
  | compound parts => parts.toList.map .ident
  | wildcard _ => []
  | qualifiedWildcard qualifier _ => [.objectName qualifier]
  | literal _ => []
  | binary left op right => [.expr left, .operator op, .expr right]
  | unary op operand => [.operator op, .expr operand]
  | isNull operand _ _ => [.expr operand]
  | inList operand items _ _ => .expr operand :: items.toList.map .expr
  | inSubquery operand query _ _ => [.expr operand, .query query]
  | between operand _ low high => [.expr operand, .expr low, .expr high]
  | cast _ operand type => [.expr operand, .dataType type]
  | nested _ inner => [.expr inner]
  | function name _ args _ window =>
    .objectName name :: (args.map .expr ++ window.toList.map .windowSpec)
  | caseWhen _ operand branches otherwise =>
    operand.toList.map .expr ++
      branches.toList.flatMap (fun branch => [.expr branch.1, .expr branch.2]) ++
      otherwise.toList.map .expr
  | existsQuery _ _ query _ => [.query query]
  | subquery _ query => [.query query]

/-- The children of a window. -/
def WindowSpec.children (w : WindowSpec) : List Node :=
  w.partitionBy.map .expr ++ w.orderBy.map .sortKey ++ w.frame.toList.map .windowFrame

/-- The children of a window frame. -/
def WindowFrame.children (f : WindowFrame) : List Node :=
  .frameBound f.lower :: f.upper.toList.map .frameBound

/-- The children of a query. -/
def Query.children (q : Query) : List Node :=
  q.withClause.toList.map .withClause ++ .setExpr q.body :: q.orderBy.map .sortKey ++
    q.limit.toList.map .limit

/-- The children of the body of a query. -/
def SetExpr.children : SetExpr → List Node
  | select body =>
    body.projection.toList.map .selectItem ++ body.tables.map .tableReference ++
      body.selection.toList.map .expr ++ body.groupBy.map .expr ++ body.having.toList.map .expr
  | parenthesized _ query => [.query query]
  | setOperation left _ _ right => [.setExpr left, .setExpr right]

/-- The children of an item of a projection. -/
def SelectItem.children : SelectItem → List Node
  | unnamed expr => [.expr expr]
  | aliased expr aliasName => [.expr expr, .ident aliasName]
  | qualifiedWildcard qualifier _ => [.objectName qualifier]
  | wildcard _ => []

/-- The children of a limit. -/
def Limit.children (l : Limit) : List Node :=
  (match l.value with
    | .count n => [.literal n]
    | .all _ => []) ++
    l.offset.toList.map .literal

/-- The arguments of a table function, if there are any. -/
def TableArgs.children? : Option TableArgs → List Node
  | some args => args.args.map .expr
  | none => []

/-- The hints to the planner, if there are any. -/
def TableHints.children? : Option TableHints → List Node
  | some hints => hints.hints.toList.map .expr
  | none => []

/-- The children of a table reference. -/
def TableReference.children : TableReference → List Node
  | table name args aliasName hints =>
    .objectName name :: (TableArgs.children? args ++ aliasName.toList.map .ident ++
      TableHints.children? hints)
  | derived _ _ query _ aliasName => .query query :: aliasName.toList.map .ident
  | crossJoin left right => [.tableReference left, .tableReference right]
  | qualifiedJoin left type right spec =>
    [.tableReference left, .joinType type, .tableReference right, .joinSpec spec]
  | naturalJoin left _ type right =>
    [.tableReference left, .joinType type, .tableReference right]
  | partitioned source _ columns => .tableReference source :: columns.children

/-- The children of a join condition. -/
def JoinSpec.children : JoinSpec → List Node
  | condition _ expr => [.expr expr]
  | sharedColumns _ columns => columns.children

/-! ## Statements -/

/-- The children of a source of rows. -/
def InsertSource.children : InsertSource → List Node
  | values _ rows => rows.toList.map .row
  | query q => [.query q]

/-- The name of a constraint, if it has one. -/
def ConstraintName.children? : Option ConstraintName → List Node
  | some name => [.ident name.name]
  | none => []

/-- The children of an element of a table. -/
def TableElement.children : TableElement → List Node
  | column c =>
    .ident c.name :: .dataType c.type ::
      (c.default.toList.map .expr ++ c.constraints.map .columnConstraint)
  | constraint c => ConstraintName.children? c.name ++ [.tableRule c.rule]

/-- The children of a reference to another table's key. -/
def ReferenceKey.children (k : ReferenceKey) : List Node :=
  .objectName k.table ::
    (match k.columns with
      | some columns => columns.children
      | none => [])

/-- The children of a rule for a column. -/
def ColumnRule.children : ColumnRule → List Node
  | notNull _ => []
  | unique _ _ => []
  | references key => key.children
  | check _ expr => [.expr expr]

/-- The children of a rule for a table. -/
def TableRule.children : TableRule → List Node
  | unique _ _ columns => columns.children
  | foreignKey _ columns key => columns.children ++ [.referenceKey key]
  | check _ expr => [.expr expr]

/-- The children of a change to a table. -/
def TableChange.children : TableChange → List Node
  | addColumn _ column => [.tableElement (.column column)]
  | addConstraint _ constraint => [.tableElement (.constraint constraint)]
  | dropConstraint _ name _ => [.ident name]
  | dropColumn _ name _ => [.ident name]
  | alterColumn _ column change => [.ident column, .columnChange change]

/-- The children of a change to a column. -/
def ColumnChange.children : ColumnChange → List Node
  | setDefault _ value => [.expr value]
  | dropDefault _ => []
  | setType _ type => [.dataType type]
  | setNotNull _ => []
  | dropNotNull _ => []

/-- The children of a statement. -/
def Statement.children : Statement → List Node
  | query q => q.children
  | insert s =>
    .objectName s.table ::
      (s.columns.map .ident ++ .insertSource s.source :: s.updates.map .assignment)
  | update s =>
    .objectName s.table ::
      (s.assignments.toList.map .assignment ++ s.selection.toList.map .expr)
  | delete s => .objectName s.table :: s.selection.toList.map .expr
  | createView s => [.objectName s.name, .query s.query]
  | createTable s =>
    .objectName s.name ::
      (s.elements.toList.map .tableElement ++
        (match s.external with
          | some external => [.literal external.location]
          | none => []))
  | alterTable s => [.objectName s.table, .tableChange s.change]
  | dropTable s => s.tables.toList.map .objectName
  | createIndex s =>
    s.name.toList.map .ident ++ .objectName s.table ::
      (s.method.toList.map .ident ++ s.columns.children ++ s.selection.toList.map .expr)
  | dropIndex s => s.names.toList.map .ident
  | explain _ statement => [.statement statement]

namespace Node

/-- The children of a node, in the order in which they are written. -/
def children : Node → List Node
  | expr e => e.children
  | objectName name => name.toList.map .ident
  | operator _ => []
  | dataType type => type.children
  | windowSpec window => window.children
  | windowFrame frame => frame.children
  | frameBound _ => []
  | statement s => s.children
  | withClause clause => clause.tables.toList.map .cte
  | cte table => [.ident table.aliasName, .query table.query]
  | setExpr body => body.children
  | selectItem item => item.children
  | sortKey key => [.expr key.expr]
  | limit l => l.children
  | tableReference table => table.children
  | joinType _ => []
  | joinSpec spec => spec.children
  | assignment a => [.ident a.column, .expr a.value]
  | insertSource source => source.children
  | row r => r.values.toList.map .expr
  | tableElement element => element.children
  | columnConstraint constraint =>
    ConstraintName.children? constraint.name ++ [.columnRule constraint.rule]
  | columnRule rule => rule.children
  | tableRule rule => rule.children
  | tableChange change => change.children
  | columnChange change => change.children
  | script s => s.statements.toList.map .statement
  | comment _ => []
  | commentGroup g => g.comments.toList.map .comment

end Node

end SqlScript
