import SqlScript.Node.Basic

/-!
# How nodes are written

The layout of a node lists, from left to right, the words that are written for the node itself, the
children that are written between them, and the positions that the node records for its tokens. A
position stands where its token is: in front of the first word of a token that it starts, behind
the last word of a token that it stops.
-/

namespace SqlScript

/-- One piece of a layout. -/
inductive Piece where
  /-- A text written for the node itself. -/
  | word (text : String)
  /-- A position that the node records here. -/
  | mark (p : Position)
  /-- A child written here. -/
  | child (n : Node)

namespace Layout

/-- A word that is written only under a condition. -/
def wordIf (condition : Bool) (text : String) : List Piece :=
  if condition then [.word text] else []

/-- Children with a word between each two of them. -/
def separated (separator : String) (nodes : List Node) : List Piece :=
  (nodes.map Piece.child).intersperse (.word separator)

/-- Children between parentheses, with commas between them. -/
def parenthesized (nodes : List Node) : List Piece :=
  .word "(" :: separated ", " nodes ++ [.word ")"]

/-- A layout for a part that may be absent. -/
def whenSome (o : Option α) (layout : α → List Piece) : List Piece :=
  match o with
  | some x => layout x
  | none => []

/-- A clause of one keyword and a list, written only if the list has an element. -/
def clause (keyword : String) (nodes : List Node) : List Piece :=
  if nodes.isEmpty then [] else .word keyword :: separated ", " nodes

/-- A token: its start, its text, its stop. -/
def token (text : String) (span : Span) : List Piece :=
  [.mark span.start, .word text, .mark span.stop]

/-- Words between the two ends of a span. -/
def enclosed (span : Span) (pieces : List Piece) : List Piece :=
  .mark span.start :: pieces ++ [.mark span.stop]

end Layout

open Layout

/-! ## Names and types -/

/-- The layout of an object name. -/
def ObjectName.layout (name : ObjectName) : List Piece :=
  separated "." (name.toList.map .ident)

/-- The layout of a column list. -/
def ColumnList.layout (l : ColumnList) : List Piece :=
  parenthesized (l.columns.toList.map .ident) ++ [.mark l.closeEnd]

/-- The layout of a data type. -/
def DataType.layout : DataType → List Piece
  | builtin type span => enclosed span (type.fragments.map .word)
  | array element span => [.child (.dataType element), .word "[]", .mark span.stop]
  | custom name _ => [.child (.objectName name)]

/-! ## Expressions -/

/-- The layout of an expression. -/
def Expr.layout : Expr → List Piece
  | ident name => token name.val name.span
  | compound parts => separated "." (parts.toList.map .ident)
  | wildcard star => token "*" ⟨star, star.advance 1⟩
  | qualifiedWildcard qualifier starEnd =>
    [.child (.objectName qualifier), .word ".*", .mark starEnd]
  | literal value => enclosed value.span (value.val.fragments.map .word)
  | binary left op right =>
    [.child (.expr left), .word " ", .child (.operator op), .word " ", .child (.expr right)]
  | unary op operand =>
    .child (.operator op) :: wordIf op.val.isKeyword " " ++ [.child (.expr operand)]
  | isNull operand negated nullEnd =>
    [.child (.expr operand), .word (if negated then " IS NOT NULL" else " IS NULL"),
      .mark nullEnd]
  | inList operand items negated closeEnd =>
    .child (.expr operand) :: wordIf negated " NOT" ++ .word " IN " ::
      parenthesized (items.toList.map .expr) ++ [.mark closeEnd]
  | inSubquery operand query negated closeEnd =>
    .child (.expr operand) :: wordIf negated " NOT" ++
      [.word " IN (", .child (.query query), .word ")", .mark closeEnd]
  | between operand negated low high =>
    .child (.expr operand) :: wordIf negated " NOT" ++
      [.word " BETWEEN ", .child (.expr low), .word " AND ", .child (.expr high)]
  | cast span operand type =>
    enclosed span [.word "CAST(", .child (.expr operand), .word " AS ", .child (.dataType type),
      .word ")"]
  | nested span inner => enclosed span [.word "(", .child (.expr inner), .word ")"]
  | function name distinct args closeEnd window =>
    [.child (.objectName name), .word "("] ++ wordIf distinct "DISTINCT " ++
      separated ", " (args.map .expr) ++ [.word ")", .mark closeEnd] ++
      whenSome window fun window => [.word " ", .child (.windowSpec window)]
  | caseWhen span operand branches otherwise =>
    enclosed span (.word "CASE " ::
      (whenSome operand fun operand => [.child (.expr operand), .word " "]) ++
      branches.toList.flatMap (fun branch =>
        [.word "WHEN ", .child (.expr branch.1), .word " THEN ", .child (.expr branch.2),
          .word " "]) ++
      (whenSome otherwise fun result => [.word "ELSE ", .child (.expr result), .word " "]) ++
      [.word "END"])
  | existsQuery notStart existsStart query closeEnd =>
    (whenSome notStart fun notStart => [.mark notStart, .word "NOT "]) ++
      [.mark existsStart, .word "EXISTS (", .child (.query query), .word ")", .mark closeEnd]
  | subquery span query => enclosed span [.word "(", .child (.query query), .word ")"]

/-- The layout of a window. Its parts are parted by blanks, wherever there are two. -/
def WindowSpec.layout (w : WindowSpec) : List Piece :=
  enclosed w.span (.word "OVER (" ::
    clause "PARTITION BY " (w.partitionBy.map .expr) ++
    wordIf (!w.partitionBy.isEmpty && !w.orderBy.isEmpty) " " ++
    clause "ORDER BY " (w.orderBy.map .sortKey) ++
    (whenSome w.frame fun frame =>
      wordIf (!w.partitionBy.isEmpty || !w.orderBy.isEmpty) " " ++ [.child (.windowFrame frame)]) ++
    [.word ")"])

/-- The layout of a window frame. -/
def WindowFrame.layout (f : WindowFrame) : List Piece :=
  [.mark f.unitsStart, .word f.units.text, .word " "] ++
    match f.upper with
    | some upper =>
      [.word "BETWEEN ", .child (.frameBound f.lower), .word " AND ", .child (.frameBound upper)]
    | none => [.child (.frameBound f.lower)]

/-- The layout of a sort key. -/
def SortKey.layout (k : SortKey) : List Piece :=
  .child (.expr k.expr) :: whenSome k.direction fun keyword =>
    [.word " ", .word keyword.direction.text, .mark keyword.keywordEnd]

/-! ## Queries -/

/-- The layout of a query. -/
def Query.layout (q : Query) : List Piece :=
  (whenSome q.withClause fun withClause => [.child (.withClause withClause), .word " "]) ++
    .child (.setExpr q.body) :: clause " ORDER BY " (q.orderBy.map .sortKey) ++
    whenSome q.limit fun limit => [.word " ", .child (.limit limit)]

/-- The layout of a list of common table expressions. -/
def With.layout (w : With) : List Piece :=
  [.mark w.withStart, .word "WITH "] ++ separated ", " (w.tables.toList.map .cte)

/-- The layout of a common table expression. -/
def Cte.layout (c : Cte) : List Piece :=
  [.child (.ident c.aliasName), .word " AS (", .child (.query c.query), .word ")", .mark c.closeEnd]

/-- The layout of the body of a query. -/
def SetExpr.layout : SetExpr → List Piece
  | select body =>
    [.mark body.selectStart, .word "SELECT "] ++ wordIf body.distinct "DISTINCT " ++
      separated ", " (body.projection.toList.map .selectItem) ++
      clause " FROM " (body.tables.map .tableReference) ++
      (whenSome body.selection fun selection => [.word " WHERE ", .child (.expr selection)]) ++
      clause " GROUP BY " (body.groupBy.map .expr) ++
      whenSome body.having fun having => [.word " HAVING ", .child (.expr having)]
  | parenthesized span query => enclosed span [.word "(", .child (.query query), .word ")"]
  | setOperation left op all right =>
    [.child (.setExpr left), .word " ", .word op.text] ++ wordIf all " ALL" ++
      [.word " ", .child (.setExpr right)]

/-- The layout of an item of a projection. -/
def SelectItem.layout : SelectItem → List Piece
  | unnamed expr => [.child (.expr expr)]
  | aliased expr aliasName => [.child (.expr expr), .word " AS ", .child (.ident aliasName)]
  | qualifiedWildcard qualifier starEnd =>
    [.child (.objectName qualifier), .word ".*", .mark starEnd]
  | wildcard star => token "*" ⟨star, star.advance 1⟩

/-- The layout of a limit. -/
def Limit.layout (l : Limit) : List Piece :=
  [.mark l.limitStart, .word "LIMIT "] ++
    (match l.value with
      | .all allEnd => [.word "ALL", .mark allEnd]
      | .count n => [.child (.literal n)]) ++
    whenSome l.offset fun offset => [.word " OFFSET ", .child (.literal offset)]

/-! ## Tables -/

/-- The layout of an alias, if there is one. -/
def aliasLayout (aliasName : Option Ident) : List Piece :=
  whenSome aliasName fun aliasName => [.word " AS ", .child (.ident aliasName)]

/-- The layout of a table reference. -/
def TableReference.layout : TableReference → List Piece
  | table name args aliasName hints =>
    .child (.objectName name) ::
      (whenSome args fun args =>
        Layout.parenthesized (args.args.map .expr) ++ [.mark args.closeEnd]) ++
      aliasLayout aliasName ++
      whenSome hints fun hints =>
        [.mark hints.withStart, .word " WITH "] ++
          Layout.parenthesized (hints.hints.toList.map .expr) ++ [.mark hints.closeEnd]
  | derived lateralStart openStart query closeEnd aliasName =>
    (whenSome lateralStart fun lateralStart => [.mark lateralStart, .word "LATERAL "]) ++
      [.mark openStart, .word "(", .child (.query query), .word ")", .mark closeEnd] ++
      aliasLayout aliasName
  | crossJoin left right =>
    [.child (.tableReference left), .word " CROSS JOIN ", .child (.tableReference right)]
  | qualifiedJoin left type right spec =>
    [.child (.tableReference left), .word " ", .child (.joinType type), .word " ",
      .child (.tableReference right), .word " ", .child (.joinSpec spec)]
  | naturalJoin left naturalStart type right =>
    [.child (.tableReference left), .mark naturalStart, .word " NATURAL ", .child (.joinType type),
      .word " ", .child (.tableReference right)]
  | partitioned source partitionStart columns =>
    [.child (.tableReference source), .mark partitionStart, .word " PARTITION BY "] ++
      columns.layout

/-- The layout of a join condition. -/
def JoinSpec.layout : JoinSpec → List Piece
  | condition onStart expr => [.mark onStart, .word "ON ", .child (.expr expr)]
  | sharedColumns usingStart columns => [.mark usingStart, .word "USING "] ++ columns.layout

/-! ## Statements -/

/-- The layout of an assignment. -/
def Assignment.layout (a : Assignment) : List Piece :=
  [.child (.ident a.column), .word " = ", .child (.expr a.value)]

/-- The layout of a row. -/
def Row.layout (r : Row) : List Piece :=
  enclosed r.span (parenthesized (r.values.toList.map .expr))

/-- The layout of a source of rows. -/
def InsertSource.layout : InsertSource → List Piece
  | values valuesStart rows =>
    [.mark valuesStart, .word "VALUES "] ++ separated ", " (rows.toList.map .row)
  | query q => [.child (.query q)]

/-- The layout of a condition on rows, if there is one. -/
def selectionLayout (selection : Option Expr) : List Piece :=
  whenSome selection fun selection => [.word " WHERE ", .child (.expr selection)]

/-- The layout of the name of a constraint, if it has one. -/
def ConstraintName.layout? (name : Option ConstraintName) : List Piece :=
  whenSome name fun name =>
    [.mark name.constraintStart, .word "CONSTRAINT ", .child (.ident name.name), .word " "]

/-- The layout of an element of a table. -/
def TableElement.layout : TableElement → List Piece
  | column c =>
    [.child (.ident c.name), .word " ", .child (.dataType c.type)] ++
      (whenSome c.default fun value => [.word " DEFAULT ", .child (.expr value)]) ++
      c.constraints.flatMap fun constraint => [.word " ", .child (.columnConstraint constraint)]
  | constraint c => ConstraintName.layout? c.name ++ [.child (.tableRule c.rule)]

/-- The layout of a constraint on a column. -/
def ColumnConstraint.layout (c : ColumnConstraint) : List Piece :=
  ConstraintName.layout? c.name ++ [.child (.columnRule c.rule)]

/-- The layout of a reference to another table's key. -/
def ReferenceKey.layout (k : ReferenceKey) : List Piece :=
  [.mark k.referencesStart, .word "REFERENCES ", .child (.objectName k.table)] ++
    whenSome k.columns fun columns => .word " " :: columns.layout

/-- The layout of a rule for a column. -/
def ColumnRule.layout : ColumnRule → List Piece
  | notNull span => token "NOT NULL" span
  | unique primaryKey span => token (if primaryKey then "PRIMARY KEY" else "UNIQUE") span
  | references key => key.layout
  | check span expr => enclosed span [.word "CHECK (", .child (.expr expr), .word ")"]

/-- The layout of a rule for a table. -/
def TableRule.layout : TableRule → List Piece
  | unique primaryKey keywordStart columns =>
    [.mark keywordStart, .word (if primaryKey then "PRIMARY KEY " else "UNIQUE ")] ++
      columns.layout
  | foreignKey foreignStart columns key =>
    [.mark foreignStart, .word "FOREIGN KEY "] ++ columns.layout ++
      [.word " ", .child (.referenceKey key)]
  | check span expr => enclosed span [.word "CHECK (", .child (.expr expr), .word ")"]

/-- The layout of the removal of what hangs on a thing, if it is asked for. -/
def cascadeLayout (cascadeEnd : Option Position) : List Piece :=
  whenSome cascadeEnd fun cascadeEnd => [.word " CASCADE", .mark cascadeEnd]

/-- The layout of a change to a column. -/
def ColumnChange.layout : ColumnChange → List Piece
  | setDefault setStart value => [.mark setStart, .word "SET DEFAULT ", .child (.expr value)]
  | dropDefault span => token "DROP DEFAULT" span
  | setType typeStart type => [.mark typeStart, .word "TYPE ", .child (.dataType type)]
  | setNotNull span => token "SET NOT NULL" span
  | dropNotNull span => token "DROP NOT NULL" span

/-- The layout of a change to a table. -/
def TableChange.layout : TableChange → List Piece
  | addColumn addStart column =>
    [.mark addStart, .word "ADD COLUMN ", .child (.tableElement (.column column))]
  | addConstraint addStart constraint =>
    [.mark addStart, .word "ADD ", .child (.tableElement (.constraint constraint))]
  | dropConstraint dropStart name cascadeEnd =>
    [.mark dropStart, .word "DROP CONSTRAINT ", .child (.ident name)] ++ cascadeLayout cascadeEnd
  | dropColumn dropStart name cascadeEnd =>
    [.mark dropStart, .word "DROP COLUMN ", .child (.ident name)] ++ cascadeLayout cascadeEnd
  | alterColumn alterStart column change =>
    [.mark alterStart, .word "ALTER COLUMN ", .child (.ident column), .word " ",
      .child (.columnChange change)]

/-- The layout of a statement. -/
def Statement.layout : Statement → List Piece
  | query q => q.layout
  | insert s =>
    [.mark s.insertStart, .word "INSERT INTO ", .child (.objectName s.table)] ++
      (if s.columns.isEmpty then [] else .word " " :: parenthesized (s.columns.map .ident)) ++
      [.word " ", .child (.insertSource s.source)] ++
      clause " ON DUPLICATE KEY UPDATE " (s.updates.map .assignment)
  | update s =>
    [.mark s.updateStart, .word "UPDATE ", .child (.objectName s.table), .word " SET "] ++
      separated ", " (s.assignments.toList.map .assignment) ++ selectionLayout s.selection
  | delete s =>
    [.mark s.deleteStart, .word "DELETE FROM ", .child (.objectName s.table)] ++
      selectionLayout s.selection
  | createView s =>
    [.mark s.createStart, .word "CREATE "] ++ wordIf s.materialized "MATERIALIZED " ++
      [.word "VIEW ", .child (.objectName s.name), .word " AS ", .child (.query s.query)]
  | createTable s =>
    [.mark s.createStart, .word "CREATE TABLE "] ++ wordIf s.ifNotExists "IF NOT EXISTS " ++
      [.child (.objectName s.name), .word " "] ++
      parenthesized (s.elements.toList.map .tableElement) ++ [.mark s.closeEnd] ++
      whenSome s.external fun external =>
        [.mark external.storedStart, .word " STORED AS ", .word external.format.text,
          .word " LOCATION ", .child (.literal external.location)]
  | alterTable s =>
    [.mark s.alterStart, .word "ALTER TABLE ", .child (.objectName s.table), .word " ",
      .child (.tableChange s.change)]
  | dropTable s =>
    [.mark s.dropStart, .word "DROP TABLE "] ++ wordIf s.ifExists "IF EXISTS " ++
      separated ", " (s.tables.toList.map .objectName) ++ cascadeLayout s.cascadeEnd
  | createIndex s =>
    [.mark s.createStart, .word "CREATE "] ++ wordIf s.unique "UNIQUE " ++ [.word "INDEX "] ++
      (whenSome s.name fun name => [.child (.ident name), .word " "]) ++
      [.word "ON ", .child (.objectName s.table)] ++
      (whenSome s.method fun method => [.word " USING ", .child (.ident method)]) ++
      .word " " :: s.columns.layout ++ selectionLayout s.selection
  | dropIndex s =>
    [.mark s.dropStart, .word "DROP INDEX "] ++ separated ", " (s.names.toList.map .ident)
  | explain explainStart statement =>
    [.mark explainStart, .word "EXPLAIN ", .child (.statement statement)]

/-- The layout of a script: its statements, each on a line of its own and closed by a semicolon. -/
def Script.layout (s : Script) : List Piece :=
  [.child (.statement s.statements.head), .word ";"] ++
    s.statements.tail.flatMap fun statement =>
      [.word "\n", .child (.statement statement), .word ";"]

/-- The layout of a node. -/
def Node.layout : Node → List Piece
  | expr e => e.layout
  | objectName name => ObjectName.layout name
  | operator op => token op.val.text op.span
  | dataType type => type.layout
  | windowSpec window => window.layout
  | windowFrame frame => frame.layout
  | frameBound bound => token bound.val.text bound.span
  | statement s => s.layout
  | withClause clause => clause.layout
  | cte table => table.layout
  | setExpr body => body.layout
  | selectItem item => item.layout
  | sortKey key => key.layout
  | limit l => l.layout
  | tableReference table => table.layout
  | joinType type => token type.val.text type.span
  | joinSpec spec => spec.layout
  | assignment a => a.layout
  | insertSource source => source.layout
  | row r => r.layout
  | tableElement element => element.layout
  | columnConstraint constraint => constraint.layout
  | columnRule rule => rule.layout
  | tableRule rule => rule.layout
  | tableChange change => change.layout
  | columnChange change => change.layout
  | script s => s.layout
  | comment c => token c.val c.span
  | commentGroup g => separated "\n" (g.comments.toList.map .comment)

end SqlScript
