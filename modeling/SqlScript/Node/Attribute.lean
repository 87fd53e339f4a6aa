import SqlScript.Node.Basic

/-!
# What a node holds itself

The attributes of a node are the data that it holds beside its children: positions, flags, names,
constants, which optional parts it has, and how long its lists are. Kind, attributes and children
together make up the node.
-/

namespace SqlScript

/-- A datum that a node holds beside its children. -/
inductive Attribute where
  | position (p : Position)
  | flag (b : Bool)
  /-- Whether an optional part is there. -/
  | present (b : Bool)
  /-- The number of elements of a list. -/
  | count (n : Nat)
  | text (s : String)
  | literal (value : LiteralValue)
  | operator (kind : OperatorKind)
  | builtin (type : BuiltinType)
  /-- A type that is an array rather than a name. -/
  | isArray (b : Bool)
  | frameUnits (units : FrameUnits)
  | frameBound (bound : FrameBoundKind)
  | setOperator (op : SetOperator)
  | sortDirection (direction : SortDirection)
  | joinKind (kind : JoinKind)
  | fileFormat (format : FileFormat)
  | comments (groups : List CommentGroup)
  deriving DecidableEq, Repr

namespace Attribute

/-- Whether two attributes are the same datum; literals are compared as constants. -/
def agrees : Attribute → Attribute → Bool
  | literal x, literal y => x.agrees y
  | x, y => x == y

/-- The two ends of a span. -/
def ofSpan (span : Span) : List Attribute :=
  [position span.start, position span.stop]

/-- A position that may be absent. -/
def ofPosition? : Option Position → List Attribute
  | some p => [present true, position p]
  | none => [present false]

/-- The length of a list. -/
def ofList (l : List α) : Attribute :=
  count l.length

/-- Whether a part is there. -/
def ofOption (o : Option α) : Attribute :=
  present o.isSome

end Attribute

open Attribute

/-- What a column list holds beside its columns. -/
def ColumnList.attributes (l : ColumnList) : List Attribute :=
  [ofList l.columns.toList, position l.closeEnd]

/-- What a data type holds itself. -/
def DataType.attributes : DataType → List Attribute
  | builtin type span => Attribute.builtin type :: ofSpan span
  | array _ span => isArray true :: ofSpan span
  | custom _ span => isArray false :: ofSpan span

/-- What an expression holds itself. -/
def Expr.attributes : Expr → List Attribute
  | ident name => text name.val :: ofSpan name.span
  | compound parts => [ofList parts.toList]
  | wildcard star => [position star]
  | qualifiedWildcard _ starEnd => [position starEnd]
  | literal value => Attribute.literal value.val :: ofSpan value.span
  | binary _ _ _ => []
  | unary _ _ => []
  | isNull _ negated nullEnd => [flag negated, position nullEnd]
  | inList _ items negated closeEnd => [ofList items.toList, flag negated, position closeEnd]
  | inSubquery _ _ negated closeEnd => [flag negated, position closeEnd]
  | between _ negated _ _ => [flag negated]
  | cast span _ _ => ofSpan span
  | nested span _ => ofSpan span
  | function _ distinct args closeEnd window =>
    [flag distinct, ofList args, position closeEnd, ofOption window]
  | caseWhen span operand branches otherwise =>
    ofSpan span ++ [ofOption operand, ofList branches.toList, ofOption otherwise]
  | existsQuery notStart existsStart _ closeEnd =>
    ofPosition? notStart ++ [position existsStart, position closeEnd]
  | subquery span _ => ofSpan span

/-- What a window holds itself. -/
def WindowSpec.attributes (w : WindowSpec) : List Attribute :=
  ofSpan w.span ++ [ofList w.partitionBy, ofList w.orderBy, ofOption w.frame]

/-- What a window frame holds itself. -/
def WindowFrame.attributes (f : WindowFrame) : List Attribute :=
  [frameUnits f.units, position f.unitsStart, ofOption f.upper]

/-- What a sort key holds itself. -/
def SortKey.attributes (k : SortKey) : List Attribute :=
  match k.direction with
  | some keyword =>
    [present true, sortDirection keyword.direction, position keyword.keywordEnd]
  | none => [present false]

/-- What a query holds itself. -/
def Query.attributes (q : Query) : List Attribute :=
  [ofOption q.withClause, ofList q.orderBy, ofOption q.limit]

/-- What the body of a query holds itself. -/
def SetExpr.attributes : SetExpr → List Attribute
  | select body =>
    [position body.selectStart, flag body.distinct, ofList body.projection.toList,
      ofList body.tables, ofOption body.selection, ofList body.groupBy, ofOption body.having]
  | parenthesized span _ => ofSpan span
  | setOperation _ op all _ => [setOperator op, flag all]

/-- What an item of a projection holds itself. -/
def SelectItem.attributes : SelectItem → List Attribute
  | unnamed _ => []
  | aliased _ _ => []
  | qualifiedWildcard _ starEnd => [position starEnd]
  | wildcard star => [position star]

/-- What a limit holds itself. -/
def Limit.attributes (l : Limit) : List Attribute :=
  position l.limitStart ::
    (match l.value with
      | .all allEnd => ofPosition? (some allEnd)
      | .count _ => ofPosition? none) ++
    [ofOption l.offset]

/-- What the arguments of a table hold beside them. -/
def TableArgs.attributes? : Option TableArgs → List Attribute
  | some args => [present true, ofList args.args, position args.closeEnd]
  | none => [present false]

/-- What the hints of a table hold beside them. -/
def TableHints.attributes? : Option TableHints → List Attribute
  | some hints =>
    [present true, position hints.withStart, ofList hints.hints.toList, position hints.closeEnd]
  | none => [present false]

/-- What a table reference holds itself. -/
def TableReference.attributes : TableReference → List Attribute
  | table _ args aliasName hints =>
    TableArgs.attributes? args ++ ofOption aliasName :: TableHints.attributes? hints
  | derived lateralStart openStart _ closeEnd aliasName =>
    ofPosition? lateralStart ++ [position openStart, position closeEnd, ofOption aliasName]
  | crossJoin _ _ => []
  | qualifiedJoin _ _ _ _ => []
  | naturalJoin _ naturalStart _ _ => [position naturalStart]
  | partitioned _ partitionStart columns => position partitionStart :: columns.attributes

/-- What a join condition holds itself. -/
def JoinSpec.attributes : JoinSpec → List Attribute
  | condition onStart _ => [position onStart]
  | sharedColumns usingStart columns => position usingStart :: columns.attributes

/-- What a source of rows holds itself. -/
def InsertSource.attributes : InsertSource → List Attribute
  | values valuesStart rows => [position valuesStart, ofList rows.toList]
  | query _ => []

/-- What the name of a constraint holds beside it. -/
def ConstraintName.attributes? : Option ConstraintName → List Attribute
  | some name => [present true, position name.constraintStart]
  | none => [present false]

/-- What an element of a table holds itself. -/
def TableElement.attributes : TableElement → List Attribute
  | column c => [ofOption c.default, ofList c.constraints]
  | constraint c => ConstraintName.attributes? c.name

/-- What a rule for a column holds itself. -/
def ColumnRule.attributes : ColumnRule → List Attribute
  | notNull span => ofSpan span
  | unique primaryKey span => flag primaryKey :: ofSpan span
  | references key =>
    position key.referencesStart ::
      match key.columns with
      | some columns => present true :: columns.attributes
      | none => [present false]
  | check span _ => ofSpan span

/-- What a rule for a table holds itself. -/
def TableRule.attributes : TableRule → List Attribute
  | unique primaryKey keywordStart columns =>
    flag primaryKey :: position keywordStart :: columns.attributes
  | foreignKey foreignStart columns _ => position foreignStart :: columns.attributes
  | check span _ => ofSpan span

/-- What a change to a table holds itself. -/
def TableChange.attributes : TableChange → List Attribute
  | addColumn addStart _ => [position addStart]
  | addConstraint addStart _ => [position addStart]
  | dropConstraint dropStart _ cascadeEnd => position dropStart :: ofPosition? cascadeEnd
  | dropColumn dropStart _ cascadeEnd => position dropStart :: ofPosition? cascadeEnd
  | alterColumn alterStart _ _ => [position alterStart]

/-- What a change to a column holds itself. -/
def ColumnChange.attributes : ColumnChange → List Attribute
  | setDefault setStart _ => [position setStart]
  | dropDefault span => ofSpan span
  | setType typeStart _ => [position typeStart]
  | setNotNull span => ofSpan span
  | dropNotNull span => ofSpan span

/-- What a statement holds itself. -/
def Statement.attributes : Statement → List Attribute
  | query q => q.attributes
  | insert s => [position s.insertStart, ofList s.columns, ofList s.updates]
  | update s => [position s.updateStart, ofList s.assignments.toList, ofOption s.selection]
  | delete s => [position s.deleteStart, ofOption s.selection]
  | createView s => [position s.createStart, flag s.materialized]
  | createTable s =>
    [position s.createStart, flag s.ifNotExists, ofList s.elements.toList, position s.closeEnd] ++
      match s.external with
      | some external =>
        [present true, position external.storedStart, fileFormat external.format]
      | none => [present false]
  | alterTable s => [position s.alterStart]
  | dropTable s =>
    [position s.dropStart, flag s.ifExists, ofList s.tables.toList] ++ ofPosition? s.cascadeEnd
  | createIndex s =>
    [position s.createStart, flag s.unique, ofOption s.name, ofOption s.method] ++
      s.columns.attributes ++ [ofOption s.selection]
  | dropIndex s => [position s.dropStart, ofList s.names.toList]
  | explain explainStart _ => [position explainStart]

/-- What a node holds beside its children. -/
def Node.attributes : Node → List Attribute
  | expr e => e.attributes
  | objectName name => [ofList name.toList]
  | operator op => Attribute.operator op.val :: ofSpan op.span
  | dataType type => type.attributes
  | windowSpec window => window.attributes
  | windowFrame frame => frame.attributes
  | frameBound bound => Attribute.frameBound bound.val :: ofSpan bound.span
  | statement s => s.attributes
  | withClause clause => [position clause.withStart, ofList clause.tables.toList]
  | cte table => [position table.closeEnd]
  | setExpr body => body.attributes
  | selectItem item => item.attributes
  | sortKey key => key.attributes
  | limit l => l.attributes
  | tableReference table => table.attributes
  | joinType type => Attribute.joinKind type.val :: ofSpan type.span
  | joinSpec spec => spec.attributes
  | assignment _ => []
  | insertSource source => source.attributes
  | row r => ofList r.values.toList :: ofSpan r.span
  | tableElement element => element.attributes
  | columnConstraint constraint => ConstraintName.attributes? constraint.name
  | columnRule rule => rule.attributes
  | tableRule rule => rule.attributes
  | tableChange change => change.attributes
  | columnChange change => change.attributes
  | script s => [ofList s.statements.toList, comments s.comments]
  | comment c => text c.val :: ofSpan c.span
  | commentGroup g => [ofList g.comments.toList]

end SqlScript
