import SqlScript.Tree.DataType
import SqlScript.Tree.Literal
import SqlScript.Tree.Operator

/-!
# Expressions and queries

Expressions hold subqueries and queries hold expressions, so both are declared together with the
parts of a query. A field `…Start` is where a keyword or an opening parenthesis starts, a field
`…End` is the place behind a token that closes something. Where a construct has both, they are
one `span`. What can be found from the children is not stored.
-/

namespace SqlScript

/-! ## Parts without expressions -/

/-- What the rows of a window frame are counted in. -/
inductive FrameUnits where
  | rows
  | range
  | groups
  deriving DecidableEq, Repr

/-- The keyword of a frame unit. -/
def FrameUnits.text : FrameUnits → String
  | rows => "ROWS"
  | range => "RANGE"
  | groups => "GROUPS"

/-- One end of a window frame; a distance that is absent is unbounded. -/
inductive FrameBoundKind where
  | currentRow
  | preceding (distance : Option UInt64)
  | following (distance : Option UInt64)
  deriving DecidableEq, Repr

/-- The text of a frame bound. -/
def FrameBoundKind.text : FrameBoundKind → String
  | currentRow => "CURRENT ROW"
  | preceding none => "UNBOUNDED PRECEDING"
  | preceding (some n) => Decimal.ofNat n.toNat ++ " PRECEDING"
  | following none => "UNBOUNDED FOLLOWING"
  | following (some n) => Decimal.ofNat n.toNat ++ " FOLLOWING"

/-- A frame bound where it stands in the source. -/
abbrev FrameBound := Token FrameBoundKind

/-- The rows around the current one that a window function sees. -/
structure WindowFrame where
  units : FrameUnits
  unitsStart : Position
  lower : FrameBound
  upper : Option FrameBound
  deriving DecidableEq, Repr

/-- The operators that combine two queries. -/
inductive SetOperator where
  | union
  | except
  | intersect
  deriving DecidableEq, Repr

/-- The keyword of a set operator. -/
def SetOperator.text : SetOperator → String
  | union => "UNION"
  | except => "EXCEPT"
  | intersect => "INTERSECT"

/-- The two directions of sorting. -/
inductive SortDirection where
  | ascending
  | descending
  deriving DecidableEq, Repr

/-- The keyword of a sort direction. -/
def SortDirection.text : SortDirection → String
  | ascending => "ASC"
  | descending => "DESC"

/-- A sort direction that was written out, with the position behind its keyword. -/
structure SortKeyword where
  direction : SortDirection
  keywordEnd : Position
  deriving DecidableEq, Repr

/-- How many rows a query may return. -/
inductive LimitValue where
  | all (allEnd : Position)
  | count (n : Literal)
  deriving DecidableEq, Repr

/-- The limit of a query, and how many rows it leaves out first. -/
structure Limit where
  limitStart : Position
  value : LimitValue
  offset : Option Literal
  deriving DecidableEq, Repr

/-- The ways to join two tables. -/
inductive JoinKind where
  | implicit
  | inner
  | left
  | leftOuter
  | right
  | rightOuter
  | full
  | fullOuter
  deriving DecidableEq, Repr

/-- The keywords of a join. -/
def JoinKind.text : JoinKind → String
  | implicit => "JOIN"
  | inner => "INNER JOIN"
  | left => "LEFT JOIN"
  | leftOuter => "LEFT OUTER JOIN"
  | right => "RIGHT JOIN"
  | rightOuter => "RIGHT OUTER JOIN"
  | full => "FULL JOIN"
  | fullOuter => "FULL OUTER JOIN"

/-- The keywords of a join where they stand in the source. -/
abbrev JoinType := Token JoinKind

/-! ## Parts with expressions -/

mutual

/-- An expression. -/
inductive Expr where
  | ident (name : Ident)
  /-- A column with its table, schema, … in front. -/
  | compound (parts : NonEmptyList Ident)
  | wildcard (star : Position)
  | qualifiedWildcard (qualifier : ObjectName) (starEnd : Position)
  | literal (value : Literal)
  | binary (left : Expr) (op : Operator) (right : Expr)
  | unary (op : Operator) (operand : Expr)
  | isNull (operand : Expr) (negated : Bool) (nullEnd : Position)
  | inList (operand : Expr) (items : NonEmptyList Expr) (negated : Bool) (closeEnd : Position)
  | inSubquery (operand : Expr) (query : Query) (negated : Bool) (closeEnd : Position)
  | between (operand : Expr) (negated : Bool) (low high : Expr)
  | cast (span : Span) (operand : Expr) (type : DataType)
  /-- An expression between parentheses. -/
  | nested (span : Span) (inner : Expr)
  | function (name : ObjectName) (distinct : Bool) (args : List Expr) (closeEnd : Position)
      (window : Option WindowSpec)
  | caseWhen (span : Span) (operand : Option Expr) (branches : NonEmptyList (Expr × Expr))
      (otherwise : Option Expr)
  | existsQuery (notStart : Option Position) (existsStart : Position) (query : Query)
      (closeEnd : Position)
  | subquery (span : Span) (query : Query)

/-- The window of a window function. -/
structure WindowSpec where
  span : Span
  partitionBy : List Expr
  orderBy : List SortKey
  frame : Option WindowFrame

/-- An expression to sort by. -/
structure SortKey where
  expr : Expr
  direction : Option SortKeyword

/-- A query with its common table expressions, its order and its limit. -/
structure Query where
  withClause : Option With
  body : SetExpr
  orderBy : List SortKey
  limit : Option Limit

/-- The common table expressions of a query. -/
structure With where
  withStart : Position
  tables : NonEmptyList Cte

/-- A query that is given a name for the rest of the statement. -/
structure Cte where
  aliasName : Ident
  query : Query
  closeEnd : Position

/-- The body of a query. -/
inductive SetExpr where
  | select (body : Select)
  | parenthesized (span : Span) (query : Query)
  | setOperation (left : SetExpr) (op : SetOperator) (all : Bool) (right : SetExpr)

/-- One `SELECT` with its clauses. -/
structure Select where
  selectStart : Position
  distinct : Bool
  projection : NonEmptyList SelectItem
  tables : List TableReference
  selection : Option Expr
  groupBy : List Expr
  having : Option Expr

/-- One item of a projection. -/
inductive SelectItem where
  | unnamed (expr : Expr)
  | aliased (expr : Expr) (aliasName : Ident)
  | qualifiedWildcard (qualifier : ObjectName) (starEnd : Position)
  | wildcard (star : Position)

/-- Something that rows can be taken from. -/
inductive TableReference where
  | table (name : ObjectName) (args : Option TableArgs) (aliasName : Option Ident)
      (hints : Option TableHints)
  | derived (lateralStart : Option Position) (openStart : Position) (query : Query)
      (closeEnd : Position) (aliasName : Option Ident)
  | crossJoin (left right : TableReference)
  | qualifiedJoin (left : TableReference) (type : JoinType) (right : TableReference)
      (spec : JoinSpec)
  | naturalJoin (left : TableReference) (naturalStart : Position) (type : JoinType)
      (right : TableReference)
  | partitioned (source : TableReference) (partitionStart : Position) (columns : ColumnList)

/-- The arguments of a table function. -/
structure TableArgs where
  args : List Expr
  closeEnd : Position

/-- Hints to the query planner. -/
structure TableHints where
  withStart : Position
  hints : NonEmptyList Expr
  closeEnd : Position

/-- How the rows of two joined tables are matched. -/
inductive JoinSpec where
  | condition (onStart : Position) (expr : Expr)
  | sharedColumns (usingStart : Position) (columns : ColumnList)

end

/-- A compound identifier has at least one part. -/
def Expr.ofParts (parts : List Ident) : Except Error Expr :=
  (NonEmptyList.ofList "compound identifier" parts).map Expr.compound

/-- A projection has at least one item. -/
def Select.projectionOf (items : List SelectItem) : Except Error (NonEmptyList SelectItem) :=
  NonEmptyList.ofList "projection" items

end SqlScript
