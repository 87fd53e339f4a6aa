import SqlScript.Tree.Query

/-!
# Where expressions and queries start and stop

A construct starts with the keyword that opens it, or with its first child. It stops with the last
clause that is present: each rule below asks for the last clause first.
-/

namespace SqlScript

/-! ## Parts without expressions -/

/-- Where a frame stops: with its upper bound, or with its only one. -/
def WindowFrame.stop (f : WindowFrame) : Position :=
  match f.upper with
  | some upper => upper.span.stop
  | none => f.lower.span.stop

/-- Where a limit stops: with the offset, or with the number of rows. -/
def Limit.stop (l : Limit) : Position :=
  match l.offset, l.value with
  | some offset, _ => offset.span.stop
  | none, .count n => n.span.stop
  | none, .all allEnd => allEnd

/-! ## Expressions -/

namespace Expr

/-- Where an expression starts. -/
def start : Expr → Position
  | ident name => name.span.start
  | compound parts => parts.head.span.start
  | wildcard star => star
  | qualifiedWildcard qualifier _ => ObjectName.start qualifier
  | literal value => value.span.start
  | binary left _ _ => left.start
  | unary op _ => op.span.start
  | isNull operand _ _ => operand.start
  | inList operand _ _ _ => operand.start
  | inSubquery operand _ _ _ => operand.start
  | between operand _ _ _ => operand.start
  | cast span _ _ => span.start
  | nested span _ => span.start
  | function name _ _ _ _ => ObjectName.start name
  | caseWhen span _ _ _ => span.start
  | existsQuery notStart existsStart _ _ => notStart.getD existsStart
  | subquery span _ => span.start

/-- Where an expression stops. -/
def stop : Expr → Position
  | ident name => name.span.stop
  | compound parts => parts.last.span.stop
  | wildcard star => star.advance 1
  | qualifiedWildcard _ starEnd => starEnd
  | literal value => value.span.stop
  | binary _ _ right => right.stop
  | unary _ operand => operand.stop
  | isNull _ _ nullEnd => nullEnd
  | inList _ _ _ closeEnd => closeEnd
  | inSubquery _ _ _ closeEnd => closeEnd
  | between _ _ _ high => high.stop
  | cast span _ _ => span.stop
  | nested span _ => span.stop
  | function _ _ _ closeEnd window =>
    match window with
    | some window => window.span.stop
    | none => closeEnd
  | caseWhen span _ _ _ => span.stop
  | existsQuery _ _ _ closeEnd => closeEnd
  | subquery span _ => span.stop

end Expr

/-- Where a sort key stops: with its direction, if one is written. -/
def SortKey.stop (k : SortKey) : Position :=
  match k.direction with
  | some keyword => keyword.keywordEnd
  | none => k.expr.stop

/-! ## Tables -/

/-- Where a join condition starts. -/
def JoinSpec.start : JoinSpec → Position
  | condition onStart _ => onStart
  | sharedColumns usingStart _ => usingStart

/-- Where a join condition stops. -/
def JoinSpec.stop : JoinSpec → Position
  | condition _ expr => expr.stop
  | sharedColumns _ columns => columns.closeEnd

namespace TableReference

/-- Where a table reference starts. -/
def start : TableReference → Position
  | table name _ _ _ => ObjectName.start name
  | derived lateralStart openStart _ _ _ => lateralStart.getD openStart
  | crossJoin left _ => left.start
  | qualifiedJoin left _ _ _ => left.start
  | naturalJoin left _ _ _ => left.start
  | partitioned source _ _ => source.start

/-- Where a table reference stops. -/
def stop : TableReference → Position
  | table name args aliasName hints =>
    match hints, aliasName, args with
    | some hints, _, _ => hints.closeEnd
    | none, some aliasName, _ => aliasName.span.stop
    | none, none, some args => args.closeEnd
    | none, none, none => ObjectName.stop name
  | derived _ _ _ closeEnd aliasName =>
    match aliasName with
    | some aliasName => aliasName.span.stop
    | none => closeEnd
  | crossJoin _ right => right.stop
  | qualifiedJoin _ _ _ spec => spec.stop
  | naturalJoin _ _ _ right => right.stop
  | partitioned _ _ columns => columns.closeEnd

end TableReference

/-! ## Queries -/

/-- Where an item of a projection starts. -/
def SelectItem.start : SelectItem → Position
  | unnamed expr => expr.start
  | aliased expr _ => expr.start
  | qualifiedWildcard qualifier _ => ObjectName.start qualifier
  | wildcard star => star

/-- Where an item of a projection stops. -/
def SelectItem.stop : SelectItem → Position
  | unnamed expr => expr.stop
  | aliased _ aliasName => aliasName.span.stop
  | qualifiedWildcard _ starEnd => starEnd
  | wildcard star => star.advance 1

/-- Where a `SELECT` stops: with the last clause that is present. -/
def Select.stop (s : Select) : Position :=
  match s.having, s.groupBy.getLast?, s.selection, s.tables.getLast? with
  | some having, _, _, _ => having.stop
  | none, some key, _, _ => key.stop
  | none, none, some selection, _ => selection.stop
  | none, none, none, some table => table.stop
  | none, none, none, none => s.projection.last.stop

/-- Where the body of a query starts. -/
def SetExpr.start : SetExpr → Position
  | select body => body.selectStart
  | parenthesized span _ => span.start
  | setOperation left _ _ _ => left.start

/-- Where the body of a query stops. -/
def SetExpr.stop : SetExpr → Position
  | select body => body.stop
  | parenthesized span _ => span.stop
  | setOperation _ _ _ right => right.stop

/-- Where a list of common table expressions stops. -/
def With.stop (w : With) : Position :=
  w.tables.last.closeEnd

/-- Where a query starts: with its common table expressions, if it has any. -/
def Query.start (q : Query) : Position :=
  match q.withClause with
  | some withClause => withClause.withStart
  | none => q.body.start

/-- Where a query stops: with its limit, else with its order, else with its body. -/
def Query.stop (q : Query) : Position :=
  match q.limit, q.orderBy.getLast? with
  | some limit, _ => limit.stop
  | none, some key => key.stop
  | none, none => q.body.stop

end SqlScript
