import SqlScript.Tree.Extent
import SqlScript.Tree.FileFormat

/-!
# Definitions of tables

Columns, constraints on columns and on tables, and where an external table is stored.
-/

namespace SqlScript

/-- The name of a constraint, with the keyword in front of it. -/
structure ConstraintName where
  constraintStart : Position
  name : Ident
  deriving DecidableEq, Repr

/-- The key of another table that a column or a table refers to. -/
structure ReferenceKey where
  referencesStart : Position
  table : ObjectName
  columns : Option ColumnList
  deriving DecidableEq, Repr

/-- Where a reference stops: with its columns, or with the table's name. -/
def ReferenceKey.stop (k : ReferenceKey) : Position :=
  match k.columns with
  | some columns => columns.closeEnd
  | none => ObjectName.stop k.table

/-- What a constraint asks of a column. -/
inductive ColumnRule where
  | notNull (span : Span)
  | unique (primaryKey : Bool) (span : Span)
  | references (key : ReferenceKey)
  | check (span : Span) (expr : Expr)

/-- Where a rule for a column starts. -/
def ColumnRule.start : ColumnRule → Position
  | notNull span => span.start
  | unique _ span => span.start
  | references key => key.referencesStart
  | check span _ => span.start

/-- Where a rule for a column stops. -/
def ColumnRule.stop : ColumnRule → Position
  | notNull span => span.stop
  | unique _ span => span.stop
  | references key => key.stop
  | check span _ => span.stop

/-- A constraint on a column. -/
structure ColumnConstraint where
  name : Option ConstraintName
  rule : ColumnRule

/-- Where a constraint on a column starts: with its name, if it has one. -/
def ColumnConstraint.start (c : ColumnConstraint) : Position :=
  match c.name with
  | some name => name.constraintStart
  | none => c.rule.start

/-- A column of a table. -/
structure ColumnDef where
  name : Ident
  type : DataType
  default : Option Expr
  constraints : List ColumnConstraint

/-- Where a column stops: with its last constraint, else with its default, else with its type. -/
def ColumnDef.stop (c : ColumnDef) : Position :=
  match c.constraints.getLast?, c.default with
  | some constraint, _ => constraint.rule.stop
  | none, some default => default.stop
  | none, none => c.type.stop

/-- What a constraint asks of a table. -/
inductive TableRule where
  | unique (primaryKey : Bool) (keywordStart : Position) (columns : ColumnList)
  | foreignKey (foreignStart : Position) (columns : ColumnList) (key : ReferenceKey)
  | check (span : Span) (expr : Expr)

/-- Where a rule for a table starts. -/
def TableRule.start : TableRule → Position
  | unique _ keywordStart _ => keywordStart
  | foreignKey foreignStart _ _ => foreignStart
  | check span _ => span.start

/-- Where a rule for a table stops. -/
def TableRule.stop : TableRule → Position
  | unique _ _ columns => columns.closeEnd
  | foreignKey _ _ key => key.stop
  | check span _ => span.stop

/-- A constraint on a table. -/
structure TableConstraint where
  name : Option ConstraintName
  rule : TableRule

/-- Where a constraint on a table starts: with its name, if it has one. -/
def TableConstraint.start (c : TableConstraint) : Position :=
  match c.name with
  | some name => name.constraintStart
  | none => c.rule.start

/-- An element of a table's definition. -/
inductive TableElement where
  | column (definition : ColumnDef)
  | constraint (definition : TableConstraint)

/-- Where an element of a table starts. -/
def TableElement.start : TableElement → Position
  | column c => c.name.span.start
  | constraint c => c.start

/-- Where an element of a table stops. -/
def TableElement.stop : TableElement → Position
  | column c => c.stop
  | constraint c => c.rule.stop

/-- Where and how the rows of an external table are stored. -/
structure ExternalStorage where
  storedStart : Position
  format : FileFormat
  location : Literal
  deriving DecidableEq, Repr

/-! ## Changes to a table -/

/-- A change to one column. -/
inductive ColumnChange where
  | setDefault (setStart : Position) (value : Expr)
  | dropDefault (span : Span)
  | setType (typeStart : Position) (type : DataType)
  | setNotNull (span : Span)
  | dropNotNull (span : Span)

/-- Where a change to a column starts. -/
def ColumnChange.start : ColumnChange → Position
  | setDefault setStart _ => setStart
  | dropDefault span => span.start
  | setType typeStart _ => typeStart
  | setNotNull span => span.start
  | dropNotNull span => span.start

/-- Where a change to a column stops. -/
def ColumnChange.stop : ColumnChange → Position
  | setDefault _ value => value.stop
  | dropDefault span => span.stop
  | setType _ type => type.stop
  | setNotNull span => span.stop
  | dropNotNull span => span.stop

/-- A change to a table. -/
inductive TableChange where
  | addColumn (addStart : Position) (column : ColumnDef)
  | addConstraint (addStart : Position) (constraint : TableConstraint)
  | dropConstraint (dropStart : Position) (name : Ident) (cascadeEnd : Option Position)
  | dropColumn (dropStart : Position) (name : Ident) (cascadeEnd : Option Position)
  | alterColumn (alterStart : Position) (column : Ident) (change : ColumnChange)

/-- Where a change to a table starts. -/
def TableChange.start : TableChange → Position
  | addColumn addStart _ => addStart
  | addConstraint addStart _ => addStart
  | dropConstraint dropStart _ _ => dropStart
  | dropColumn dropStart _ _ => dropStart
  | alterColumn alterStart _ _ => alterStart

/-- Where a change to a table stops. -/
def TableChange.stop : TableChange → Position
  | addColumn _ column => column.stop
  | addConstraint _ constraint => constraint.rule.stop
  | dropConstraint _ name cascadeEnd => cascadeEnd.getD name.span.stop
  | dropColumn _ name cascadeEnd => cascadeEnd.getD name.span.stop
  | alterColumn _ _ change => change.stop

end SqlScript
