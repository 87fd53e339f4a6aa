import SqlScript.Tree.TableDefinition

/-!
# Statements

Queries, changes to rows, and definitions of tables, views and indexes.
-/

namespace SqlScript

/-- A new value for a column. -/
structure Assignment where
  column : Ident
  value : Expr

/-- The values of one row. -/
structure Row where
  span : Span
  values : NonEmptyList Expr

/-- Where inserted rows come from. -/
inductive InsertSource where
  | values (valuesStart : Position) (rows : NonEmptyList Row)
  | query (q : Query)

/-- Where a source of rows starts. -/
def InsertSource.start : InsertSource → Position
  | values valuesStart _ => valuesStart
  | query q => q.start

/-- Where a source of rows stops. -/
def InsertSource.stop : InsertSource → Position
  | values _ rows => rows.last.span.stop
  | query q => q.stop

/-- Inserts rows into a table, or updates those that are there. -/
structure Insert where
  insertStart : Position
  table : ObjectName
  columns : List Ident
  source : InsertSource
  updates : List Assignment

/-- Changes rows of a table. -/
structure Update where
  updateStart : Position
  table : ObjectName
  assignments : NonEmptyList Assignment
  selection : Option Expr

/-- Deletes rows of a table. -/
structure Delete where
  deleteStart : Position
  table : ObjectName
  selection : Option Expr

/-- Gives a query a name of its own. -/
structure CreateView where
  createStart : Position
  materialized : Bool
  name : ObjectName
  query : Query

/-- Defines a table. -/
structure CreateTable where
  createStart : Position
  ifNotExists : Bool
  name : ObjectName
  elements : NonEmptyList TableElement
  closeEnd : Position
  external : Option ExternalStorage

/-- Changes the definition of a table. -/
structure AlterTable where
  alterStart : Position
  table : ObjectName
  change : TableChange

/-- Removes tables. -/
structure DropTable where
  dropStart : Position
  ifExists : Bool
  tables : NonEmptyList ObjectName
  cascadeEnd : Option Position

/-- Defines an index. -/
structure CreateIndex where
  createStart : Position
  unique : Bool
  name : Option Ident
  table : ObjectName
  method : Option Ident
  columns : ColumnList
  selection : Option Expr

/-- Removes indexes. -/
structure DropIndex where
  dropStart : Position
  names : NonEmptyList Ident

/-- A statement. -/
inductive Statement where
  | query (q : Query)
  | insert (s : Insert)
  | update (s : Update)
  | delete (s : Delete)
  | createView (s : CreateView)
  | createTable (s : CreateTable)
  | alterTable (s : AlterTable)
  | dropTable (s : DropTable)
  | createIndex (s : CreateIndex)
  | dropIndex (s : DropIndex)
  /-- Asks how another statement would be run. -/
  | explain (explainStart : Position) (statement : Statement)

/-! ## Extents -/

/-- Where an insertion stops: with its last update, or with its source. -/
def Insert.stop (s : Insert) : Position :=
  match s.updates.getLast? with
  | some update => update.value.stop
  | none => s.source.stop

/-- Where an update stops: with its condition, or with its last assignment. -/
def Update.stop (s : Update) : Position :=
  match s.selection with
  | some selection => selection.stop
  | none => s.assignments.last.value.stop

/-- Where a deletion stops: with its condition, or with the table's name. -/
def Delete.stop (s : Delete) : Position :=
  match s.selection with
  | some selection => selection.stop
  | none => ObjectName.stop s.table

/-- Where the definition of a table stops: with its storage, or behind its elements. -/
def CreateTable.stop (s : CreateTable) : Position :=
  match s.external with
  | some external => external.location.span.stop
  | none => s.closeEnd

/-- Where the removal of tables stops. -/
def DropTable.stop (s : DropTable) : Position :=
  s.cascadeEnd.getD (ObjectName.stop s.tables.last)

/-- Where the definition of an index stops: with its condition, or behind its columns. -/
def CreateIndex.stop (s : CreateIndex) : Position :=
  match s.selection with
  | some selection => selection.stop
  | none => s.columns.closeEnd

namespace Statement

/-- Where a statement starts. -/
def start : Statement → Position
  | query q => q.start
  | insert s => s.insertStart
  | update s => s.updateStart
  | delete s => s.deleteStart
  | createView s => s.createStart
  | createTable s => s.createStart
  | alterTable s => s.alterStart
  | dropTable s => s.dropStart
  | createIndex s => s.createStart
  | dropIndex s => s.dropStart
  | explain explainStart _ => explainStart

/-- Where a statement stops. -/
def stop : Statement → Position
  | query q => q.stop
  | insert s => s.stop
  | update s => s.stop
  | delete s => s.stop
  | createView s => s.query.stop
  | createTable s => s.stop
  | alterTable s => s.change.stop
  | dropTable s => s.stop
  | createIndex s => s.stop
  | dropIndex s => s.names.last.span.stop
  | explain _ statement => statement.stop

end Statement

end SqlScript
