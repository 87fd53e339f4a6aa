import SqlScript.Source.Span
import SqlScript.NonEmptyList

/-!
# Tokens and names

A token is a value that was read from one stretch of source text: an identifier, an operator, a
literal, a comment. Object names are identifiers joined by points.
-/

namespace SqlScript

/-- A value and the stretch of source text it was read from. -/
structure Token (α : Type u) where
  val : α
  span : Span
  deriving DecidableEq, Repr

/-- An identifier, spelled as in the source. -/
abbrev Ident := Token String

/-- The name of a table, view, function or type: identifiers joined by points. -/
abbrev ObjectName := NonEmptyList Ident

namespace ObjectName

/-- An object name has at least one part. -/
def ofParts (parts : List Ident) : Except Error ObjectName :=
  NonEmptyList.ofList "object name" parts

/-- Where a name starts. -/
def start (name : ObjectName) : Position :=
  name.head.span.start

/-- Where a name stops. -/
def stop (name : ObjectName) : Position :=
  name.last.span.stop

end ObjectName

/-- Column names between parentheses, with the position behind the closing one. -/
structure ColumnList where
  columns : NonEmptyList Ident
  closeEnd : Position
  deriving DecidableEq, Repr

end SqlScript
