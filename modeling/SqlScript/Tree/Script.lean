import SqlScript.Tree.Statement

/-!
# Scripts and their comments

A script is a list of statements together with the comments found between and inside them. Comments
that follow each other with no code between them form a group. The groups of a script are in source
order: none starts before the one in front of it stops.
-/

namespace SqlScript

/-- A comment, with its markers. -/
abbrev Comment := Token String

/-- Comments with no code between them. -/
structure CommentGroup where
  comments : NonEmptyList Comment
  deriving DecidableEq, Repr

namespace CommentGroup

/-- A comment group has at least one comment. -/
def ofComments (comments : List Comment) : Except Error CommentGroup :=
  (NonEmptyList.ofList "comment group" comments).map mk

/-- Where a group starts. -/
def start (g : CommentGroup) : Position :=
  g.comments.head.span.start

/-- Where a group stops. -/
def stop (g : CommentGroup) : Position :=
  g.comments.last.span.stop

/-- The stretch of source text from the first comment to the last. -/
def span (g : CommentGroup) : Span :=
  ⟨g.start, g.stop⟩

/-- The first two neighbours of which the second starts before the first stops. -/
def firstDisorder? : List CommentGroup → Option (CommentGroup × CommentGroup)
  | a :: b :: rest => if b.start < a.stop then some (a, b) else firstDisorder? (b :: rest)
  | _ => none

end CommentGroup

/-- Statements and comments, each in source order. -/
structure Script where
  statements : NonEmptyList Statement
  comments : List CommentGroup
  comments_ordered : CommentGroup.firstDisorder? comments = none

namespace Script

/-- A script needs its comments in order and at least one statement; disorder is reported first. -/
def ofParts (statements : List Statement) (comments : List CommentGroup) : Except Error Script :=
  match h : CommentGroup.firstDisorder? comments with
  | some (a, b) => .error (.unorderedComments b.start a.stop)
  | none =>
    match NonEmptyList.ofList "statement" statements with
    | .ok statements => .ok ⟨statements, comments, h⟩
    | .error e => .error e

/-- Where a script starts: with its first statement or comment, whichever is earlier. -/
def start (s : Script) : Position :=
  match s.comments.head? with
  | some group => min s.statements.head.start group.start
  | none => s.statements.head.start

/-- Where a script stops: with its last statement or comment, whichever is later. -/
def stop (s : Script) : Position :=
  match s.comments.getLast? with
  | some group => max s.statements.last.stop group.stop
  | none => s.statements.last.stop

end Script

end SqlScript
