import SqlScript.Error
import SqlScript.Source.Span

/-!
# When a comment trails a node

A comment that starts on the line on which a node stops always trails that node. A policy says how
many lines further down a comment may still trail it, and whether a blank line must then part the
comment from what follows.
-/

namespace SqlScript

/-- How far below a node a comment may stand and still belong to it. -/
structure Policy where
  /-- The number of lines below the node's last line on which a trailing comment may start. -/
  trailingLineGap : UInt32 := 1
  /-- Whether a trailing comment below the node needs a blank line behind it. -/
  requireBlankLineAfter : Bool := true
  deriving DecidableEq, Repr

namespace Policy

/-- One line below the node, with a blank line behind the comment. -/
def standard : Policy := {}

/-- A policy that allows no line below the node has nothing to say about blank lines, so it may
not waive them. -/
def isConsistent (policy : Policy) : Bool :=
  policy.trailingLineGap != 0 || policy.requireBlankLineAfter

/-- Refuses a contradictory policy. -/
def check (policy : Policy) : Except Error Unit :=
  if policy.isConsistent then .ok () else .error .contradictoryPolicy

/-- Whether a comment trails a node that stops at `nodeStop`, if the next node starts at
`next`. -/
def trails (policy : Policy) (nodeStop : Position) (comment : Span) (next : Position) : Bool :=
  if comment.start.line = nodeStop.line then true
  else if comment.start.line < nodeStop.line then false
  else if policy.trailingLineGap < comment.start.line - nodeStop.line then false
  else !policy.requireBlankLineAfter ||
    decide (saturatingAdd comment.stop.line 1 < next.line)

end Policy

end SqlScript
