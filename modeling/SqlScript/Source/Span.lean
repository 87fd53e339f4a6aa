import SqlScript.Source.Position

/-!
# Stretches of source text

A span runs from its start up to, and not including, its stop. Nothing forces the stop to lie
behind the start.
-/

namespace SqlScript

/-- A stretch of source text, from a start up to a stop. -/
structure Span where
  start : Position
  stop : Position
  deriving DecidableEq, Repr, Inhabited

namespace Span

/-- The earlier start with the later stop. -/
def merge (a b : Span) : Span :=
  ⟨min a.start b.start, max a.stop b.stop⟩

/-- Whether a span neither starts after nor stops before another. -/
def contains (a b : Span) : Bool :=
  decide (a.start ≤ b.start) && decide (b.stop ≤ a.stop)

/-- Whether a span stops where it starts. -/
def isEmpty (a : Span) : Bool :=
  a.start == a.stop

/-- The text of a span: its two ends with two dots between them. -/
def text (a : Span) : String :=
  a.start.text ++ ".." ++ a.stop.text

end Span

end SqlScript
