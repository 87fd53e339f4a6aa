import SqlScript.Attachment.Placement
import SqlScript.Output.Sink

/-!
# What is logged

Writing a node and attaching comments leave a log: one record for the whole activity, with what it
came to, and one for every fault of the device and every placement on the way.
-/

namespace SqlScript

/-- One record of a log. -/
inductive LogRecord where
  /-- A node was written. -/
  | rendered (written : Nat)
  /-- A device failed. -/
  | faulted (written : Nat) (fault : Fault)
  /-- Comments were attached. -/
  | indexed (nodes groups attached : Nat)
  /-- A comment group was placed. -/
  | placed (placement : Placement)

namespace LogRecord

/-- The activity that a record is about, if it is about a whole activity. -/
def activity? : LogRecord → Option String
  | rendered _ => some "render"
  | indexed _ _ _ => some "build_comment_map"
  | faulted _ _ => none
  | placed _ => none

/-- The level and the text of a record of a single event. -/
def event? : LogRecord → Option (String × String)
  | faulted _ _ => some ("DEBUG", "render sink failed; skipping remaining output")
  | placed _ => some ("TRACE", "attached comment group")
  | rendered _ => none
  | indexed _ _ _ => none

end LogRecord

/-- The fault of a sink, if it has one. -/
def Sink.faultLog (s : Sink σ) : List LogRecord :=
  match s.fault with
  | some fault => [.faulted s.written fault]
  | none => []

/-- What is logged when a node has been written to a sink. -/
def Sink.renderLog (s : Sink σ) : List LogRecord :=
  .rendered s.written :: s.faultLog

/-- What is logged when the comments of a script have been placed; a script without comments logs
nothing. -/
def Script.placementLog (s : Script) (ps : List Placement) : List LogRecord :=
  if s.comments.isEmpty then []
  else .indexed s.nodes.length s.comments.length (CommentIndex.ofPlacements ps).groupCount ::
    ps.map .placed

end SqlScript
