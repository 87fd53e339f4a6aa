import SqlScript.Attachment.Index
import SqlScript.Attachment.Policy

/-!
# Placing comments

Every comment group of a script is placed at one node. One pass over the nodes of all statements in
pre-order, with the end of input behind them, places each group in front of the first node that
starts where the group stops or later. Of three rules the first that applies decides:

* *enclosing*: the container that was closed last, if the group trails it;
* *previous*: the node in front of the group, if the group trails it or nothing follows;
* *following*: the node behind the group.

A container counts as closed once a group is met that starts where the container stops or later.
It stays the last one closed until another is.
-/

namespace SqlScript

/-- The rules that place comment groups. -/
inductive Rule where
  | enclosing
  | previous
  | following
  deriving DecidableEq, Repr

/-- The name of a rule. -/
def Rule.text : Rule → String
  | enclosing => "enclosing"
  | previous => "previous"
  | following => "following"

/-- A comment group, the rule that placed it, and the node it was placed at. -/
structure Placement where
  group : GroupRef
  rule : Rule
  target : NodeRef

/-- What is known in front of a node. -/
structure Surroundings where
  /-- The node in front. -/
  previous : Option NodeRef := none
  /-- The container that was closed last. -/
  enclosing : Option NodeRef := none
  /-- The containers that are not closed yet, the innermost first. -/
  opened : List NodeRef := []

namespace Surroundings

/-- Closes containers from the innermost out as long as they stop at a position or before it. -/
def closeUpTo (p : Position) (enclosing : Option NodeRef) :
    List NodeRef → Option NodeRef × List NodeRef
  | [] => (enclosing, [])
  | top :: rest =>
    if p < top.stop then (enclosing, top :: rest) else closeUpTo p (some top) rest

/-- What is known once a group has been met that starts at a position. -/
def meet (s : Surroundings) (p : Position) : Surroundings :=
  let (enclosing, opened) := closeUpTo p s.enclosing s.opened
  { s with enclosing, opened }

/-- What is known behind a node. -/
def pass (s : Surroundings) (r : NodeRef) : Surroundings :=
  { s with
    previous := some r
    opened := if r.isContainer then r :: s.opened else s.opened }

end Surroundings

/-- Where the next node starts; the end of input lies behind everything. -/
def nextPosition : Option NodeRef → Position
  | some r => r.start
  | none => .infinity

/-- Places a group in front of the next node, or at the end of input. -/
def placeGroup (policy : Policy) (s : Surroundings) (next : Option NodeRef) (g : GroupRef) :
    Except Error Placement :=
  let trails (r : NodeRef) : Bool := policy.trails r.stop g.group.span (nextPosition next)
  match s.enclosing.filter trails with
  | some container => .ok ⟨g, .enclosing, container⟩
  | none =>
    match s.previous.filter fun r => next.isNone || trails r with
    | some before => .ok ⟨g, .previous, before⟩
    | none =>
      match next with
      | some behind => .ok ⟨g, .following, behind⟩
      | none => .error (.unattachedComment g.group.start)

/-- What is left to do once the groups in front of a node have been placed. -/
structure Pending where
  placed : List Placement
  surroundings : Surroundings
  groups : List GroupRef

/-- Places the groups that stop where the next node starts or before. -/
def placeBefore (policy : Policy) (next : Option NodeRef) (s : Surroundings) :
    List GroupRef → Except Error Pending
  | [] => .ok ⟨[], s, []⟩
  | g :: rest =>
    if nextPosition next < g.group.stop then .ok ⟨[], s, g :: rest⟩
    else
      let met := s.meet g.group.start
      match placeGroup policy met next g with
      | .error e => .error e
      | .ok placement =>
        match placeBefore policy next met rest with
        | .error e => .error e
        | .ok pending => .ok { pending with placed := placement :: pending.placed }

/-- Places groups in front of, between and behind nodes. -/
def placeAmong (policy : Policy) (s : Surroundings) :
    List NodeRef → List GroupRef → Except Error (List Placement)
  | [], groups => (placeBefore policy none s groups).map (·.placed)
  | r :: rest, groups =>
    match placeBefore policy (some r) s groups with
    | .error e => .error e
    | .ok pending =>
      match pending.groups with
      | [] => .ok pending.placed
      | g :: left =>
        (placeAmong policy (pending.surroundings.pass r) rest (g :: left)).map
          (pending.placed ++ ·)

namespace Script

/-- The root of a script's tree. Comment groups are trees of their own. -/
def ref (s : Script) : NodeRef :=
  .root 0 (.script s)

/-- The nodes of all statements, in pre-order. -/
def nodes (s : Script) : List NodeRef :=
  s.ref.children.flatMap NodeRef.preorder

/-- The comment groups with their numbers. -/
def groups (s : Script) : List GroupRef :=
  s.comments.mapIdx fun i g => ⟨i, g⟩

/-- A comment group as a node. -/
def groupRef (g : GroupRef) : NodeRef :=
  .root (g.number + 1) (.commentGroup g.group)

/-- The places of all comment groups, in source order. -/
def placements (s : Script) (policy : Policy) : Except Error (List Placement) :=
  match policy.check with
  | .error e => .error e
  | .ok () => if s.comments.isEmpty then .ok [] else placeAmong policy {} s.nodes s.groups

end Script

/-- The index that some placements make up. -/
def CommentIndex.ofPlacements (ps : List Placement) : CommentIndex :=
  ps.foldl (fun index p => index.attach p.target p.group) .empty

/-- The comments of a script, attached to its nodes. -/
def Script.commentIndex (s : Script) (policy : Policy := .standard) : Except Error CommentIndex :=
  (s.placements policy).map .ofPlacements

end SqlScript
