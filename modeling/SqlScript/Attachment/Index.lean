import SqlScript.Node.Ref

/-!
# Which comments belong to which node

A comment index lists nodes with the comment groups attached to them. Nodes stand in the order in
which each got its first group, and the groups of a node in the order in which they were attached.
Nodes are told apart by their address.
-/

namespace SqlScript

/-- A comment group with its number in the script. -/
structure GroupRef where
  number : Nat
  group : CommentGroup
  deriving DecidableEq, Repr

/-- A node and the comment groups attached to it. -/
structure IndexEntry where
  target : NodeRef
  groups : NonEmptyList GroupRef

/-- The comment groups attached to the nodes of a tree. -/
structure CommentIndex where
  entries : List IndexEntry := []

namespace CommentIndex

/-- The index of no comments. -/
def empty : CommentIndex := {}

/-- Adds a group to the entry of a node, or a new entry behind all others. -/
def attachTo (target : NodeRef) (g : GroupRef) : List IndexEntry → List IndexEntry
  | [] => [⟨target, .singleton g⟩]
  | entry :: rest =>
    if entry.target.same target then ⟨entry.target, entry.groups.push g⟩ :: rest
    else entry :: attachTo target g rest

/-- Attaches a group to a node. -/
def attach (index : CommentIndex) (target : NodeRef) (g : GroupRef) : CommentIndex :=
  ⟨attachTo target g index.entries⟩

/-- The groups attached to a node. -/
def lookup (index : CommentIndex) (r : NodeRef) : List GroupRef :=
  match index.entries.find? (·.target.same r) with
  | some entry => entry.groups.toList
  | none => []

/-- Whether a group is attached to a node. -/
def contains (index : CommentIndex) (r : NodeRef) : Bool :=
  index.entries.any (·.target.same r)

/-- The nodes that have a group, in the order of their first one. -/
def nodes (index : CommentIndex) : List NodeRef :=
  index.entries.map (·.target)

/-- The number of nodes that have a group. -/
def size (index : CommentIndex) : Nat :=
  index.entries.length

/-- Whether no node has a group. -/
def isEmpty (index : CommentIndex) : Bool :=
  index.entries.isEmpty

/-- The number of attached groups. -/
def groupCount (index : CommentIndex) : Nat :=
  (index.entries.flatMap (·.groups.toList)).length

/-- The nodes that have a group, each with its groups. -/
def toList (index : CommentIndex) : List (NodeRef × List GroupRef) :=
  index.nodes.map fun r => (r, index.lookup r)

/-- All attached groups, sorted by their start. -/
def comments (index : CommentIndex) : List GroupRef :=
  (index.entries.flatMap (·.groups.toList)).mergeSort fun g h =>
    decide (g.group.start ≤ h.group.start)

/-- The part of the index that lies in the subtree of a node. -/
def filter (index : CommentIndex) (r : NodeRef) : CommentIndex :=
  let inside := index.nodes.filter fun n => r.preorder.any (·.same n)
  inside.foldl (fun kept n => (index.lookup n).foldl (·.attach n ·) kept) empty

end CommentIndex

end SqlScript
