import SqlScript.Node.Weight

/-!
# Nodes with their place

Equal nodes may stand in several places. A reference is a node together with its address: the tree
it belongs to, and the way from the root to it by child numbers. Two references are the same when
their addresses are, whatever the nodes hold.

* `NodeRef.preorder`: a node and everything below it, each node before its children;
* `preorder_eq`: how the pre-order is made up.
-/

namespace SqlScript

/-- The place of a node: a tree, and the child numbers on the way from its root. -/
structure Address where
  tree : Nat
  path : List Nat
  deriving DecidableEq, Repr

/-- The address of a child. -/
def Address.child (a : Address) (i : Nat) : Address :=
  ⟨a.tree, a.path ++ [i]⟩

/-- A node at its place. -/
structure NodeRef where
  address : Address
  node : Node

namespace NodeRef

/-- The root of a tree. -/
def root (tree : Nat) (n : Node) : NodeRef :=
  ⟨⟨tree, []⟩, n⟩

/-- Whether two references are to the same place. -/
def same (r s : NodeRef) : Bool :=
  r.address == s.address

/-- The kind of the node. -/
def kind (r : NodeRef) : NodeKind := r.node.kind

/-- Where the node starts. -/
def start (r : NodeRef) : Position := r.node.start

/-- Where the node stops. -/
def stop (r : NodeRef) : Position := r.node.stop

/-- The extent of the node. -/
def span (r : NodeRef) : Span := r.node.span

/-- Whether a comment below the node may belong to the node as a whole. -/
def isContainer (r : NodeRef) : Bool := r.node.isContainer

/-- The number of steps from the root of the tree. -/
def depth (r : NodeRef) : Nat := r.address.path.length

/-- References to the children, in order. -/
def children (r : NodeRef) : List NodeRef :=
  r.node.children.mapIdx fun i c => ⟨r.address.child i, c⟩

theorem node_mem_of_mem_children {c r : NodeRef} (h : c ∈ r.children) :
    c.node ∈ r.node.children := by
  obtain ⟨i, hi, rfl⟩ := List.mem_mapIdx.mp h
  exact List.getElem_mem hi

theorem weight_lt_of_mem_children {c r : NodeRef} (h : c ∈ r.children) :
    c.node.weight < r.node.weight :=
  Node.weight_lt_of_mem_children (node_mem_of_mem_children h)

/-- A node and everything below it, each node before its children and these from left to right. -/
def preorder (r : NodeRef) : List NodeRef :=
  r :: r.children.attach.flatMap fun ⟨c, _⟩ => c.preorder
termination_by r.node.weight
decreasing_by exact weight_lt_of_mem_children (by assumption)

theorem preorder_eq (r : NodeRef) : r.preorder = r :: r.children.flatMap preorder := by
  rw [preorder, List.flatMap_subtype (g := preorder), List.unattach_attach]
  intro c h
  rfl

end NodeRef

end SqlScript
