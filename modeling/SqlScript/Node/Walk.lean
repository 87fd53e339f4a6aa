import SqlScript.Node.Ref

/-!
# Walks

A visitor is told when a walk enters a node and when it leaves it, and carries a state of its own
from call to call. On entering a node it may have the node's children skipped; such a node is not
left either.
-/

namespace SqlScript

/-- What a visitor wants of the children of the node it enters. -/
inductive Descent where
  | children
  | skip
  deriving DecidableEq, Repr

/-- Someone who is led through a tree, with a state. -/
structure Visitor (σ : Type u) where
  enter : NodeRef → σ → Descent × σ
  leave : NodeRef → σ → σ

namespace NodeRef

/-- Leads a visitor through a node and everything below it. -/
def walk (v : Visitor σ) (r : NodeRef) (s : σ) : σ :=
  match v.enter r s with
  | (.skip, s) => s
  | (.children, s) =>
    v.leave r (r.children.attach.foldl (fun s ⟨c, _⟩ => c.walk v s) s)
termination_by r.node.weight
decreasing_by exact weight_lt_of_mem_children (by assumption)

/-- What a walk does at its root. -/
theorem walk_eq (v : Visitor σ) (r : NodeRef) (s : σ) :
    r.walk v s =
      match v.enter r s with
      | (.skip, s) => s
      | (.children, s) => v.leave r (r.children.foldl (fun s c => c.walk v s) s) := by
  rw [walk]
  split
  · rfl
  · rw [List.foldl_subtype (g := fun s c => walk v c s), List.unattach_attach]
    intro s c h
    rfl

/-- Leads a function through a node and everything below it; where it answers `false`, the children
are skipped. -/
def inspect (f : NodeRef → σ → Bool × σ) (r : NodeRef) (s : σ) : σ :=
  r.walk
    { enter := fun r s => ((if (f r s).1 then .children else .skip), (f r s).2)
      leave := fun _ s => s }
    s

end NodeRef

end SqlScript
