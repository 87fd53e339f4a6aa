import SqlScript.Node.Attribute
import SqlScript.Node.Weight

/-!
# Comparing nodes

Two nodes correspond under a relation on attributes when they have the same kind, when their
attributes are related one by one, and when their children correspond one by one. Equality of nodes
is correspondence under agreement of attributes: positions count, floating-point numbers are
compared by value and time stamps by instant.
-/

namespace SqlScript.Node

/-- Whether two lists have the same length and related elements. -/
def pairwise (r : α → β → Bool) : List α → List β → Bool
  | [], [] => true
  | x :: xs, y :: ys => r x y && pairwise r xs ys
  | _, _ => false

/-- Whether two nodes have the same kind, related attributes and corresponding children. -/
def corresponds (r : Attribute → Attribute → Bool) (a b : Node) : Bool :=
  a.kind == b.kind && pairwise r a.attributes b.attributes &&
    pairwise (fun ⟨c, _⟩ d => c.corresponds r d) a.children.attach b.children
termination_by a.weight
decreasing_by exact weight_lt_of_mem_children (by assumption)

/-- Equality of nodes. -/
def agrees (a b : Node) : Bool :=
  a.corresponds Attribute.agrees b

theorem pairwise_attach (r : α → β → Bool) (xs : List α) (ys : List β) :
    pairwise (fun (x : {x // x ∈ xs}) y => r x.1 y) xs.attach ys = pairwise r xs ys := by
  suffices ∀ zs : List {x // x ∈ xs},
      pairwise (fun (x : {x // x ∈ xs}) y => r x.1 y) zs ys = pairwise r (zs.map (·.1)) ys by
    simpa using this xs.attach
  intro zs
  induction zs generalizing ys with
  | nil => cases ys <;> rfl
  | cons z zs ih =>
    cases ys with
    | nil => rfl
    | cons y ys => simp [pairwise, ih]

/-- What correspondence of nodes comes down to at their root. -/
theorem corresponds_eq (r : Attribute → Attribute → Bool) (a b : Node) :
    a.corresponds r b = (a.kind == b.kind && pairwise r a.attributes b.attributes &&
      pairwise (corresponds r) a.children b.children) := by
  rw [corresponds, ← pairwise_attach (corresponds r)]

end SqlScript.Node
