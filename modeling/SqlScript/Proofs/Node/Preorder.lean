import Mathlib.Data.List.Nodup
import SqlScript.Node.Ref

/-!
# The pre-order and its addresses

What walks, indexes and scans need of the list `NodeRef.preorder`:

* `NodeRef.induction`: what passes from the children of every node to the node holds of all nodes;
* `mem_preorder_iff`, `path_prefix_of_mem_preorder`: what is in the list, and that everything in it
  has an address below that of the root;
* `preorder_infix_of_mem`: a subtree stands in one piece;
* `nodup_address_preorder`: no address occurs twice, although equal nodes may;
* `NodeRef.covers`: whether a node has another in its subtree.
-/

namespace SqlScript

namespace NodeRef

/-- What passes from the children of every node to the node itself holds of all nodes. -/
@[elab_as_elim]
theorem induction {motive : NodeRef → Prop}
    (step : ∀ r, (∀ c ∈ r.children, motive c) → motive r) (r : NodeRef) : motive r :=
  step r fun c _ => induction step c
termination_by r.node.weight
decreasing_by exact weight_lt_of_mem_children (by assumption)

theorem same_iff {r s : NodeRef} : r.same s = true ↔ r.address = s.address := by
  simp [same]

theorem same_comm (r s : NodeRef) : r.same s = s.same r := by
  rw [Bool.eq_iff_iff, same_iff, same_iff, eq_comm]

theorem same_congr {r s : NodeRef} (h : r.same s = true) (t : NodeRef) : r.same t = s.same t := by
  rw [same, same, same_iff.mp h]

/-! ## Members -/

theorem mem_preorder_self (r : NodeRef) : r ∈ r.preorder := by
  rw [preorder_eq]
  exact List.mem_cons_self

theorem preorder_ne_nil (r : NodeRef) : r.preorder ≠ [] :=
  List.ne_nil_of_mem r.mem_preorder_self

theorem mem_preorder_iff {m r : NodeRef} :
    m ∈ r.preorder ↔ m = r ∨ ∃ c ∈ r.children, m ∈ c.preorder := by
  rw [preorder_eq, List.mem_cons, List.mem_flatMap]

theorem preorder_subset_of_mem_children {c r : NodeRef} (h : c ∈ r.children) :
    c.preorder ⊆ r.preorder :=
  fun _ hm => mem_preorder_iff.mpr (.inr ⟨c, h, hm⟩)

/-- The pre-order of a node stands in one piece in every pre-order that has the node. -/
theorem preorder_infix_of_mem {a r : NodeRef} (h : a ∈ r.preorder) :
    a.preorder <:+: r.preorder := by
  induction r using NodeRef.induction with
  | step r ih =>
    rcases mem_preorder_iff.mp h with rfl | ⟨c, hc, ha⟩
    · exact List.infix_rfl
    · have hchild : c.preorder <:+: r.children.flatMap preorder :=
        List.infix_of_mem_flatten (List.mem_map_of_mem hc)
      rw [preorder_eq r]
      exact (ih c hc ha).trans (hchild.trans (List.suffix_cons _ _).isInfix)

/-! ## Addresses -/

theorem children_getElem? (r : NodeRef) (i : Nat) :
    r.children[i]? = r.node.children[i]?.map fun c => ⟨r.address.child i, c⟩ := by
  rw [children, List.getElem?_mapIdx]

theorem address_of_getElem? {c r : NodeRef} {i : Nat} (h : r.children[i]? = some c) :
    c.address = r.address.child i := by
  rw [children_getElem?, Option.map_eq_some_iff] at h
  obtain ⟨n, -, rfl⟩ := h
  rfl

theorem address_of_mem_children {c r : NodeRef} (h : c ∈ r.children) :
    ∃ i, c.address = r.address.child i := by
  obtain ⟨i, hi⟩ := List.mem_iff_getElem?.mp h
  exact ⟨i, address_of_getElem? hi⟩

/-- Everything below a node is in the same tree, at an address that continues its own. -/
theorem path_prefix_of_mem_preorder {m r : NodeRef} (h : m ∈ r.preorder) :
    m.address.tree = r.address.tree ∧ r.address.path <+: m.address.path := by
  induction r using NodeRef.induction with
  | step r ih =>
    rcases mem_preorder_iff.mp h with rfl | ⟨c, hc, hm⟩
    · exact ⟨rfl, List.prefix_refl _⟩
    · obtain ⟨i, hi⟩ := address_of_mem_children hc
      obtain ⟨ht, hp⟩ := ih c hc hm
      rw [hi] at ht hp
      exact ⟨ht, (List.prefix_append _ _).trans hp⟩

/-- A node below the child number `i` has `i` as the next step of its address. -/
theorem path_getElem?_of_mem_preorder {c m r : NodeRef} {i : Nat}
    (ha : c.address = r.address.child i) (hm : m ∈ c.preorder) :
    m.address.path[r.address.path.length]? = some i := by
  obtain ⟨-, rest, hp⟩ := path_prefix_of_mem_preorder hm
  rw [← hp, ha]
  simp [Address.child]

theorem address_ne_of_mem_preorder_child {c m r : NodeRef} (hc : c ∈ r.children)
    (hm : m ∈ c.preorder) : m.address ≠ r.address := by
  obtain ⟨i, ha⟩ := address_of_mem_children hc
  intro h
  have := path_getElem?_of_mem_preorder ha hm
  rw [h, List.getElem?_eq_none (Nat.le_refl _)] at this
  cases this

/-- A node is below one child only, and so is its address. -/
theorem child_eq_of_mem_preorder {c d m n r : NodeRef} {i j : Nat}
    (hc : r.children[i]? = some c) (hd : r.children[j]? = some d) (hm : m ∈ c.preorder)
    (hn : n ∈ d.preorder) (h : m.address = n.address) : i = j := by
  have hi := path_getElem?_of_mem_preorder (address_of_getElem? hc) hm
  have hj := path_getElem?_of_mem_preorder (address_of_getElem? hd) hn
  rw [← h, hi] at hj
  exact Option.some.inj hj

/-- Different children have no address in common below them. -/
theorem pairwise_disjoint_children (r : NodeRef) :
    r.children.Pairwise fun c d =>
      List.Disjoint (c.preorder.map (·.address)) (d.preorder.map (·.address)) := by
  rw [List.pairwise_iff_getElem]
  intro i j hi hj hij a hc hd
  obtain ⟨m, hm, rfl⟩ := List.mem_map.mp hc
  obtain ⟨n, hn, hmn⟩ := List.mem_map.mp hd
  have := child_eq_of_mem_preorder (List.getElem?_eq_getElem hi) (List.getElem?_eq_getElem hj)
    hm hn hmn.symm
  omega

/-- No address occurs twice below the children of a node. -/
theorem nodup_address_flatMap_children {r : NodeRef}
    (h : ∀ c ∈ r.children, (c.preorder.map (·.address)).Nodup) :
    ((r.children.flatMap preorder).map (·.address)).Nodup := by
  rw [List.map_flatMap, List.nodup_flatMap]
  exact ⟨h, r.pairwise_disjoint_children⟩

/-- No address occurs twice in a pre-order. -/
theorem nodup_address_preorder (r : NodeRef) : (r.preorder.map (·.address)).Nodup := by
  induction r using NodeRef.induction with
  | step r ih =>
    rw [preorder_eq, List.map_cons, List.nodup_cons]
    refine ⟨?_, nodup_address_flatMap_children ih⟩
    intro h
    obtain ⟨m, hm, he⟩ := List.mem_map.mp h
    obtain ⟨c, hc, hm⟩ := List.mem_flatMap.mp hm
    exact address_ne_of_mem_preorder_child hc hm he

/-! ## Places below a node -/

/-- Whether a node, or one below it, stands at the place of another. -/
def covers (a n : NodeRef) : Bool :=
  a.preorder.any (·.same n)

theorem covers_iff {a n : NodeRef} :
    a.covers n = true ↔ ∃ m ∈ a.preorder, m.address = n.address := by
  simp only [covers, List.any_eq_true, same_iff]

theorem covers_of_mem {a n : NodeRef} (h : n ∈ a.preorder) : a.covers n = true :=
  covers_iff.mpr ⟨n, h, rfl⟩

theorem covers_congr {m n : NodeRef} (h : m.same n = true) (a : NodeRef) :
    a.covers m = a.covers n := by
  rw [Bool.eq_iff_iff, covers_iff, covers_iff, same_iff.mp h]

theorem preorder_subset_of_mem_preorder {a b : NodeRef} (h : b ∈ a.preorder) :
    b.preorder ⊆ a.preorder :=
  (preorder_infix_of_mem h).subset

theorem covers_of_covers {a b n : NodeRef} (h : b ∈ a.preorder) (hn : b.covers n = true) :
    a.covers n = true := by
  obtain ⟨m, hm, hs⟩ := covers_iff.mp hn
  exact covers_iff.mpr ⟨m, preorder_subset_of_mem_preorder h hm, hs⟩

/-- Within one tree, a node covers those that are in its pre-order. -/
theorem covers_iff_mem {root a n : NodeRef} (ha : a ∈ root.preorder) (hn : n ∈ root.preorder) :
    a.covers n = true ↔ n ∈ a.preorder := by
  refine ⟨fun h => ?_, covers_of_mem⟩
  obtain ⟨m, hm, hs⟩ := covers_iff.mp h
  have hmem := preorder_subset_of_mem_preorder ha hm
  obtain rfl : m = n := List.inj_on_of_nodup_map root.nodup_address_preorder hmem hn hs
  exact hm

end NodeRef

end SqlScript
