import Mathlib.Data.List.Chain
import SqlScript.Proofs.Attachment.Totality
import SqlScript.Proofs.Node.Nesting

/-!
# The nodes of a script, statement by statement

The pass sees one list of nodes. Here it is cut into the pre-orders of the statements:

* `Script.offset`: the number of nodes in front of a statement;
* `getElem?_offset`, `take_offset`, `drop_offset`: what stands there, in front of it and behind;
* `Script.WellNested`: scripts whose spans nest as their nodes do, and whose statements follow each
  other in the source;
* `WellNested.stop_le_of_mem_take`, `WellNested.start_le_of_mem_drop`: in such a script a statement
  has all nodes in front of it, or behind it, on the same side of its span.
-/

namespace SqlScript

/-! ## Statements as nodes -/

theorem Statement.children_ne_nil (t : Statement) : t.children ≠ [] := by
  cases t with
  | query q => simp [children, Query.children]
  | dropTable t => simpa [children] using t.tables.toList_ne_nil
  | dropIndex t => simpa [children] using t.names.toList_ne_nil
  | _ => simp [children]

theorem Statement.isContainer_statement (t : Statement) :
    (Node.statement t).isContainer = true := by
  cases t <;> rfl

namespace Script

theorem exists_statement_of_mem {s : Script} {t : NodeRef} (ht : t ∈ s.ref.children) :
    ∃ q : Statement, t.node = .statement q := by
  have h := NodeRef.node_mem_of_mem_children ht
  simp only [ref, NodeRef.root, Node.children, List.mem_map] at h
  obtain ⟨q, -, hq⟩ := h
  exact ⟨q, hq.symm⟩

theorem isContainer_of_mem {s : Script} {t : NodeRef} (ht : t ∈ s.ref.children) :
    t.isContainer = true := by
  obtain ⟨q, hq⟩ := exists_statement_of_mem ht
  rw [NodeRef.isContainer, hq, q.isContainer_statement]

/-- No statement is the last node of its own pre-order. -/
theorem one_lt_length_preorder {s : Script} {t : NodeRef} (ht : t ∈ s.ref.children) :
    1 < t.preorder.length := by
  obtain ⟨q, hq⟩ := exists_statement_of_mem ht
  have hne : t.children ≠ [] := by
    rw [Ne, ← List.map_eq_nil_iff, NodeRef.map_node_children, hq]
    exact q.children_ne_nil
  obtain ⟨c, hc⟩ := List.exists_mem_of_ne_nil _ hne
  have hpos := List.length_pos_of_mem (List.mem_flatMap.mpr ⟨c, hc, c.mem_preorder_self⟩)
  rw [NodeRef.preorder_eq, List.length_cons]
  omega

/-! ## Offsets -/

/-- The number of nodes in front of statement number `k`. -/
def offset (s : Script) (k : Nat) : Nat :=
  ((s.ref.children.take k).flatMap NodeRef.preorder).length

theorem nodes_eq_append (s : Script) (k : Nat) :
    s.nodes = (s.ref.children.take k).flatMap NodeRef.preorder ++
      (s.ref.children.drop k).flatMap NodeRef.preorder := by
  rw [← List.flatMap_append, List.take_append_drop, nodes]

theorem take_offset (s : Script) (k : Nat) :
    s.nodes.take (s.offset k) = (s.ref.children.take k).flatMap NodeRef.preorder := by
  rw [s.nodes_eq_append k, offset, List.take_left]

theorem drop_offset (s : Script) (k : Nat) :
    s.nodes.drop (s.offset k) = (s.ref.children.drop k).flatMap NodeRef.preorder := by
  rw [s.nodes_eq_append k, offset, List.drop_left]

/-- At its offset stands a statement; behind the last, nothing. -/
theorem getElem?_offset (s : Script) (k : Nat) : s.nodes[s.offset k]? = s.ref.children[k]? := by
  rw [← List.head?_drop, drop_offset, ← List.head?_drop]
  cases s.ref.children.drop k with
  | nil => rfl
  | cons t rest => rw [List.flatMap_cons, NodeRef.preorder_eq]; rfl

theorem offset_le_length (s : Script) (k : Nat) : s.offset k ≤ s.nodes.length := by
  rw [s.nodes_eq_append k, List.length_append]
  exact Nat.le_add_right _ _

theorem offset_eq_length {s : Script} {k : Nat} (hk : s.ref.children[k]? = none) :
    s.offset k = s.nodes.length := by
  rw [← getElem?_offset, List.getElem?_eq_none_iff] at hk
  exact Nat.le_antisymm (s.offset_le_length k) hk

theorem offset_succ {s : Script} {k : Nat} {t : NodeRef} (ht : s.ref.children[k]? = some t) :
    s.offset (k + 1) = s.offset k + t.preorder.length := by
  simp [offset, List.take_add_one, ht]

theorem offset_add_one_lt {s : Script} {k : Nat} {t : NodeRef} (ht : s.ref.children[k]? = some t) :
    s.offset k + 1 < s.offset (k + 1) := by
  rw [offset_succ ht]
  have := one_lt_length_preorder (List.mem_of_getElem? ht)
  omega

theorem offset_mono (s : Script) {j k : Nat} (h : j ≤ k) : s.offset j ≤ s.offset k := by
  obtain ⟨d, rfl⟩ := Nat.exists_eq_add_of_le h
  rw [offset, offset, List.take_add, List.flatMap_append, List.length_append]
  exact Nat.le_add_right _ _

/-- The last node in front of the next statement is the last in the pre-order of this one. -/
theorem getLast?_take_offset {s : Script} {k : Nat} {t : NodeRef}
    (ht : s.ref.children[k]? = some t) :
    (s.nodes.take (s.offset (k + 1))).getLast? = t.preorder.getLast? := by
  rw [take_offset, List.take_add_one, ht, Option.toList_some, List.flatMap_append,
    List.flatMap_singleton, List.getLast?_append, List.getLast?_eq_some_getLast t.preorder_ne_nil,
    Option.some_or]

/-- A statement stands nowhere but at its offset. -/
theorem eq_offset_of_getElem? {s : Script} {k m : Nat} {t : NodeRef}
    (ht : s.ref.children[k]? = some t) (hm : s.nodes[m]? = some t) : m = s.offset k := by
  rw [← getElem?_offset] at ht
  exact getElem?_nodes_inj hm ht

/-- Every place in the list of nodes is in or behind a statement. -/
theorem exists_offset_lt {s : Script} {a m : Nat} (ha : s.offset a < m)
    (hm : m ≤ s.nodes.length) :
    ∃ c t, a ≤ c ∧ s.ref.children[c]? = some t ∧ s.offset c < m ∧ m ≤ s.offset (c + 1) := by
  cases ht : s.ref.children[a]? with
  | none =>
    rw [offset_eq_length ht] at ha
    omega
  | some t =>
    rcases Nat.lt_or_ge (s.offset (a + 1)) m with hlt | hle
    · obtain ⟨c, u, hc, hu⟩ := exists_offset_lt hlt hm
      exact ⟨c, u, Nat.le_of_succ_le hc, hu⟩
    · exact ⟨a, t, Nat.le_refl a, ht, ha, hle⟩
termination_by s.ref.children.length - a
decreasing_by
  have := (List.getElem?_eq_some_iff.mp ht).1
  omega

/-! ## Nested scripts -/

/-- Every node of the script is nested, and no statement starts before the one in front stops. -/
structure WellNested (s : Script) : Prop where
  nodes : ∀ r ∈ s.nodes, r.node.Nested
  apart : s.ref.children.IsChain fun a b => a.stop ≤ b.start

/-- Where all positions are in the order of their tokens, a script is nested. -/
theorem wellNested_of_laidOut {s : Script} (h : s.ref.node.LaidOut) : s.WellNested where
  nodes r hr := by
    obtain ⟨t, ht, hr⟩ := mem_nodes_iff.mp hr
    have hmem := NodeRef.preorder_subset_of_mem_children ht hr
    exact (NodeRef.laidOut_of_mem_preorder h hmem).nested
  apart := by
    have happart := h.nested.children_apart
    rwa [← NodeRef.map_node_children, List.isChain_map] at happart

namespace WellNested

variable {s : Script}

theorem within (h : s.WellNested) {r t : NodeRef} (ht : t ∈ s.ref.children)
    (hr : r ∈ t.preorder) : t.start ≤ r.start ∧ r.start ≤ r.stop ∧ r.stop ≤ t.stop :=
  NodeRef.within_of_mem_preorder (fun n hn => h.nodes n (mem_nodes_iff.mpr ⟨t, ht, hn⟩)) hr

theorem start_le_stop (h : s.WellNested) {t : NodeRef} (ht : t ∈ s.ref.children) :
    t.start ≤ t.stop :=
  (h.within ht t.mem_preorder_self).2.1

/-- Order between neighbouring statements is order between all. -/
theorem stop_le_start (h : s.WellNested) {j k : Nat} {a b : NodeRef} (hjk : j < k)
    (ha : s.ref.children[j]? = some a) (hb : s.ref.children[k]? = some b) : a.stop ≤ b.start := by
  have hall := pairwise_of_isChain (fun t ht => h.start_le_stop ht) h.apart
  obtain ⟨hj, rfl⟩ := List.getElem?_eq_some_iff.mp ha
  obtain ⟨hk, rfl⟩ := List.getElem?_eq_some_iff.mp hb
  exact List.pairwise_iff_getElem.mp hall j k hj hk hjk

/-- Up to the end of a statement no node stops behind it. -/
theorem stop_le_of_mem_take (h : s.WellNested) {k : Nat} {r t : NodeRef}
    (ht : s.ref.children[k]? = some t) (hr : r ∈ s.nodes.take (s.offset (k + 1))) :
    r.start ≤ r.stop ∧ r.stop ≤ t.stop := by
  rw [take_offset, List.mem_flatMap] at hr
  obtain ⟨a, ha, hr⟩ := hr
  obtain ⟨j, hj⟩ := List.mem_iff_getElem?.mp ha
  rw [List.getElem?_take] at hj
  split at hj
  · rename_i hlt
    have hmem := List.mem_of_getElem? hj
    obtain ⟨-, hrun, hstop⟩ := h.within hmem hr
    refine ⟨hrun, Position.le_trans hstop ?_⟩
    rcases Nat.lt_succ_iff_lt_or_eq.mp hlt with hlt | rfl
    · exact Position.le_trans (h.stop_le_start hlt hj ht)
        (h.start_le_stop (List.mem_of_getElem? ht))
    · rw [ht, Option.some.injEq] at hj
      rw [hj]
      exact Position.le_refl _
  · cases hj

theorem stop_le_of_getElem? (h : s.WellNested) {k m : Nat} {r t : NodeRef}
    (ht : s.ref.children[k]? = some t) (hm : m < s.offset (k + 1)) (hr : s.nodes[m]? = some r) :
    r.start ≤ r.stop ∧ r.stop ≤ t.stop := by
  refine h.stop_le_of_mem_take ht (List.mem_of_getElem? (i := m) ?_)
  rw [List.getElem?_take_of_lt hm, hr]

/-- From the start of a statement on no node starts in front of it. -/
theorem start_le_of_mem_drop (h : s.WellNested) {k : Nat} {r u : NodeRef}
    (hu : s.ref.children[k]? = some u) (hr : r ∈ s.nodes.drop (s.offset k)) :
    u.start ≤ r.start := by
  rw [drop_offset, List.mem_flatMap] at hr
  obtain ⟨b, hb, hr⟩ := hr
  obtain ⟨j, hj⟩ := List.mem_iff_getElem?.mp hb
  rw [List.getElem?_drop] at hj
  obtain ⟨hstart, -, -⟩ := h.within (List.mem_of_getElem? hj) hr
  refine Position.le_trans ?_ hstart
  cases j with
  | zero =>
    rw [Nat.add_zero, hu, Option.some.injEq] at hj
    rw [hj]
    exact Position.le_refl _
  | succ j =>
    exact Position.le_trans (h.start_le_stop (List.mem_of_getElem? hu))
      (h.stop_le_start (by omega) hu hj)

end WellNested

end Script

end SqlScript
