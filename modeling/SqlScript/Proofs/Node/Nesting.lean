import Mathlib.Data.List.Chain
import SqlScript.Attachment.Placement
import SqlScript.Proofs.Node.Extent
import SqlScript.Proofs.Node.Preorder

/-!
# Spans nest as nodes do

A node is laid out when the positions recorded in it and below it are in the order of their tokens.
Nothing else is needed for its spans to be in order:

* `Node.Nested`: a node's span holds those of its children, and these do not overlap;
* `NodeRef.InSourceOrder`: every node of a pre-order is nested, and no node starts before one in
  front of it;
* `NodeRef.inSourceOrder_of_laidOut`: laid out nodes and scripts are in source order throughout.
-/

namespace SqlScript

open Layout

/-! ## Positions and spans -/

theorem Position.min_le_left (a b : Position) : min a b ≤ a := by
  show (if a ≤ b then a else b) ≤ a
  split
  · exact le_refl a
  · exact (le_total a b).resolve_left ‹_›

theorem Position.min_le_right (a b : Position) : min a b ≤ b := by
  show (if a ≤ b then a else b) ≤ b
  split
  · assumption
  · exact le_refl b

theorem Position.le_max_left (a b : Position) : a ≤ max a b := by
  show a ≤ if a ≤ b then b else a
  split
  · assumption
  · exact le_refl a

theorem Position.le_max_right (a b : Position) : b ≤ max a b := by
  show b ≤ if a ≤ b then b else a
  split
  · exact le_refl b
  · exact (le_total a b).resolve_left ‹_›

theorem Span.contains_iff {a b : Span} :
    a.contains b = true ↔ a.start ≤ b.start ∧ b.stop ≤ a.stop := by
  simp [contains]

/-- If nothing in a list runs backwards, order between neighbours is order between all. -/
theorem pairwise_of_isChain {α : Type u} {start stop : α → Position} {l : List α}
    (hf : ∀ x ∈ l, start x ≤ stop x) (hc : l.IsChain fun a b => stop a ≤ start b) :
    l.Pairwise fun a b => stop a ≤ start b := by
  induction l with
  | nil => exact .nil
  | cons a rest ih =>
    have hrest := ih (fun x hx => hf x (List.mem_cons_of_mem _ hx)) hc.tail
    refine List.pairwise_cons.mpr ⟨fun x hx => ?_, hrest⟩
    cases rest with
    | nil => cases hx
    | cons b rest =>
      have hab : stop a ≤ start b := (List.isChain_cons_cons.mp hc).1
      rcases List.mem_cons.mp hx with rfl | hx
      · exact hab
      · have hbx := List.rel_of_pairwise_cons hrest hx
        exact Position.le_trans hab (Position.le_trans (hf b (by simp)) hbx)

theorem Script.start_le (s : Script) : s.start ≤ s.statements.head.start := by
  unfold start
  cases s.comments.head? with
  | none => exact Position.le_refl _
  | some g => exact Position.min_le_left _ _

theorem Script.le_stop (s : Script) : s.statements.last.stop ≤ s.stop := by
  unfold stop
  cases s.comments.getLast? with
  | none => exact Position.le_refl _
  | some g => exact Position.le_max_left _ _

namespace Node

/-! ## The first and the last position -/

theorem outline_script (s : Script) :
    outline (script s).layout = s.statements.toList.map fun t => (statement t).span := by
  obtain ⟨⟨head, tail⟩, _, _⟩ := s
  have hlist : tail.flatMap (fun t => [(statement t).span]) =
      tail.map fun t => (statement t).span := List.map_eq_flatMap.symm
  simp [layout, Script.layout, outline_flatMap, hlist]

/-- No node starts behind its first position. -/
theorem start_le_head (n : Node) : ∃ p, n.positions.head? = some p ∧ n.start ≤ p := by
  cases h : n.isScript with
  | false => exact ⟨n.start, head?_positions h, Position.le_refl _⟩
  | true =>
    obtain ⟨s, rfl⟩ : ∃ s, n = script s := by
      cases n <;> simp [isScript] at h ⊢
    refine ⟨s.statements.head.start, ?_, s.start_le⟩
    rw [positions_eq, head?_flatMap_positions, outline_script]
    · simp [start]
    · intro c hc
      exact head?_positions (isScript_of_mem_children (mem_children_of_mem_layout hc))

/-- No node stops in front of its last position. -/
theorem last_le_stop (n : Node) : ∃ p, n.positions.getLast? = some p ∧ p ≤ n.stop := by
  cases h : n.isScript with
  | false => exact ⟨n.stop, getLast?_positions h, Position.le_refl _⟩
  | true =>
    obtain ⟨s, rfl⟩ : ∃ s, n = script s := by
      cases n <;> simp [isScript] at h ⊢
    refine ⟨s.statements.last.stop, ?_, s.le_stop⟩
    rw [positions_eq, getLast?_flatMap_positions, outline_script]
    · simp [stop, NonEmptyList.getLast?_toList]
    · intro c hc
      exact getLast?_positions (isScript_of_mem_children (mem_children_of_mem_layout hc))

theorem start_mem_positions {c n : Node} (h : c ∈ n.children) : c.start ∈ c.positions :=
  List.mem_of_mem_head? (head?_positions (isScript_of_mem_children h))

theorem stop_mem_positions {c n : Node} (h : c ∈ n.children) : c.stop ∈ c.positions :=
  List.mem_of_getLast? (getLast?_positions (isScript_of_mem_children h))

/-! ## Laid out nodes -/

/-- The positions recorded in a node and below it are in the order of their tokens. -/
def LaidOut (n : Node) : Prop :=
  n.positions.Pairwise (· ≤ ·)

/-- The span of a node holds those of its children, and these do not overlap. -/
structure Nested (n : Node) : Prop where
  start_le_stop : n.start ≤ n.stop
  contains_children : ∀ c ∈ n.children, n.span.contains c.span = true
  children_apart : n.children.IsChain fun c d => c.stop ≤ d.start

theorem mem_layout_of_mem_children {c n : Node} (h : c ∈ n.children) :
    Piece.child c ∈ n.layout := by
  rw [← childNodes_layout, childNodes, List.mem_filterMap] at h
  obtain ⟨piece, hp, hc⟩ := h
  cases piece <;> simp at hc
  exact hc ▸ hp

theorem positions_subset_of_mem_children {c n : Node} (h : c ∈ n.children) :
    c.positions ⊆ n.positions := by
  intro p hp
  rw [positions_eq n, List.mem_flatMap]
  exact ⟨.child c, mem_layout_of_mem_children h, hp⟩

namespace LaidOut

theorem start_le {n : Node} (h : n.LaidOut) {p : Position} (hp : p ∈ n.positions) :
    n.start ≤ p := by
  obtain ⟨first, hfirst, hle⟩ := n.start_le_head
  obtain ⟨rest, hrest⟩ := List.head?_eq_some_iff.mp hfirst
  rw [LaidOut, hrest, List.pairwise_cons] at h
  rw [hrest] at hp
  rcases List.mem_cons.mp hp with rfl | hp
  · exact hle
  · exact Position.le_trans hle (h.1 p hp)

theorem le_stop {n : Node} (h : n.LaidOut) {p : Position} (hp : p ∈ n.positions) :
    p ≤ n.stop := by
  obtain ⟨last, hlast, hle⟩ := n.last_le_stop
  obtain ⟨rest, hrest⟩ := List.getLast?_eq_some_iff.mp hlast
  rw [LaidOut, hrest, List.pairwise_append] at h
  rw [hrest] at hp
  rcases List.mem_append.mp hp with hp | hp
  · exact Position.le_trans (h.2.2 p hp last List.mem_cons_self) hle
  · rw [List.mem_singleton.mp hp]
    exact hle

theorem child {c n : Node} (h : n.LaidOut) (hc : c ∈ n.children) : c.LaidOut := by
  rw [LaidOut, positions_eq, List.pairwise_flatMap] at h
  exact h.1 _ (mem_layout_of_mem_children hc)

/-- All positions of a child come before those of the children behind it. -/
theorem siblings {n : Node} (h : n.LaidOut) :
    n.children.Pairwise fun c d => ∀ p ∈ c.positions, ∀ q ∈ d.positions, p ≤ q := by
  rw [LaidOut, positions_eq, List.pairwise_flatMap] at h
  rw [← childNodes_layout, childNodes, List.pairwise_filterMap]
  refine h.2.imp ?_
  intro a b hab c hc d hd
  cases a <;> cases b <;> simp at hc hd
  subst hc hd
  exact hab

theorem nested {n : Node} (h : n.LaidOut) : n.Nested where
  start_le_stop := by
    obtain ⟨first, hfirst, hle⟩ := n.start_le_head
    exact Position.le_trans hle (h.le_stop (List.mem_of_mem_head? hfirst))
  contains_children c hc := by
    have hsub := positions_subset_of_mem_children hc
    have hstart := h.start_le (hsub (start_mem_positions hc))
    have hstop := h.le_stop (hsub (stop_mem_positions hc))
    exact Span.contains_iff.mpr ⟨hstart, hstop⟩
  children_apart := by
    refine (h.siblings.imp_of_mem ?_).isChain
    intro c d hc hd hcd
    exact hcd _ (stop_mem_positions hc) _ (start_mem_positions hd)

end LaidOut

end Node

/-! ## Pre-orders -/

namespace NodeRef

/-- Every node of a pre-order is nested, and none starts before one in front of it. -/
structure InSourceOrder (r : NodeRef) : Prop where
  nested : ∀ m ∈ r.preorder, m.node.Nested
  sorted : (r.preorder.map (·.start)).Pairwise (· ≤ ·)

theorem map_node_children (r : NodeRef) : r.children.map (·.node) = r.node.children := by
  refine List.ext_getElem (by simp [children]) fun i _ _ => ?_
  simp [children]

theorem laidOut_of_mem_preorder {m r : NodeRef} (h : r.node.LaidOut) (hm : m ∈ r.preorder) :
    m.node.LaidOut := by
  induction r using NodeRef.induction with
  | step r ih =>
    rcases mem_preorder_iff.mp hm with rfl | ⟨c, hc, hm⟩
    · exact h
    · exact ih c hc (h.child (node_mem_of_mem_children hc)) hm

/-- In a nested tree every node runs forward and lies within the span of the root. -/
theorem within_of_mem_preorder {m r : NodeRef} (h : ∀ n ∈ r.preorder, n.node.Nested)
    (hm : m ∈ r.preorder) : r.start ≤ m.start ∧ m.start ≤ m.stop ∧ m.stop ≤ r.stop := by
  induction r using NodeRef.induction with
  | step r ih =>
    have hr := h r r.mem_preorder_self
    rcases mem_preorder_iff.mp hm with rfl | ⟨c, hc, hm⟩
    · exact ⟨Position.le_refl _, hr.start_le_stop, Position.le_refl _⟩
    · obtain ⟨hstart, hrun, hstop⟩ :=
        ih c hc (fun n hn => h n (preorder_subset_of_mem_children hc hn)) hm
      have hcontains := hr.contains_children _ (node_mem_of_mem_children hc)
      obtain ⟨hfirst, hlast⟩ := Span.contains_iff.mp hcontains
      exact ⟨Position.le_trans hfirst hstart, hrun, Position.le_trans hstop hlast⟩

/-- Nested trees that follow each other have their nodes in the order of their starts, if each tree
has. -/
theorem pairwise_start_flatMap {l : List NodeRef} (hn : ∀ c ∈ l, ∀ n ∈ c.preorder, n.node.Nested)
    (hapart : l.IsChain fun c d => c.stop ≤ d.start)
    (hs : ∀ c ∈ l, c.preorder.Pairwise fun m n => m.start ≤ n.start) :
    (l.flatMap preorder).Pairwise fun m n => m.start ≤ n.start := by
  rw [List.pairwise_flatMap]
  refine ⟨hs, ?_⟩
  have hrun : ∀ c ∈ l, c.start ≤ c.stop :=
    fun c hc => (hn c hc c c.mem_preorder_self).start_le_stop
  refine (pairwise_of_isChain hrun hapart).imp_of_mem ?_
  intro c d hc hd hcd m hm n hd'
  obtain ⟨-, hm, hmc⟩ := within_of_mem_preorder (hn c hc) hm
  obtain ⟨hdn, -, -⟩ := within_of_mem_preorder (hn d hd) hd'
  exact Position.le_trans hm (Position.le_trans hmc (Position.le_trans hcd hdn))

/-- In a nested tree no node starts before one in front of it. -/
theorem pairwise_start_of_nested {r : NodeRef} (h : ∀ n ∈ r.preorder, n.node.Nested) :
    r.preorder.Pairwise fun m n => m.start ≤ n.start := by
  induction r using NodeRef.induction with
  | step r ih =>
    have hchildren : ∀ c ∈ r.children, ∀ n ∈ c.preorder, n.node.Nested :=
      fun c hc n hn => h n (preorder_subset_of_mem_children hc hn)
    have hapart := (h r r.mem_preorder_self).children_apart
    rw [← map_node_children, List.isChain_map] at hapart
    rw [preorder_eq, List.pairwise_cons]
    refine ⟨fun m hm => ?_, ?_⟩
    · have hmem : m ∈ r.preorder := by
        rw [preorder_eq]
        exact List.mem_cons_of_mem _ hm
      exact (within_of_mem_preorder h hmem).1
    · exact pairwise_start_flatMap hchildren hapart fun c hc => ih c hc (hchildren c hc)

theorem pairwise_start_preorder {r : NodeRef} (h : r.node.LaidOut) :
    (r.preorder.map (·.start)).Pairwise (· ≤ ·) :=
  List.pairwise_map.mpr
    (pairwise_start_of_nested fun _ hn => (laidOut_of_mem_preorder h hn).nested)

/-- Nodes that are laid out are in source order throughout, and so are scripts whose statements are
laid out one behind the other, wherever their comments stand. -/
theorem inSourceOrder_of_laidOut :
    (∀ r : NodeRef, r.node.LaidOut → r.InSourceOrder) ∧
      ∀ s : Script,
        (s.statements.toList.flatMap fun t => (Node.statement t).positions).Pairwise (· ≤ ·) →
          s.ref.InSourceOrder := by
  have hnode : ∀ r : NodeRef, r.node.LaidOut → r.InSourceOrder := fun r h =>
    ⟨fun _ hm => (laidOut_of_mem_preorder h hm).nested, pairwise_start_preorder h⟩
  refine ⟨hnode, fun s h => hnode s.ref ?_⟩
  rw [← Node.positions_script] at h
  exact h

end NodeRef

/-- `DROP INDEX a` on a line. -/
def Statement.dropOnLine (line : UInt32) : Statement :=
  .dropIndex ⟨⟨line, 1⟩, ⟨⟨"a", ⟨⟨line, 12⟩, ⟨line, 13⟩⟩⟩, []⟩⟩

theorem Statement.positions_dropOnLine (line : UInt32) :
    (Node.statement (dropOnLine line)).positions = [⟨line, 1⟩, ⟨line, 12⟩, ⟨line, 13⟩] := by
  simp [Node.positions_eq, dropOnLine, Node.layout, Statement.layout, separated, Node.ident,
    Expr.layout, token, Piece.positions]

/-- A statement, and a script of two, of which this speaks. -/
theorem NodeRef.inSourceOrder_dropOnLine :
    (Node.statement (.dropOnLine 1)).LaidOut ∧
      (NodeRef.root 0 (.statement (.dropOnLine 1))).InSourceOrder ∧
      ∃ s : Script, s.statements.toList = [.dropOnLine 1, .dropOnLine 2] ∧
        s.ref.InSourceOrder := by
  have hlaid : (Node.statement (.dropOnLine 1)).LaidOut := by
    rw [Node.LaidOut, Statement.positions_dropOnLine]
    decide
  refine ⟨hlaid, inSourceOrder_of_laidOut.1 _ hlaid,
    ⟨⟨.dropOnLine 1, [.dropOnLine 2]⟩, [], rfl⟩, rfl, inSourceOrder_of_laidOut.2 _ ?_⟩
  simp only [NonEmptyList.toList_mk, List.flatMap_cons, List.flatMap_nil,
    Statement.positions_dropOnLine]
  decide

end SqlScript
