import SqlScript.Proofs.Attachment.ClosedForm
import SqlScript.Proofs.Attachment.Statements

/-!
# Which way a comment faces

In a script whose spans nest, the nodes in front of a group are those that start before the group
stops. So the rule by which a group is attached says on which side of its node it lies:

* `WellNested.start_lt_iff_lt_reach`: which nodes are in front of a group;
* `Script.Precedes`: the order of nodes, in which an ancestor stands in front of what is below it;
* `Script.Faces`: how a group lies to the node it is attached to;
* `Script.attached_facing`: every group lies so.
-/

namespace SqlScript

namespace Script

/-! ## The order of nodes -/

/-- A node stands in front of another in the list of all nodes. -/
def Precedes (s : Script) (a b : NodeRef) : Prop :=
  ∃ j k : Nat, j < k ∧ s.nodes[j]? = some a ∧ s.nodes[k]? = some b

/-- A node stands in front of everything below it. -/
theorem precedes_of_mem_preorder {s : Script} {a r : NodeRef} (ha : a ∈ s.nodes)
    (hr : r ∈ a.preorder) (hne : a ≠ r) : s.Precedes a r := by
  have hblock : a.preorder <:+: s.nodes := by
    obtain ⟨t, ht, ha⟩ := mem_nodes_iff.mp ha
    exact (NodeRef.preorder_infix_of_mem ha).trans
      (List.infix_of_mem_flatten (List.mem_map_of_mem ht))
  obtain ⟨front, back, hnodes⟩ := hblock
  obtain ⟨j, hj⟩ := List.mem_iff_getElem?.mp hr
  have hfirst : a.preorder[0]? = some a := by rw [NodeRef.preorder_eq]; rfl
  have hplace : ∀ m x, a.preorder[m]? = some x → s.nodes[front.length + m]? = some x := by
    intro m x hx
    have hm := (List.getElem?_eq_some_iff.mp hx).1
    rw [← hnodes, List.append_assoc, List.getElem?_append_right (Nat.le_add_right _ _),
      Nat.add_sub_cancel_left, List.getElem?_append_left hm, hx]
  have hpos : 0 < j := by
    rcases Nat.eq_zero_or_pos j with rfl | hpos
    · exact absurd (Option.some.inj (hfirst.symm.trans hj)) hne
    · exact hpos
  exact ⟨front.length + 0, front.length + j, by omega, hplace 0 a hfirst, hplace j r hj⟩

namespace WellNested

variable {s : Script} {g : CommentGroup} {j k : Nat} {a b r : NodeRef}

theorem start_le_start (h : s.WellNested) (hjk : j ≤ k) (ha : s.nodes[j]? = some a)
    (hb : s.nodes[k]? = some b) : a.start ≤ b.start := by
  have hsorted : s.nodes.Pairwise fun m n => m.start ≤ n.start := by
    have hn : ∀ t ∈ s.ref.children, ∀ n ∈ t.preorder, n.node.Nested :=
      fun t ht n hn => h.nodes n (mem_nodes_iff.mpr ⟨t, ht, hn⟩)
    exact NodeRef.pairwise_start_flatMap hn h.apart fun t ht =>
      NodeRef.pairwise_start_of_nested (hn t ht)
  rcases Nat.lt_or_eq_of_le hjk with hlt | rfl
  · obtain ⟨hj, rfl⟩ := List.getElem?_eq_some_iff.mp ha
    obtain ⟨hk, rfl⟩ := List.getElem?_eq_some_iff.mp hb
    exact List.pairwise_iff_getElem.mp hsorted j k hj hk hlt
  · rw [ha, Option.some.injEq] at hb
    rw [hb]
    exact Position.le_refl _

/-- The nodes in front of a group are those that start before it stops. -/
theorem start_lt_iff_lt_reach (h : s.WellNested) (hr : s.nodes[j]? = some r) :
    r.start < g.stop ↔ j < reach s.nodes g := by
  refine ⟨fun hlt => ?_, fun hlt => start_lt_of_lt_reach hlt hr⟩
  by_contra hle
  rw [Nat.not_lt] at hle
  have hlen := Nat.lt_of_le_of_lt hle (List.getElem?_eq_some_iff.mp hr).1
  have hx := List.getElem?_eq_getElem hlen
  have hback := Position.le_trans (stop_le_of_getElem?_reach hx) (h.start_le_start hle hx hr)
  exact Position.lt_iff_not_le.mp hlt hback

end WellNested

/-! ## Sides -/

/-- How a group lies to the node that it is attached to by a rule. -/
inductive Faces (s : Script) (g : CommentGroup) : Rule → NodeRef → Prop where
  /-- The group lies behind the node. -/
  | enclosing {t : NodeRef} (behind : t.stop ≤ g.start) : Faces s g .enclosing t
  /-- The node is the last of those that start before the group stops. -/
  | previous {t : NodeRef} (before : t.start < g.stop)
      (last : ∀ r ∈ s.nodes, r.start < g.stop → r ≠ t → s.Precedes r t) : Faces s g .previous t
  /-- The node is the first that does not start before the group stops, and the outermost one at
  this place. Of the nodes that hold it the script itself may start where the group stops, but only
  if the group is empty. -/
  | following {t : NodeRef} (behind : g.stop ≤ t.start)
      (first : ∀ r ∈ s.nodes, ¬ (g.stop ≤ r.start ∧ r.start < t.start))
      (outermost : ∀ a ∈ s.nodes, t ∈ a.preorder → a ≠ t → a.start < g.stop)
      (inside : g.start < g.stop → s.start < g.stop) : Faces s g .following t

variable {s : Script} {g : CommentGroup} {i : Nat}

/-- The container that some groups have closed last stops where the last of them starts or before. -/
theorem stop_le_of_lastClosed {met : List CommentGroup} (ho : InOrder (met ++ [g])) {m : Nat}
    {e : NodeRef} (hm : LastClosed s.nodes (met ++ [g]) m) (he : s.nodes[m]? = some e) :
    e.stop ≤ g.start := by
  obtain ⟨j, ⟨x, hx, hclose, -⟩, -⟩ := hm
  obtain ⟨r, hr, hcontainer⟩ := hclose.container
  obtain rfl : r = e := Option.some.inj (hr.symm.trans he)
  have hstop := hclose.stop_le m r (Nat.le_refl m) hclose.lt_reach hr hcontainer
  refine Position.le_trans hstop ?_
  rcases List.mem_append.mp (List.mem_of_getElem? hx) with hx | hx
  · have hxg := (List.pairwise_append.mp ho.ordered).2.2 x hx g (List.mem_singleton_self g)
    exact Position.le_trans (ho.forward x (List.mem_append_left _ hx)) hxg
  · rw [List.mem_singleton.mp hx]
    exact Position.le_refl _

/-- No group starts in front of the script. -/
theorem start_le_of_mem_comments (ho : InOrder s.comments) (hg : g ∈ s.comments) :
    s.start ≤ g.start := by
  rw [start]
  cases hc : s.comments with
  | nil => simp [hc] at hg
  | cons x rest =>
    rw [hc] at ho hg
    refine Position.le_trans (Position.min_le_right _ _) ?_
    rcases List.mem_cons.mp hg with rfl | hg
    · exact Position.le_refl _
    · exact Position.le_trans (ho.forward x List.mem_cons_self)
        (List.rel_of_pairwise_cons ho.ordered hg)

/-- Where a group belongs by the rules, it faces the node accordingly. -/
theorem faces_of_belongs (hw : s.WellNested) (ho : InOrder s.comments) {policy : Policy}
    {rule : Rule} {t : NodeRef} (hg : s.comments[i]? = some g)
    (hb : Belongs policy s.nodes (s.comments.take (i + 1)) g rule t) : s.Faces g rule t := by
  cases hb with
  | enclosing hm he _ =>
    have hmet : InOrder (s.comments.take i ++ [g]) := by
      rw [← take_comments_of_getElem? hg]
      exact inOrder_take fun h hh => ho.forward h (List.mem_of_mem_take hh)
    rw [take_comments_of_getElem? hg] at hm
    exact .enclosing (stop_le_of_lastClosed hmet hm he)
  | previous _ hpos ht _ =>
    refine .previous ((hw.start_lt_iff_lt_reach ht).mpr (by omega)) fun r hr hlt hne => ?_
    obtain ⟨j, hj⟩ := List.mem_iff_getElem?.mp hr
    have hreach := (hw.start_lt_iff_lt_reach hj).mp hlt
    have hj' : j ≠ reach s.nodes g - 1 := by
      rintro rfl
      exact hne (Option.some.inj (hj.symm.trans ht))
    exact ⟨j, reach s.nodes g - 1, by omega, hj, ht⟩
  | following _ _ ht =>
    refine .following (stop_le_of_getElem?_reach ht) ?_ ?_ ?_
    · rintro r hr ⟨hstop, hlt⟩
      obtain ⟨j, hj⟩ := List.mem_iff_getElem?.mp hr
      have hreach : ¬ j < reach s.nodes g := by
        rw [← hw.start_lt_iff_lt_reach hj, Position.lt_iff_not_le, not_not]
        exact hstop
      have hback := hw.start_le_start (Nat.not_lt.mp hreach) ht hj
      exact Position.lt_iff_not_le.mp hlt hback
    · intro a ha hta hne
      obtain ⟨j, k, hjk, hj, hk⟩ := precedes_of_mem_preorder ha hta hne
      obtain rfl := getElem?_nodes_inj hk ht
      exact start_lt_of_lt_reach hjk hj
    · exact Position.lt_of_le_of_lt (start_le_of_mem_comments ho (List.mem_of_getElem? hg))

/-- In a script whose spans nest, and in which no group runs backwards, every group is attached to a
node that it faces as the rule says. -/
theorem attached_facing (s : Script) (policy : Policy) (hc : policy.check = .ok ())
    (hw : s.WellNested) (hf : ∀ g ∈ s.comments, g.start ≤ g.stop) {i : Nat} {g : CommentGroup}
    (hg : s.comments[i]? = some g) :
    ∃ rule t, s.Attaches policy i rule t ∧ s.Faces g rule t := by
  obtain ⟨rule, t, ha⟩ := exists_attaches hc hg
  refine ⟨rule, t, ha, ?_⟩
  have htracks := tracks_cursorAt hg fun h hh => hf h (List.mem_of_mem_take hh)
  exact faces_of_belongs hw (inOrder_comments hf) hg
    (htracks.decides_iff_belongs.mp ((attaches_iff_decides hc hg).mp ha))

/-- `SELECT a` on the second line. -/
def selectBelow : Query :=
  ⟨none, .select ⟨⟨2, 1⟩, false, ⟨.unnamed (.ident ⟨"a", ⟨⟨2, 8⟩, ⟨2, 9⟩⟩⟩), []⟩, [], none, [], none⟩,
    [], none⟩

/-- A comment on the first line. -/
def headComment : CommentGroup :=
  ⟨⟨⟨"-- a", ⟨⟨1, 1⟩, ⟨1, 5⟩⟩⟩, []⟩⟩

/-- A query below a comment. -/
def headedSelect : Script where
  statements := ⟨.query selectBelow, []⟩
  comments := [headComment]
  comments_ordered := rfl

theorem nodes_headedSelect :
    headedSelect.nodes =
      [⟨⟨0, [0]⟩, .query selectBelow⟩, ⟨⟨0, [0, 0]⟩, .setExpr selectBelow.body⟩,
        ⟨⟨0, [0, 0, 0]⟩, .selectItem (.unnamed (.ident ⟨"a", ⟨⟨2, 8⟩, ⟨2, 9⟩⟩⟩))⟩,
        ⟨⟨0, [0, 0, 0, 0]⟩, .ident ⟨"a", ⟨⟨2, 8⟩, ⟨2, 9⟩⟩⟩⟩] := by
  simp [nodes, ref, NodeRef.root, NodeRef.preorder_eq, NodeRef.children, Address.child,
    headedSelect, selectBelow, Node.children, Statement.children, Query.children,
    SetExpr.children, SelectItem.children, Expr.children, Node.query, Node.ident]

theorem wellNested_headedSelect : headedSelect.WellNested := by
  refine wellNested_of_laidOut ?_
  have hpositions : (Node.query selectBelow).positions = [⟨2, 1⟩, ⟨2, 8⟩, ⟨2, 9⟩] := by
    simp [Node.positions_eq, Node.query, selectBelow, Node.layout, Statement.layout, Query.layout,
      SetExpr.layout, SelectItem.layout, Expr.layout, Layout.clause, Layout.separated,
      Layout.token, Layout.wordIf, Layout.whenSome, Piece.positions]
  show (headedSelect.ref.node.positions).Pairwise (· ≤ ·)
  rw [ref, NodeRef.root, Node.positions_script]
  show ([Statement.query selectBelow].flatMap fun t => (Node.statement t).positions).Pairwise _
  rw [List.flatMap_singleton]
  show (Node.query selectBelow).positions.Pairwise _
  rw [hpositions]
  decide

/-- The comment above a query goes to the query, and not to its body, which starts there too. -/
theorem attached_facing_headedSelect :
    Policy.standard.check = .ok () ∧ headedSelect.WellNested ∧
      (∀ g ∈ headedSelect.comments, g.start ≤ g.stop) ∧
      headedSelect.Attaches .standard 0 .following ⟨⟨0, [0]⟩, .query selectBelow⟩ ∧
      headedSelect.Faces headComment .following ⟨⟨0, [0]⟩, .query selectBelow⟩ := by
  have hf : ∀ g ∈ headedSelect.comments, g.start ≤ g.stop := by decide
  obtain ⟨rule, t, ha, hfaces⟩ :=
    attached_facing headedSelect .standard rfl wellNested_headedSelect hf (i := 0) rfl
  have hps : headedSelect.placements .standard =
      .ok [⟨⟨0, headComment⟩, .following, ⟨⟨0, [0]⟩, .query selectBelow⟩⟩] := by
    rw [placements_of_check rfl, nodes_headedSelect]
    rfl
  obtain ⟨g, hp⟩ := ha.getElem?_placements hps
  cases hp
  exact ⟨rfl, wellNested_headedSelect, hf, ha, hfaces⟩

end Script

end SqlScript
