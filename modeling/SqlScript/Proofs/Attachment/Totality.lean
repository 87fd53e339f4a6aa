import SqlScript.Proofs.Attachment.Cursor
import SqlScript.Proofs.Attachment.Index

/-!
# Every comment group is attached once

Whatever the positions in a script are, each of its comment groups is attached to one node of one
statement. Building an index fails with a contradictory policy, and for no other reason.

* `Script.exists_placements`: there is one placement for each group;
* `Script.Attaches`: where a policy has one group attached, and by which rule;
* `CommentIndex.Partitions`: what it means that an index attaches every group once;
* `Script.commentIndex_partitions`: every index of a script does.
-/

namespace SqlScript

namespace Script

/-! ## The nodes and groups of a script -/

theorem mem_nodes_iff {s : Script} {r : NodeRef} :
    r ∈ s.nodes ↔ ∃ t ∈ s.ref.children, r ∈ t.preorder := by
  rw [nodes, List.mem_flatMap]

theorem length_statements_ref (s : Script) :
    s.ref.children.length = s.statements.length := by
  simp [ref, NodeRef.children, NodeRef.root, Node.children]

theorem nodes_ne_nil (s : Script) : s.nodes ≠ [] := by
  have h : s.ref.children ≠ [] := by
    rw [Ne, ← List.length_eq_zero_iff, length_statements_ref]
    exact Nat.succ_ne_zero _
  obtain ⟨t, ht⟩ := List.exists_mem_of_ne_nil _ h
  exact List.ne_nil_of_mem (mem_nodes_iff.mpr ⟨t, ht, t.mem_preorder_self⟩)

/-- No address occurs twice among the nodes of a script. -/
theorem nodup_address_nodes (s : Script) : (s.nodes.map (·.address)).Nodup :=
  NodeRef.nodup_address_flatMap_children fun t _ => t.nodup_address_preorder

/-- A node has one place in the list of all nodes. -/
theorem getElem?_nodes_inj {s : Script} {j k : Nat} {r : NodeRef} (hj : s.nodes[j]? = some r)
    (hk : s.nodes[k]? = some r) : j = k := by
  have hnodup : s.nodes.Nodup := .of_map _ s.nodup_address_nodes
  exact (List.getElem?_inj (List.getElem?_eq_some_iff.mp hj).1 hnodup).mp (hj.trans hk.symm)

/-- A node belongs to one statement. -/
theorem existsUnique_statement {s : Script} {r : NodeRef} (h : r ∈ s.nodes) :
    ∃! k : Nat, ∃ t : NodeRef, s.ref.children[k]? = some t ∧ r ∈ t.preorder := by
  obtain ⟨t, ht, hr⟩ := mem_nodes_iff.mp h
  obtain ⟨k, hk⟩ := List.mem_iff_getElem?.mp ht
  refine ⟨k, ⟨t, hk, hr⟩, ?_⟩
  rintro j ⟨u, hj, hu⟩
  exact NodeRef.child_eq_of_mem_preorder hj hk hu hr rfl

theorem getElem?_groups (s : Script) (i : Nat) :
    s.groups[i]? = s.comments[i]?.map fun g => ⟨i, g⟩ := by
  rw [groups, List.getElem?_mapIdx]

theorem map_group_groups (s : Script) : s.groups.map (·.group) = s.comments := by
  refine List.ext_getElem (by simp [groups]) fun i _ _ => ?_
  simp [groups]

theorem mem_groups_iff {s : Script} {g : GroupRef} :
    g ∈ s.groups ↔ s.comments[g.number]? = some g.group := by
  rw [List.mem_iff_getElem?]
  constructor
  · rintro ⟨i, hi⟩
    rw [getElem?_groups, Option.map_eq_some_iff] at hi
    obtain ⟨c, hc, rfl⟩ := hi
    exact hc
  · intro h
    refine ⟨g.number, ?_⟩
    rw [getElem?_groups, h, Option.map_some]

/-- Groups are numbered in their order. -/
theorem pairwise_number_groups (s : Script) : (s.groups.map (·.number)).Pairwise (· < ·) := by
  have h : s.groups.map (·.number) = List.range s.comments.length := by
    refine List.ext_getElem (by simp [groups]) fun i _ _ => ?_
    simp [groups]
  rw [h]
  exact List.pairwise_lt_range

/-! ## Placements -/

theorem placements_of_check {policy : Policy} (h : policy.check = .ok ()) (s : Script) :
    s.placements policy = placeAmong policy {} s.nodes s.groups := by
  rw [placements, h]
  show (if s.comments.isEmpty then _ else _) = _
  split
  · rename_i he
    rw [List.isEmpty_iff] at he
    rw [groups, he, List.mapIdx_nil, placeAmong_nil]
  · rfl

/-- Under a consistent policy there is one placement for each group, at a node of the script. -/
theorem exists_placements {policy : Policy} (h : policy.check = .ok ()) (s : Script) :
    ∃ ps, s.placements policy = .ok ps ∧ ps.map (·.group) = s.groups ∧
      ∀ p ∈ ps, p.target ∈ s.nodes := by
  rw [placements_of_check h]
  exact SqlScript.exists_placements (Cursor.standsAt_start s.nodes) s.nodes_ne_nil policy s.groups

theorem pairwise_number_placements {s : Script} {ps : List Placement}
    (hg : ps.map (·.group) = s.groups) : (ps.map (·.group.number)).Pairwise (· < ·) := by
  have h := s.pairwise_number_groups
  rwa [← hg, List.map_map] at h

theorem length_placements {s : Script} {ps : List Placement}
    (hg : ps.map (·.group) = s.groups) : ps.length = s.comments.length := by
  rw [← List.length_map (·.group), hg, groups, List.length_mapIdx]

/-- Where the pass stands once it has met group number `i`. -/
def cursorAt (s : Script) (i : Nat) : Cursor :=
  Cursor.after ⟨{}, s.nodes⟩ (s.comments.take (i + 1))

theorem take_comments_of_getElem? {s : Script} {i : Nat} {g : CommentGroup}
    (hg : s.comments[i]? = some g) : s.comments.take (i + 1) = s.comments.take i ++ [g] := by
  rw [List.take_add_one, hg]
  rfl

theorem exists_standsAt_cursorAt (s : Script) (i : Nat) :
    ∃ j, (s.cursorAt i).StandsAt s.nodes j :=
  (Cursor.standsAt_start s.nodes).after _

/-- No group is met behind a node that starts where the group stops or later. -/
theorem stop_le_next_cursorAt {s : Script} {i : Nat} {g : CommentGroup}
    (hg : s.comments[i]? = some g) {x : NodeRef} (hx : (s.cursorAt i).next = some x) :
    g.stop ≤ x.start := by
  rw [cursorAt, take_comments_of_getElem? hg, Cursor.after_concat] at hx
  have h := Cursor.stop_le_meet (Cursor.after ⟨{}, s.nodes⟩ (s.comments.take i)) g
  rwa [hx] at h

/-- Each group has a placement, which is what the rules decide where the pass meets the group. -/
theorem exists_decides {s : Script} {policy : Policy} {ps : List Placement}
    (hc : policy.check = .ok ()) (hps : s.placements policy = .ok ps) {i : Nat} {g : CommentGroup}
    (hg : s.comments[i]? = some g) :
    ∃ rule r, ps[i]? = some ⟨⟨i, g⟩, rule, r⟩ ∧
      Decides policy (s.cursorAt i).surroundings (s.cursorAt i).next g.span rule r := by
  have hi : i < ps.length := by
    obtain ⟨qs, hqs, hgroups, -⟩ := exists_placements hc s
    obtain rfl : ps = qs := Except.ok.inj (hps.symm.trans hqs)
    rw [length_placements hgroups]
    exact (List.getElem?_eq_some_iff.mp hg).1
  have hp := List.getElem?_eq_getElem hi
  generalize ps[i] = p at hp
  rw [placements_of_check hc] at hps
  obtain ⟨hgroup, hd⟩ := decides_of_getElem?_placements (c := ⟨{}, s.nodes⟩) hps hp
  rw [getElem?_groups, hg, Option.map_some, Option.some.injEq] at hgroup
  rw [List.map_take, map_group_groups, ← hgroup] at hd
  obtain ⟨group, rule, r⟩ := p
  exact ⟨rule, r, hgroup ▸ hp, hd⟩

theorem commentIndex_of_placements {s : Script} {policy : Policy} {ps : List Placement}
    (h : s.placements policy = .ok ps) : s.commentIndex policy = .ok (.ofPlacements ps) := by
  rw [commentIndex, h]
  rfl

theorem commentIndex_of_check_error {policy : Policy} {e : Error} (h : policy.check = .error e)
    (s : Script) : s.commentIndex policy = .error e := by
  rw [commentIndex, placements, h]
  rfl

/-- Under a policy group number `i` is placed by a rule at a node, and the index has the group there
and nowhere else. -/
def Attaches (s : Script) (policy : Policy) (i : Nat) (rule : Rule) (r : NodeRef) : Prop :=
  ∃ g ps index, s.comments[i]? = some g ∧
    s.placements policy = .ok ps ∧ ps[i]? = some ⟨⟨i, g⟩, rule, r⟩ ∧
    s.commentIndex policy = .ok index ∧ ∀ n, ⟨i, g⟩ ∈ index.lookup n ↔ n.same r = true

theorem Attaches.getElem?_placements {s : Script} {policy : Policy} {i : Nat} {rule : Rule}
    {r : NodeRef} (h : s.Attaches policy i rule r) {ps : List Placement}
    (hps : s.placements policy = .ok ps) : ∃ g, ps[i]? = some ⟨⟨i, g⟩, rule, r⟩ := by
  obtain ⟨g, qs, -, -, hqs, hq, -⟩ := h
  obtain rfl : ps = qs := Except.ok.inj (hps.symm.trans hqs)
  exact ⟨g, hq⟩

/-- A group is attached as the rules decide where the pass meets it. -/
theorem attaches_iff_decides {s : Script} {policy : Policy} (hc : policy.check = .ok ()) {i : Nat}
    {g : CommentGroup} (hg : s.comments[i]? = some g) {rule : Rule} {r : NodeRef} :
    s.Attaches policy i rule r ↔
      Decides policy (s.cursorAt i).surroundings (s.cursorAt i).next g.span rule r := by
  obtain ⟨ps, hps, hgroups, -⟩ := exists_placements hc s
  obtain ⟨rule', r', hp, hd⟩ := exists_decides hc hps hg
  constructor
  · intro ha
    obtain ⟨g', hq⟩ := ha.getElem?_placements hps
    rw [hp] at hq
    cases hq
    exact hd
  · intro hd'
    obtain ⟨rfl, rfl⟩ := hd'.unique hd
    exact ⟨g, ps, _, hg, hps, hp, commentIndex_of_placements hps,
      CommentIndex.mem_lookup_ofPlacements_iff (pairwise_number_placements hgroups)
        (List.mem_of_getElem? hp)⟩

/-- Under a consistent policy every group is attached. -/
theorem exists_attaches {s : Script} {policy : Policy} (hc : policy.check = .ok ()) {i : Nat}
    {g : CommentGroup} (hg : s.comments[i]? = some g) :
    ∃ rule r, s.Attaches policy i rule r := by
  obtain ⟨ps, hps, -⟩ := exists_placements hc s
  obtain ⟨rule, r, -, hd⟩ := exists_decides hc hps hg
  exact ⟨rule, r, (attaches_iff_decides hc hg).mpr hd⟩

end Script

/-! ## The index -/

/-- An index attaches each comment group of a script to one node and keeps to the order of the
groups. -/
structure CommentIndex.Partitions (index : CommentIndex) (s : Script) : Prop where
  /-- A group is attached to one node, which is below one statement. -/
  target : ∀ i g, s.comments[i]? = some g → ∃ t ∈ s.nodes,
    (∃! k : Nat, ∃ root : NodeRef, s.ref.children[k]? = some root ∧ t ∈ root.preorder) ∧
    ∀ r, ⟨i, g⟩ ∈ index.lookup r ↔ r.same t = true
  /-- Only groups of the script are attached. -/
  source : ∀ r, ∀ g ∈ index.lookup r, s.comments[g.number]? = some g.group
  sum_lookup : (s.nodes.map fun r => (index.lookup r).length).sum = s.comments.length
  groupCount : index.groupCount = s.comments.length
  /-- The groups of a node are in their order, and none is there twice. -/
  lookup_increasing : ∀ r, ((index.lookup r).map (·.number)).Pairwise (· < ·)
  /-- The nodes that are listed are those that have a group. -/
  mem_nodes : ∀ r, r ∈ index.nodes ↔ r ∈ s.nodes ∧ index.lookup r ≠ []
  nodes_nodup : (index.nodes.map (·.address)).Nodup
  /-- Nodes are listed by the number of their first group. -/
  nodes_increasing : ∃ firsts : List Nat,
    index.nodes.map (fun r => (index.lookup r).head?.map (·.number)) = firsts.map some ∧
      firsts.Pairwise (· < ·)

namespace Script

/-- One placement for each group, in order and at nodes of the script, makes up a partition. -/
theorem partitions_ofPlacements {s : Script} {ps : List Placement}
    (hg : ps.map (·.group) = s.groups) (ht : ∀ p ∈ ps, p.target ∈ s.nodes) :
    (CommentIndex.ofPlacements ps).Partitions s := by
  have hnumber := pairwise_number_placements hg
  have hlength := length_placements hg
  refine ⟨?_, ?_, ?_, ?_, ?_, ?_, ?_, ?_⟩
  · intro i g hi
    have hm : (⟨i, g⟩ : GroupRef) ∈ ps.map (·.group) := by
      rw [hg]
      exact mem_groups_iff.mpr hi
    obtain ⟨p, hp, hpg⟩ := List.mem_map.mp hm
    refine ⟨p.target, ht p hp, existsUnique_statement (ht p hp), ?_⟩
    rw [← hpg]
    exact CommentIndex.mem_lookup_ofPlacements_iff hnumber hp
  · intro r g hl
    rw [CommentIndex.lookup_ofPlacements, List.mem_map] at hl
    obtain ⟨p, hp, rfl⟩ := hl
    rw [← mem_groups_iff, ← hg]
    exact List.mem_map_of_mem (List.mem_of_mem_filter hp)
  · rw [CommentIndex.sum_length_lookup_ofPlacements s.nodup_address_nodes ht, hlength]
  · rw [CommentIndex.groupCount_ofPlacements, hlength]
  · intro r
    rw [CommentIndex.lookup_ofPlacements, List.map_map]
    exact hnumber.sublist (List.filter_sublist.map _)
  · exact CommentIndex.mem_nodes_ofPlacements_iff s.nodup_address_nodes ht
  · exact CommentIndex.nodup_address_nodes_ofPlacements ps
  · exact CommentIndex.firstNumbers_ofPlacements hnumber

/-- Building an index succeeds under every consistent policy and fails under no other, so no group
is left without a node; and what it gives attaches every group once. -/
theorem commentIndex_partitions (s : Script) (policy : Policy) :
    ((∃ index, s.commentIndex policy = .ok index) ↔ policy.check = .ok ()) ∧
    (∀ p, s.commentIndex policy ≠ .error (.unattachedComment p)) ∧
    ∀ index, s.commentIndex policy = .ok index → index.Partitions s := by
  cases hc : policy.check with
  | error e =>
    have he : e = .contradictoryPolicy := by
      rw [Policy.check] at hc
      split at hc <;> cases hc
      rfl
    rw [commentIndex_of_check_error hc, he]
    exact ⟨by simp, by simp, by simp⟩
  | ok u =>
    obtain ⟨ps, hps, hg, ht⟩ := exists_placements hc s
    rw [commentIndex_of_placements hps]
    refine ⟨by simp, by simp, ?_⟩
    rintro index ⟨⟩
    exact partitions_ofPlacements hg ht

end Script

end SqlScript
