import Mathlib.Algebra.GroupWithZero.Nat
import Mathlib.Data.List.Induction
import Mathlib.Data.List.Nodup
import SqlScript.Attachment.Placement
import SqlScript.Proofs.Node.Preorder

/-!
# What a comment index holds

An index is described by two views, `CommentIndex.lookup` and `CommentIndex.nodes`. Attaching one
group changes them in one place (`lookup_attach`, `nodes_attach`, `held_attach`), and what many
groups make up follows by induction from the last of them:

* `lookup_attachAll`: the groups of a node are those attached to it, in order;
* `groupCount_attachAll`, `sum_length_lookup_ofPlacements`: no group is lost or doubled;
* `nodup_address_nodes_attachAll`, `firstNumbers_ofPlacements`: every node is listed once, in the
  order of its first group.
-/

namespace SqlScript

namespace CommentIndex

/-! ## One group -/

theorem lookup_nil (r : NodeRef) : lookup ⟨[]⟩ r = [] := rfl

theorem lookup_cons (entry : IndexEntry) (rest : List IndexEntry) (r : NodeRef) :
    lookup ⟨entry :: rest⟩ r =
      if entry.target.same r then entry.groups.toList else lookup ⟨rest⟩ r := by
  simp only [lookup, List.find?_cons]
  cases entry.target.same r <;> rfl

theorem contains_cons (entry : IndexEntry) (rest : List IndexEntry) (r : NodeRef) :
    contains ⟨entry :: rest⟩ r = (entry.target.same r || contains ⟨rest⟩ r) := rfl

/-- A group joins the groups of its node behind all others, and leaves the other nodes alone. -/
theorem lookup_attach (index : CommentIndex) (target : NodeRef) (g : GroupRef) (r : NodeRef) :
    (index.attach target g).lookup r =
      if target.same r then index.lookup r ++ [g] else index.lookup r := by
  obtain ⟨entries⟩ := index
  simp only [attach]
  induction entries with
  | nil => simp only [attachTo, lookup_cons, lookup_nil, List.nil_append]; rfl
  | cons entry rest ih =>
    rw [attachTo]
    split
    · rename_i h
      rw [lookup_cons, lookup_cons, NodeRef.same_congr h]
      split <;> rfl
    · rename_i h
      rw [lookup_cons, lookup_cons, ih]
      split
      · rename_i hr
        have ht : ¬ target.same r = true := fun ht =>
          h (NodeRef.same_iff.mpr ((NodeRef.same_iff.mp hr).trans (NodeRef.same_iff.mp ht).symm))
        rw [if_neg ht]
      · rfl

/-- A node without an entry gets one behind all others. -/
theorem nodes_attach (index : CommentIndex) (target : NodeRef) (g : GroupRef) :
    (index.attach target g).nodes =
      if index.contains target then index.nodes else index.nodes ++ [target] := by
  obtain ⟨entries⟩ := index
  simp only [attach, nodes]
  induction entries with
  | nil => rfl
  | cons entry rest ih =>
    rw [attachTo, contains_cons]
    cases h : entry.target.same target with
    | true => rfl
    | false =>
      simp only [Bool.false_eq_true, if_false, List.map_cons, ih, Bool.false_or]
      split <;> rfl

/-- The groups of all entries, entry by entry. -/
def held (index : CommentIndex) : List GroupRef :=
  index.entries.flatMap (·.groups.toList)

/-- Attaching a group adds it to those that are held, wherever its entry stands. -/
theorem held_attach (index : CommentIndex) (target : NodeRef) (g : GroupRef) :
    (index.attach target g).held.Perm (index.held ++ [g]) := by
  obtain ⟨entries⟩ := index
  simp only [attach, held]
  induction entries with
  | nil => exact .refl _
  | cons entry rest ih =>
    rw [attachTo]
    split
    · simp only [List.flatMap_cons, NonEmptyList.toList_push, List.append_assoc]
      exact List.perm_append_comm.append_left _
    · simp only [List.flatMap_cons, List.append_assoc]
      exact ih.append_left _

theorem groupCount_attach (index : CommentIndex) (target : NodeRef) (g : GroupRef) :
    (index.attach target g).groupCount = index.groupCount + 1 := by
  have hlength := (index.held_attach target g).length_eq
  rw [List.length_append] at hlength
  exact hlength

/-- The nodes that are listed are those that have a group. -/
theorem contains_iff_lookup_ne_nil (index : CommentIndex) (r : NodeRef) :
    index.contains r = true ↔ index.lookup r ≠ [] := by
  obtain ⟨entries⟩ := index
  induction entries with
  | nil => simp [contains, lookup_nil]
  | cons entry rest ih =>
    rw [contains_cons, lookup_cons]
    cases entry.target.same r with
    | true => simp [NonEmptyList.toList_ne_nil]
    | false => simpa using ih

theorem contains_iff_exists_mem_nodes (index : CommentIndex) (r : NodeRef) :
    index.contains r = true ↔ ∃ n ∈ index.nodes, n.same r = true := by
  simp [contains, nodes]

theorem contains_of_mem_nodes {index : CommentIndex} {r : NodeRef} (h : r ∈ index.nodes) :
    index.contains r = true :=
  (index.contains_iff_exists_mem_nodes r).mpr ⟨r, h, NodeRef.same_iff.mpr rfl⟩

/-- The first group of a node stays its first. -/
theorem head?_lookup_attach {index : CommentIndex} {r : NodeRef} (h : index.contains r = true)
    (target : NodeRef) (g : GroupRef) :
    ((index.attach target g).lookup r).head? = (index.lookup r).head? := by
  rw [contains_iff_lookup_ne_nil] at h
  rw [lookup_attach]
  split
  · exact List.head?_append_of_ne_nil _ h
  · rfl

/-- A node that has no entry yet is listed once. -/
theorem nodup_address_nodes_attach {index : CommentIndex}
    (h : (index.nodes.map (·.address)).Nodup) (target : NodeRef) (g : GroupRef) :
    ((index.attach target g).nodes.map (·.address)).Nodup := by
  rw [nodes_attach]
  split
  · exact h
  · rename_i hc
    rw [List.map_append, List.map_singleton, List.nodup_append']
    refine ⟨h, List.nodup_singleton _, ?_⟩
    rw [List.disjoint_singleton, List.mem_map]
    rintro ⟨n, hn, ha⟩
    exact hc ((contains_iff_exists_mem_nodes _ _).mpr ⟨n, hn, NodeRef.same_iff.mpr ha⟩)

/-! ## Many groups -/

/-- Attaches groups to nodes, one after the other. -/
def attachAll (index : CommentIndex) (pairs : List (NodeRef × GroupRef)) : CommentIndex :=
  pairs.foldl (fun index p => index.attach p.1 p.2) index

theorem attachAll_attach (index : CommentIndex) (pairs : List (NodeRef × GroupRef))
    (p : NodeRef × GroupRef) :
    index.attachAll (pairs ++ [p]) = (index.attachAll pairs).attach p.1 p.2 := by
  simp [attachAll]

/-- The groups of a node are those attached to it, in order. -/
theorem lookup_attachAll (index : CommentIndex) (pairs : List (NodeRef × GroupRef)) (r : NodeRef) :
    (index.attachAll pairs).lookup r =
      index.lookup r ++ (pairs.filter (·.1.same r)).map (·.2) := by
  induction pairs using List.reverseRecOn with
  | nil => exact (List.append_nil _).symm
  | append_singleton pairs p ih =>
    rw [attachAll_attach, lookup_attach, ih, List.filter_append, List.map_append]
    cases h : p.1.same r <;> simp [h]

theorem groupCount_attachAll (index : CommentIndex) (pairs : List (NodeRef × GroupRef)) :
    (index.attachAll pairs).groupCount = index.groupCount + pairs.length := by
  induction pairs using List.reverseRecOn with
  | nil => rfl
  | append_singleton pairs p ih =>
    rw [attachAll_attach, groupCount_attach, ih, List.length_append, List.length_singleton,
      Nat.add_assoc]

/-- No node is listed twice. -/
theorem nodup_address_nodes_attachAll (pairs : List (NodeRef × GroupRef)) :
    ((empty.attachAll pairs).nodes.map (·.address)).Nodup := by
  induction pairs using List.reverseRecOn with
  | nil => exact List.nodup_nil
  | append_singleton pairs p ih =>
    rw [attachAll_attach]
    exact nodup_address_nodes_attach ih p.1 p.2

/-! ## Lists of placements -/

theorem ofPlacements_eq_attachAll (ps : List Placement) :
    ofPlacements ps = empty.attachAll (ps.map fun p => (p.target, p.group)) := by
  rw [ofPlacements, attachAll, List.foldl_map]

theorem ofPlacements_concat (ps : List Placement) (p : Placement) :
    ofPlacements (ps ++ [p]) = (ofPlacements ps).attach p.target p.group := by
  simp [ofPlacements]

/-- The groups of a node are those placed at it, in order. -/
theorem lookup_ofPlacements (ps : List Placement) (r : NodeRef) :
    (ofPlacements ps).lookup r = (ps.filter (·.target.same r)).map (·.group) := by
  rw [ofPlacements_eq_attachAll, lookup_attachAll, List.filter_map, List.map_map]
  rfl

theorem groupCount_ofPlacements (ps : List Placement) :
    (ofPlacements ps).groupCount = ps.length := by
  rw [ofPlacements_eq_attachAll, groupCount_attachAll, List.length_map]
  exact Nat.zero_add _

theorem exists_placement_of_mem_nodes {ps : List Placement} {r : NodeRef}
    (h : r ∈ (ofPlacements ps).nodes) : ∃ p ∈ ps, p.target = r := by
  induction ps using List.reverseRecOn with
  | nil => cases h
  | append_singleton ps p ih =>
    rw [ofPlacements_concat, nodes_attach] at h
    have hr : r ∈ (ofPlacements ps).nodes ∨ r = p.target := by
      split at h
      · exact .inl h
      · simpa using h
    rcases hr with hr | rfl
    · obtain ⟨q, hq, rfl⟩ := ih hr
      exact ⟨q, List.mem_append_left _ hq, rfl⟩
    · exact ⟨p, by simp, rfl⟩

/-- No node is listed twice. -/
theorem nodup_address_nodes_ofPlacements (ps : List Placement) :
    ((ofPlacements ps).nodes.map (·.address)).Nodup := by
  rw [ofPlacements_eq_attachAll]
  exact nodup_address_nodes_attachAll _

/-- Nodes are listed in the order of their first groups, if groups are placed in the order of their
numbers. -/
theorem firstNumbers_ofPlacements {ps : List Placement}
    (h : (ps.map (·.group.number)).Pairwise (· < ·)) :
    ∃ firsts : List Nat,
      (ofPlacements ps).nodes.map (fun r => ((ofPlacements ps).lookup r).head?.map (·.number)) =
        firsts.map some ∧
      firsts.Pairwise (· < ·) := by
  induction ps using List.reverseRecOn with
  | nil => exact ⟨[], rfl, .nil⟩
  | append_singleton ps p ih =>
    rw [List.map_append, List.map_singleton, List.pairwise_append] at h
    obtain ⟨hps, -, hlast⟩ := h
    obtain ⟨firsts, hf, hp⟩ := ih hps
    have hold : (ofPlacements ps).nodes.map
        (fun r => (((ofPlacements ps).attach p.target p.group).lookup r).head?.map (·.number)) =
        firsts.map some := by
      rw [← hf]
      refine List.map_congr_left fun r hr => ?_
      rw [head?_lookup_attach (contains_of_mem_nodes hr)]
    rw [ofPlacements_concat, nodes_attach]
    split
    · exact ⟨firsts, hold, hp⟩
    · rename_i hc
      refine ⟨firsts ++ [p.group.number], ?_, ?_⟩
      · rw [contains_iff_lookup_ne_nil, not_not] at hc
        rw [List.map_append, hold, List.map_append, List.map_singleton, List.map_singleton,
          lookup_attach, if_pos (NodeRef.same_iff.mpr rfl), hc]
        rfl
      · rw [List.pairwise_append]
        refine ⟨hp, List.pairwise_singleton _ _, ?_⟩
        intro a ha b hb
        refine hlast a ?_ b hb
        -- A first number is the number of a group that has been placed.
        have : some a ∈ firsts.map some := List.mem_map_of_mem ha
        rw [← hf, List.mem_map] at this
        obtain ⟨r, -, hr⟩ := this
        rw [Option.map_eq_some_iff] at hr
        obtain ⟨g, hg, rfl⟩ := hr
        have hg := List.mem_of_head? hg
        rw [lookup_ofPlacements, List.mem_map] at hg
        obtain ⟨q, hq, rfl⟩ := hg
        exact List.mem_map_of_mem (List.mem_of_mem_filter hq)

/-- A group that is placed once is attached where it is placed, and nowhere else. -/
theorem mem_lookup_ofPlacements_iff {ps : List Placement}
    (h : (ps.map (·.group.number)).Pairwise (· < ·)) {p : Placement} (hp : p ∈ ps) (r : NodeRef) :
    p.group ∈ (ofPlacements ps).lookup r ↔ r.same p.target = true := by
  rw [lookup_ofPlacements, List.mem_map]
  constructor
  · rintro ⟨q, hq, hg⟩
    obtain ⟨hq, hs⟩ := List.mem_filter.mp hq
    have : q = p := List.inj_on_of_nodup_map (h.imp Nat.ne_of_lt) hq hp (by rw [hg])
    rw [NodeRef.same_comm, ← this]
    exact hs
  · intro hr
    exact ⟨p, List.mem_filter.mpr ⟨hp, by rwa [NodeRef.same_comm]⟩, rfl⟩

section Nodes

variable {nodes : List NodeRef} {ps : List Placement}

/-- Of nodes with different addresses, those are listed that have a group. -/
theorem mem_nodes_ofPlacements_iff (hn : (nodes.map (·.address)).Nodup)
    (ht : ∀ p ∈ ps, p.target ∈ nodes) (r : NodeRef) :
    r ∈ (ofPlacements ps).nodes ↔ r ∈ nodes ∧ (ofPlacements ps).lookup r ≠ [] := by
  rw [← contains_iff_lookup_ne_nil]
  constructor
  · intro hr
    obtain ⟨p, hp, rfl⟩ := exists_placement_of_mem_nodes hr
    exact ⟨ht p hp, contains_of_mem_nodes hr⟩
  · rintro ⟨hr, hc⟩
    obtain ⟨n, hm, hs⟩ := (contains_iff_exists_mem_nodes _ _).mp hc
    obtain ⟨p, hp, rfl⟩ := exists_placement_of_mem_nodes hm
    have := List.inj_on_of_nodup_map hn (ht p hp) hr (NodeRef.same_iff.mp hs)
    rwa [← this]

/-- A placement counts once for each reference to its target. -/
theorem sum_length_filter_cons (p : Placement) (ps : List Placement) (nodes : List NodeRef) :
    (nodes.map fun r => ((p :: ps).filter (·.target.same r)).length).sum =
      nodes.countP (p.target.same ·) +
        (nodes.map fun r => (ps.filter (·.target.same r)).length).sum := by
  induction nodes with
  | nil => rfl
  | cons r nodes ih =>
    rw [List.map_cons, List.sum_cons, ih, List.countP_cons, List.map_cons, List.sum_cons,
      List.filter_cons]
    split
    · rw [List.length_cons]
      omega
    · omega

theorem countP_same_eq_one (hn : (nodes.map (·.address)).Nodup) {t : NodeRef} (ht : t ∈ nodes) :
    nodes.countP (t.same ·) = 1 := by
  have hmem : t.address ∈ nodes.map (·.address) := List.mem_map_of_mem ht
  rw [← List.count_eq_one_of_mem hn hmem, List.count, List.countP_map]
  refine List.countP_congr fun r _ => ?_
  rw [NodeRef.same_comm]
  rfl

/-- Counted over nodes with different addresses, there are as many groups as placements. -/
theorem sum_length_lookup_ofPlacements (hn : (nodes.map (·.address)).Nodup)
    (ht : ∀ p ∈ ps, p.target ∈ nodes) :
    (nodes.map fun r => ((ofPlacements ps).lookup r).length).sum = ps.length := by
  simp only [lookup_ofPlacements, List.length_map]
  induction ps with
  | nil => simp
  | cons p ps ih =>
    rw [sum_length_filter_cons, countP_same_eq_one hn (ht p List.mem_cons_self),
      ih fun q hq => ht q (List.mem_cons_of_mem _ hq), List.length_cons]
    omega

end Nodes

end CommentIndex

end SqlScript
