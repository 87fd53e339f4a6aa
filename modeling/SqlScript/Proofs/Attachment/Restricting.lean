import SqlScript.Proofs.Attachment.Collecting

/-!
# The part of an index below a node

The part of an index below a node is built anew, group by group. What comes out are the entries of
the index whose nodes lie below that node, unchanged and in their order, because no node has two
entries:

* `CommentIndex.filter_eq`: the entries of a part;
* `CommentIndex.filter_filter_of_mem`, `CommentIndex.filter_filter_of_apart`: parts of parts;
* `CommentIndex.Restricts`: what makes an index the part of another below a node;
* `Script.commentIndex_restricts`: the parts of a script's index are such, and the parts below the
  statements make up the whole.
-/

namespace SqlScript

namespace NodeRef

/-- Of nodes that have nothing in common below them, one at most covers a node. -/
theorem countP_covers_eq_one {cs : List NodeRef} {n : NodeRef}
    (hd : cs.Pairwise fun c d =>
      List.Disjoint (c.preorder.map (·.address)) (d.preorder.map (·.address)))
    (h : ∃ c ∈ cs, c.covers n = true) : cs.countP (·.covers n) = 1 := by
  induction cs with
  | nil => simp at h
  | cons c cs ih =>
    obtain ⟨hfirst, hrest⟩ := List.pairwise_cons.mp hd
    rw [List.countP_cons]
    by_cases hc : c.covers n = true
    · have hnone : cs.countP (·.covers n) = 0 := by
        rw [List.countP_eq_zero]
        intro d hmem hdn
        obtain ⟨m, hm, hs⟩ := covers_iff.mp hc
        obtain ⟨m', hm', hs'⟩ := covers_iff.mp hdn
        exact hfirst d hmem (List.mem_map.mpr ⟨m, hm, hs⟩) (List.mem_map.mpr ⟨m', hm', hs'⟩)
      rw [hnone, if_pos hc]
    · obtain ⟨d, hmem, hdn⟩ := h
      have hd' : d ∈ cs := (List.mem_cons.mp hmem).resolve_left fun he => hc (he ▸ hdn)
      rw [ih hrest ⟨d, hd', hdn⟩, if_neg hc]

end NodeRef

namespace CommentIndex

/-! ## Building entries anew -/

section Entries

variable {entries : List IndexEntry} {target : NodeRef}

/-- The first group of a node makes a new entry behind all others. -/
theorem attachTo_of_fresh (h : ∀ e ∈ entries, e.target.same target = false) (g : GroupRef) :
    attachTo target g entries = entries ++ [⟨target, .singleton g⟩] := by
  induction entries with
  | nil => rfl
  | cons e entries ih =>
    obtain ⟨he, hrest⟩ := List.forall_mem_cons.mp h
    rw [attachTo, if_neg (by simp [he]), ih hrest, List.cons_append]

/-- A further group of the last node joins the last entry. -/
theorem attachTo_concat (h : ∀ e ∈ entries, e.target.same target = false)
    (gs : NonEmptyList GroupRef) (g : GroupRef) :
    attachTo target g (entries ++ [⟨target, gs⟩]) = entries ++ [⟨target, gs.push g⟩] := by
  induction entries with
  | nil =>
    have hsame : target.same target = true := NodeRef.same_iff.mpr rfl
    rw [List.nil_append, attachTo, if_pos hsame, List.nil_append]
  | cons e entries ih =>
    obtain ⟨he, hrest⟩ := List.forall_mem_cons.mp h
    rw [List.cons_append, attachTo, if_neg (by simp [he]), ih hrest, List.cons_append]

theorem attachAll_concat (h : ∀ e ∈ entries, e.target.same target = false)
    (gs : NonEmptyList GroupRef) (rest : List GroupRef) :
    attachAll ⟨entries ++ [⟨target, gs⟩]⟩ (rest.map (target, ·)) =
      ⟨entries ++ [⟨target, ⟨gs.head, gs.tail ++ rest⟩⟩]⟩ := by
  induction rest generalizing gs with
  | nil => simp [attachAll]
  | cons g rest ih =>
    have hstep : attachAll ⟨entries ++ [⟨target, gs⟩]⟩ ((g :: rest).map (target, ·)) =
        attachAll ⟨entries ++ [⟨target, gs.push g⟩]⟩ (rest.map (target, ·)) := by
      rw [← attachTo_concat h]
      rfl
    rw [hstep, ih]
    simp [NonEmptyList.push]

/-- Attaching all groups of an entry makes that entry. -/
theorem attachAll_groups (e : IndexEntry) (h : ∀ d ∈ entries, d.target.same e.target = false) :
    attachAll ⟨entries⟩ (e.groups.toList.map (e.target, ·)) = ⟨entries ++ [e]⟩ := by
  obtain ⟨target, first, rest⟩ := e
  have hstep : attachAll ⟨entries⟩ ((first :: rest).map (target, ·)) =
      attachAll ⟨entries ++ [⟨target, .singleton first⟩]⟩ (rest.map (target, ·)) := by
    rw [← attachTo_of_fresh h]
    rfl
  rw [NonEmptyList.toList_mk, hstep, attachAll_concat h]
  rfl

/-- Attaching the groups of entries of different nodes makes these entries. -/
theorem attachAll_flatMap {kept es : List IndexEntry}
    (h : ((kept ++ es).map (·.target.address)).Nodup) :
    attachAll ⟨kept⟩ (es.flatMap fun e => e.groups.toList.map (e.target, ·)) = ⟨kept ++ es⟩ := by
  induction es generalizing kept with
  | nil => simp [attachAll]
  | cons e es ih =>
    have hfresh : ∀ d ∈ kept, d.target.same e.target = false := by
      intro d hd
      rw [List.map_append, List.map_cons, List.nodup_append'] at h
      rw [← Bool.not_eq_true, NodeRef.same_iff]
      intro ha
      exact h.2.2 (List.mem_map_of_mem hd) (ha ▸ List.mem_cons_self)
    have hsplit : attachAll ⟨kept⟩ ((e :: es).flatMap fun e => e.groups.toList.map (e.target, ·)) =
        attachAll (attachAll ⟨kept⟩ (e.groups.toList.map (e.target, ·)))
          (es.flatMap fun e => e.groups.toList.map (e.target, ·)) := by
      simp [attachAll]
    rw [hsplit, attachAll_groups e hfresh, ih (by simpa using h)]
    simp

end Entries

section Parts

variable {index : CommentIndex}

/-- The part of an index below a node has the entries of the index whose nodes lie there. -/
theorem filter_eq (hn : (index.nodes.map (·.address)).Nodup) (a : NodeRef) :
    index.filter a = ⟨index.entries.filter (a.covers ·.target)⟩ := by
  have hbelow : index.nodesBelow a =
      (index.entries.filter (a.covers ·.target)).map (·.target) := by
    rw [nodesBelow, nodes, List.filter_map]
    rfl
  have hpairs : ((index.nodesBelow a).flatMap fun n => (index.lookup n).map (n, ·)) =
      (index.entries.filter (a.covers ·.target)).flatMap fun e =>
        e.groups.toList.map (e.target, ·) := by
    rw [hbelow, List.flatMap_map]
    refine List.flatMap_congr fun e he => ?_
    rw [lookup_target hn (List.mem_of_mem_filter he)]
  have hnodup : ((index.entries.filter (a.covers ·.target)).map (·.target.address)).Nodup := by
    rw [nodes, List.map_map] at hn
    exact hn.sublist (List.filter_sublist.map _)
  rw [filter_eq_attachAll, hpairs]
  exact attachAll_flatMap hnodup

theorem nodes_filter (hn : (index.nodes.map (·.address)).Nodup) (a : NodeRef) :
    (index.filter a).nodes = index.nodes.filter a.covers := by
  rw [filter_eq hn, nodes, nodes, List.filter_map]
  rfl

theorem nodup_address_nodes_filter (hn : (index.nodes.map (·.address)).Nodup) (a : NodeRef) :
    ((index.filter a).nodes.map (·.address)).Nodup := by
  rw [nodes_filter hn]
  exact hn.sublist (List.filter_sublist.map _)

/-- A part has the groups of the nodes it covers, and of no others. -/
theorem lookup_filter (hn : (index.nodes.map (·.address)).Nodup) (a n : NodeRef) :
    (index.filter a).lookup n = if a.covers n then index.lookup n else [] := by
  rw [filter_eq hn]
  obtain ⟨entries⟩ := index
  clear hn
  induction entries with
  | nil => simp [lookup_nil]
  | cons e entries ih =>
    simp only [List.filter_cons, lookup_cons]
    cases hs : e.target.same n with
    | true =>
      rw [NodeRef.covers_congr hs]
      cases hc : a.covers n with
      | true => simp [lookup_cons, hs]
      | false => simpa [hc] using ih
    | false =>
      cases hc : a.covers e.target with
      | true => simpa [lookup_cons, hs] using ih
      | false => simpa using ih

/-- A part of a part is the part of the whole, if one node lies below the other. -/
theorem filter_filter_of_mem (hn : (index.nodes.map (·.address)).Nodup) {a b : NodeRef}
    (h : b ∈ a.preorder) : (index.filter a).filter b = index.filter b := by
  rw [filter_eq (nodup_address_nodes_filter hn a), filter_eq hn, filter_eq hn, List.filter_filter]
  congr 1
  refine List.filter_congr fun e _ => ?_
  cases hb : b.covers e.target with
  | true => rw [NodeRef.covers_of_covers h hb, Bool.and_self]
  | false => rw [Bool.false_and]

/-- A part of a part is empty, if the nodes have nothing in common below them. -/
theorem filter_filter_of_apart (hn : (index.nodes.map (·.address)).Nodup) {a b : NodeRef}
    (h : ∀ n ∈ b.preorder, a.covers n = false) : (index.filter a).filter b = empty := by
  rw [filter_eq (nodup_address_nodes_filter hn a), filter_eq hn, List.filter_filter]
  congr 1
  rw [List.filter_eq_nil_iff]
  intro e _ hcovers
  obtain ⟨hb, ha⟩ := (Bool.and_eq_true _ _).mp hcovers
  obtain ⟨m, hm, hs⟩ := NodeRef.covers_iff.mp hb
  rw [← NodeRef.covers_congr (NodeRef.same_iff.mpr hs), h m hm] at ha
  cases ha

theorem filter_eq_self (hn : (index.nodes.map (·.address)).Nodup) {a : NodeRef}
    (h : ∀ n ∈ index.nodes, n ∈ a.preorder) : index.filter a = index := by
  have hall : index.entries.filter (a.covers ·.target) = index.entries := by
    rw [List.filter_eq_self]
    intro e he
    exact NodeRef.covers_of_mem (h _ (List.mem_map_of_mem he))
  rw [filter_eq hn, hall]

/-- An entry counts in the parts below the nodes that cover its own. -/
theorem sum_groupCount_cons (e : IndexEntry) (entries : List IndexEntry) (cs : List NodeRef) :
    (cs.map fun c => groupCount ⟨(e :: entries).filter (c.covers ·.target)⟩).sum =
      cs.countP (·.covers e.target) * e.groups.length +
        (cs.map fun c => groupCount ⟨entries.filter (c.covers ·.target)⟩).sum := by
  induction cs with
  | nil => simp
  | cons c cs ih =>
    have hfirst : groupCount ⟨(e :: entries).filter (c.covers ·.target)⟩ =
        (if c.covers e.target then 1 else 0) * e.groups.length +
          groupCount ⟨entries.filter (c.covers ·.target)⟩ := by
      rw [List.filter_cons]
      split <;> simp [groupCount]
    rw [List.map_cons, List.sum_cons, ih, hfirst, List.countP_cons, List.map_cons, List.sum_cons,
      Nat.add_mul]
    omega

/-- If each node of an index is covered by one of some nodes, the parts below these have all groups
of the index between them. -/
theorem sum_groupCount_filter (hn : (index.nodes.map (·.address)).Nodup) {cs : List NodeRef}
    (h : ∀ n ∈ index.nodes, cs.countP (·.covers n) = 1) :
    (cs.map fun c => (index.filter c).groupCount).sum = index.groupCount := by
  simp only [filter_eq hn]
  obtain ⟨entries⟩ := index
  clear hn
  induction entries with
  | nil => simp [groupCount]
  | cons e entries ih =>
    obtain ⟨hfirst, hrest⟩ := List.forall_mem_cons.mp h
    have hcount : groupCount ⟨e :: entries⟩ = e.groups.length + groupCount ⟨entries⟩ := by
      simp [groupCount]
    rw [sum_groupCount_cons, hfirst, ih hrest, hcount, Nat.one_mul]

end Parts

/-- An index is the part of another below a node. -/
structure Restricts (index : CommentIndex) (a : NodeRef) (part : CommentIndex) : Prop where
  lookup_inside : ∀ n ∈ a.preorder, part.lookup n = index.lookup n
  lookup_outside : ∀ n, a.covers n = false → part.lookup n = []
  /-- The nodes that lie below are listed, in the order of the whole. -/
  nodes : part.nodes = index.nodes.filter a.covers
  mem_nodes : ∀ n, n ∈ part.nodes ↔ n ∈ index.nodes ∧ n ∈ a.preorder
  filter_inside : ∀ b ∈ a.preorder, part.filter b = index.filter b
  filter_apart : ∀ b : NodeRef, (∀ n ∈ b.preorder, a.covers n = false) → part.filter b = empty

theorem restricts_filter {index : CommentIndex} {root : NodeRef}
    (hn : (index.nodes.map (·.address)).Nodup) (hroot : ∀ n ∈ index.nodes, n ∈ root.preorder)
    {a : NodeRef} (ha : a ∈ root.preorder) : index.Restricts a (index.filter a) where
  lookup_inside n h := by
    rw [lookup_filter hn, if_pos (NodeRef.covers_of_mem h)]
  lookup_outside n h := by
    rw [lookup_filter hn, h]
    rfl
  nodes := nodes_filter hn a
  mem_nodes n := by
    rw [nodes_filter hn, List.mem_filter]
    exact and_congr_right fun h => NodeRef.covers_iff_mem ha (hroot n h)
  filter_inside b h := filter_filter_of_mem hn h
  filter_apart b h := filter_filter_of_apart hn h

end CommentIndex

namespace Script

theorem nodes_subset_preorder (s : Script) : s.nodes ⊆ s.ref.preorder := by
  rw [NodeRef.preorder_eq]
  exact List.subset_cons_self _ _

/-- The nodes of an index are nodes of the script, each listed once. -/
theorem nodes_commentIndex {s : Script} {policy : Policy} {index : CommentIndex}
    (h : s.commentIndex policy = .ok index) :
    (index.nodes.map (·.address)).Nodup ∧ ∀ n ∈ index.nodes, n ∈ s.nodes := by
  cases hc : policy.check with
  | error e =>
    rw [commentIndex_of_check_error hc] at h
    cases h
  | ok u =>
    obtain ⟨ps, hps, -, ht⟩ := exists_placements hc s
    rw [commentIndex_of_placements hps] at h
    cases h
    refine ⟨CommentIndex.nodup_address_nodes_ofPlacements ps, fun n hn => ?_⟩
    obtain ⟨p, hp, rfl⟩ := CommentIndex.exists_placement_of_mem_nodes hn
    exact ht p hp

/-- What an index of a script has below each node is a part of it: the part below the whole script
is the index, and the parts below the statements have all groups between them. -/
theorem commentIndex_restricts {s : Script} {policy : Policy} {index : CommentIndex}
    (h : s.commentIndex policy = .ok index) :
    (∀ a ∈ s.ref.preorder, index.Restricts a (index.filter a)) ∧
      index.filter s.ref = index ∧
      (s.ref.children.map fun t => (index.filter t).groupCount).sum = index.groupCount := by
  obtain ⟨hnodup, hnodes⟩ := nodes_commentIndex h
  have hroot : ∀ n ∈ index.nodes, n ∈ s.ref.preorder :=
    fun n hn => s.nodes_subset_preorder (hnodes n hn)
  refine ⟨fun a ha => CommentIndex.restricts_filter hnodup hroot ha,
    CommentIndex.filter_eq_self hnodup hroot, CommentIndex.sum_groupCount_filter hnodup ?_⟩
  intro n hn
  obtain ⟨t, ht, hmem⟩ := mem_nodes_iff.mp (hnodes n hn)
  exact NodeRef.countP_covers_eq_one s.ref.pairwise_disjoint_children
    ⟨t, ht, NodeRef.covers_of_mem hmem⟩

/-- The index of `scattered` has its nodes in the two statements. The part below the first keeps the
first and the last comment, in this order, and has nothing in the second. -/
theorem commentIndex_restricts_scattered :
    ∃ index, scattered.commentIndex .standard = .ok index ∧
      ⟨⟨0, [0]⟩, .statement (.dropOnLine 1)⟩ ∈ scattered.ref.preorder ∧
      ((index.filter ⟨⟨0, [0]⟩, .statement (.dropOnLine 1)⟩).lookup
        ⟨⟨0, [0]⟩, .statement (.dropOnLine 1)⟩).map (·.number) = [0, 2] ∧
      (index.filter ⟨⟨0, [0]⟩, .statement (.dropOnLine 1)⟩).lookup
        ⟨⟨0, [1, 0]⟩, .ident ⟨"a", ⟨⟨2, 18⟩, ⟨2, 19⟩⟩⟩⟩ = [] := by
  have hindex := commentIndex_of_placements placements_scattered
  obtain ⟨hparts, -, -⟩ := commentIndex_restricts hindex
  have hmem : ⟨⟨0, [0]⟩, .statement (.dropOnLine 1)⟩ ∈ scattered.ref.preorder := by
    refine scattered.nodes_subset_preorder ?_
    rw [nodes_scattered]
    exact List.mem_cons_self
  have hpart := hparts _ hmem
  refine ⟨_, hindex, hmem, ?_, hpart.lookup_outside _ ?_⟩
  · rw [hpart.lookup_inside _ (NodeRef.mem_preorder_self _)]
    rfl
  · simp [NodeRef.covers, NodeRef.preorder_eq, NodeRef.children, Address.child, Node.children,
      Statement.children, Statement.dropOnLine, Node.ident, Expr.children, NodeRef.same]

end Script

end SqlScript
