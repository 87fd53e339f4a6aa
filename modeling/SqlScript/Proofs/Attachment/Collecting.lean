import Mathlib.Data.List.Flatten
import SqlScript.Proofs.Attachment.ClosedForm

/-!
# What an index gives back

An index scatters the groups of a script over its nodes. Nothing is lost by that: sorted by their
starts, the groups it holds are those of the script in their order, because no two of them start at
the same place. The same is true of the part of an index below a node.

* `CommentIndex.Collects`: an index gives back some groups, in whatever order its entries come;
* `CommentIndex.held_filter`: what the part below a node holds;
* `Script.commentIndex_collects`: what an index and its parts give back.
-/

namespace SqlScript

namespace CommentIndex

/-- An index gives back these groups in this order, in whatever order its entries come. -/
def Collects (index : CommentIndex) (gs : List GroupRef) : Prop :=
  ∀ entries, entries.Perm index.entries → comments ⟨entries⟩ = gs

/-- Groups that start one behind the other are given back in this order. -/
theorem collects_of_held_perm {index : CommentIndex} {gs : List GroupRef}
    (hheld : index.held.Perm gs)
    (hs : gs.Pairwise fun a b => a.group.start < b.group.start) : index.Collects gs := by
  intro entries hentries
  have hperm : (comments ⟨entries⟩).Perm gs :=
    (List.mergeSort_perm _ _).trans ((hentries.flatMap_right _).trans hheld)
  have hsorted : (comments ⟨entries⟩).Pairwise fun a b => a.group.start ≤ b.group.start := by
    refine (List.pairwise_mergeSort ?_ ?_ _).imp fun h => of_decide_eq_true h
    · intro a b c hab hbc
      exact decide_eq_true (Position.le_trans (of_decide_eq_true hab) (of_decide_eq_true hbc))
    · intro a b
      rw [Bool.or_eq_true, decide_eq_true_eq, decide_eq_true_eq]
      exact Position.le_total _ _
  have hdistinct : (gs.map (·.group.start)).Nodup := by
    refine List.pairwise_map.mpr (hs.imp ?_)
    intro a b hlt heq
    rw [heq, Position.lt_iff_not_le] at hlt
    exact hlt (Position.le_refl _)
  refine hperm.eq_of_pairwise ?_ hsorted (hs.imp Position.le_of_lt)
  intro a b ha hb hab hba
  exact List.inj_on_of_nodup_map hdistinct (hperm.mem_iff.mp ha) hb (Position.le_antisymm hab hba)

/-! ## Attaching many groups -/

theorem held_attachAll (index : CommentIndex) (pairs : List (NodeRef × GroupRef)) :
    (index.attachAll pairs).held.Perm (index.held ++ pairs.map (·.2)) := by
  induction pairs generalizing index with
  | nil => simp [attachAll]
  | cons p pairs ih =>
    refine (ih (index.attach p.1 p.2)).trans ?_
    rw [List.map_cons, List.append_cons]
    exact (index.held_attach p.1 p.2).append_right _

theorem held_ofPlacements (ps : List Placement) :
    (ofPlacements ps).held.Perm (ps.map (·.group)) := by
  rw [ofPlacements_eq_attachAll]
  have hperm := held_attachAll empty (ps.map fun p => (p.target, p.group))
  rwa [List.map_map] at hperm

/-! ## The part below a node -/

/-- The nodes of an index that lie below a node. -/
def nodesBelow (index : CommentIndex) (r : NodeRef) : List NodeRef :=
  index.nodes.filter fun n => r.preorder.any (·.same n)

theorem filter_eq_attachAll (index : CommentIndex) (r : NodeRef) :
    index.filter r =
      empty.attachAll ((index.nodesBelow r).flatMap fun n => (index.lookup n).map (n, ·)) := by
  simp only [filter, nodesBelow, attachAll, List.foldl_flatMap, List.foldl_map]

theorem held_filter (index : CommentIndex) (r : NodeRef) :
    (index.filter r).held.Perm ((index.nodesBelow r).flatMap index.lookup) := by
  rw [filter_eq_attachAll]
  have hperm := held_attachAll empty
    ((index.nodesBelow r).flatMap fun n => (index.lookup n).map (n, ·))
  simp only [List.map_flatMap, List.map_map, Function.comp_def, List.map_id'] at hperm
  exact hperm

theorem lookup_congr (index : CommentIndex) {m n : NodeRef} (h : m.same n = true) :
    index.lookup m = index.lookup n := by
  have hsame : (fun e : IndexEntry => e.target.same m) = fun e => e.target.same n := by
    funext e
    rw [NodeRef.same_comm, NodeRef.same_congr h, NodeRef.same_comm]
  rw [lookup, lookup, hsame]

/-- Where no node is listed twice, each has the groups of its entry. -/
theorem lookup_target {index : CommentIndex} (hn : (index.nodes.map (·.address)).Nodup)
    {e : IndexEntry} (he : e ∈ index.entries) : index.lookup e.target = e.groups.toList := by
  obtain ⟨entries⟩ := index
  simp only at he
  induction entries with
  | nil => cases he
  | cons d entries ih =>
    simp only [nodes, List.map_cons, List.nodup_cons] at hn
    rw [lookup_cons]
    rcases List.mem_cons.mp he with rfl | he
    · rw [if_pos (NodeRef.same_iff.mpr rfl)]
    · have hne : ¬ d.target.same e.target = true := by
        rw [NodeRef.same_iff]
        intro ha
        exact hn.1 (ha ▸ List.mem_map_of_mem (List.mem_map_of_mem he))
      rw [if_neg hne]
      exact ih hn.2 he

/-- Where no node is listed twice, an index holds the groups of its nodes. -/
theorem flatMap_lookup_nodes {index : CommentIndex} (hn : (index.nodes.map (·.address)).Nodup) :
    index.nodes.flatMap index.lookup = index.held := by
  rw [nodes, List.flatMap_map, held]
  exact List.flatMap_congr fun e he => lookup_target hn he

theorem mem_flatMap_lookup_iff (index : CommentIndex) (r : NodeRef) (g : GroupRef) :
    g ∈ (index.nodesBelow r).flatMap index.lookup ↔ ∃ m ∈ r.preorder, g ∈ index.lookup m := by
  simp only [nodesBelow, List.mem_flatMap, List.mem_filter, List.any_eq_true]
  constructor
  · rintro ⟨n, ⟨-, m, hm, hs⟩, hg⟩
    exact ⟨m, hm, index.lookup_congr hs ▸ hg⟩
  · rintro ⟨m, hm, hg⟩
    have hc := (index.contains_iff_lookup_ne_nil m).mpr (List.ne_nil_of_mem hg)
    obtain ⟨n, hn, hs⟩ := (index.contains_iff_exists_mem_nodes m).mp hc
    refine ⟨n, ⟨hn, m, hm, ?_⟩, index.lookup_congr hs ▸ hg⟩
    rwa [NodeRef.same_comm]

/-- The part of an index below a node holds those groups that are attached there. -/
theorem held_filter_perm {index : CommentIndex} {gs : List GroupRef}
    (hn : (index.nodes.map (·.address)).Nodup) (hheld : index.held.Perm gs) (hgs : gs.Nodup)
    (r : NodeRef) :
    (index.filter r).held.Perm
      (gs.filter fun g => r.preorder.any fun n => decide (g ∈ index.lookup n)) := by
  refine (index.held_filter r).trans ?_
  have hsub : ((index.nodesBelow r).flatMap index.lookup).Sublist index.held := by
    rw [← flatMap_lookup_nodes hn]
    exact List.filter_sublist.flatMap _
  rw [List.perm_ext_iff_of_nodup ((hheld.nodup_iff.mpr hgs).sublist hsub) (hgs.filter _)]
  intro g
  rw [List.mem_filter, List.any_eq_true]
  simp only [decide_eq_true_eq, ← mem_flatMap_lookup_iff]
  exact ⟨fun hg => ⟨hheld.mem_iff.mp (hsub.subset hg), hg⟩, fun hg => hg.2⟩

end CommentIndex

namespace Script

/-- If every group stops behind its start, groups start one behind the other. -/
theorem pairwise_start_groups {s : Script} (hf : ∀ g ∈ s.comments, g.start < g.stop) :
    s.groups.Pairwise fun a b => a.group.start < b.group.start := by
  have ho := inOrder_comments fun g hg => Position.le_of_lt (hf g hg)
  have hstart : s.comments.Pairwise fun a b => a.start < b.start :=
    ho.ordered.imp_of_mem fun ha _ hab => Position.lt_of_lt_of_le (hf _ ha) hab
  rwa [← map_group_groups, List.pairwise_map] at hstart

/-- If every group of a script stops behind its start, an index of the script gives back its groups
in their order, and the part of the index below a node gives back those attached there in the same
order. -/
theorem commentIndex_collects (s : Script) (policy : Policy) (hc : policy.check = .ok ())
    (hf : ∀ g ∈ s.comments, g.start < g.stop) :
    ∃ index, s.commentIndex policy = .ok index ∧ index.Collects s.groups ∧
      ∀ r, (index.filter r).Collects
        (s.groups.filter fun g => r.preorder.any fun n => decide (g ∈ index.lookup n)) := by
  obtain ⟨ps, hps, hgroups, -⟩ := exists_placements hc s
  have hheld := CommentIndex.held_ofPlacements ps
  rw [hgroups] at hheld
  have hs := pairwise_start_groups hf
  have hnodup : s.groups.Nodup := .of_map _ (s.pairwise_number_groups.imp Nat.ne_of_lt)
  refine ⟨_, commentIndex_of_placements hps, CommentIndex.collects_of_held_perm hheld hs, ?_⟩
  intro r
  have hpart := CommentIndex.held_filter_perm
    (CommentIndex.nodup_address_nodes_ofPlacements ps) hheld hnodup r
  exact CommentIndex.collects_of_held_perm hpart (hs.filter _)

/-- `DROP INDEX a, b` on the second line and, after two empty lines, the fifth. -/
def dropBelow : Statement :=
  .dropIndex ⟨⟨2, 1⟩, ⟨⟨"a", ⟨⟨2, 18⟩, ⟨2, 19⟩⟩⟩, [⟨"b", ⟨⟨5, 1⟩, ⟨5, 2⟩⟩⟩]⟩⟩

/-- A comment of four columns. -/
def shortComment (line column : UInt32) : CommentGroup :=
  ⟨⟨⟨"/**/", ⟨⟨line, column⟩, ⟨line, column + 4⟩⟩⟩, []⟩⟩

/-- Two statements with a comment behind the first and two in the second, on both sides of `a`. -/
def scattered : Script where
  statements := ⟨.dropOnLine 1, [dropBelow]⟩
  comments := [shortComment 1 15, shortComment 2 12, shortComment 2 20]
  comments_ordered := rfl

theorem nodes_scattered :
    scattered.nodes =
      [⟨⟨0, [0]⟩, .statement (.dropOnLine 1)⟩, ⟨⟨0, [0, 0]⟩, .ident ⟨"a", ⟨⟨1, 12⟩, ⟨1, 13⟩⟩⟩⟩,
        ⟨⟨0, [1]⟩, .statement dropBelow⟩, ⟨⟨0, [1, 0]⟩, .ident ⟨"a", ⟨⟨2, 18⟩, ⟨2, 19⟩⟩⟩⟩,
        ⟨⟨0, [1, 1]⟩, .ident ⟨"b", ⟨⟨5, 1⟩, ⟨5, 2⟩⟩⟩⟩] := by
  simp [nodes, ref, NodeRef.root, NodeRef.preorder_eq, NodeRef.children, Address.child,
    scattered, dropBelow, Node.children, Statement.children, Statement.dropOnLine, Node.ident,
    Expr.children]

/-- The first statement has the first comment and the last, the second statement's `a` the one
between them. -/
theorem placements_scattered :
    scattered.placements .standard =
      .ok [⟨⟨0, shortComment 1 15⟩, .enclosing, ⟨⟨0, [0]⟩, .statement (.dropOnLine 1)⟩⟩,
        ⟨⟨1, shortComment 2 12⟩, .following, ⟨⟨0, [1, 0]⟩, .ident ⟨"a", ⟨⟨2, 18⟩, ⟨2, 19⟩⟩⟩⟩⟩,
        ⟨⟨2, shortComment 2 20⟩, .enclosing, ⟨⟨0, [0]⟩, .statement (.dropOnLine 1)⟩⟩] := by
  rw [placements_of_check rfl, nodes_scattered]
  rfl

/-- The index of `scattered` holds the comments in another order than the script, and gives them back
in that of the script. -/
theorem commentIndex_collects_scattered :
    Policy.standard.check = .ok () ∧ (∀ g ∈ scattered.comments, g.start < g.stop) ∧
      ∃ index, scattered.commentIndex .standard = .ok index ∧
        index.held.map (·.number) = [0, 2, 1] ∧
        index.comments.map (·.number) = [0, 1, 2] ∧
        (index.filter ⟨⟨0, [0]⟩, .statement (.dropOnLine 1)⟩).comments.map (·.number) = [0, 2] := by
  have hf : ∀ g ∈ scattered.comments, g.start < g.stop := by decide
  obtain ⟨index, hindex, hall, hpart⟩ := commentIndex_collects scattered .standard rfl hf
  refine ⟨rfl, hf, index, hindex, ?_⟩
  rw [commentIndex_of_placements placements_scattered] at hindex
  obtain rfl := Except.ok.inj hindex
  have hpreorder : NodeRef.preorder ⟨⟨0, [0]⟩, .statement (.dropOnLine 1)⟩ =
      [⟨⟨0, [0]⟩, .statement (.dropOnLine 1)⟩,
        ⟨⟨0, [0, 0]⟩, .ident ⟨"a", ⟨⟨1, 12⟩, ⟨1, 13⟩⟩⟩⟩] := by
    simp [NodeRef.preorder_eq, NodeRef.children, Address.child, Node.children, Statement.children,
      Statement.dropOnLine, Node.ident, Expr.children]
  have hcomments := hall _ (.refl _)
  have hfirst := hpart ⟨⟨0, [0]⟩, .statement (.dropOnLine 1)⟩ _ (.refl _)
  rw [hpreorder] at hfirst
  refine ⟨rfl, ?_, ?_⟩
  · rw [hcomments]
    rfl
  · rw [hfirst]
    rfl

end Script

end SqlScript
