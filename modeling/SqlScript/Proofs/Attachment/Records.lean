import SqlScript.Proofs.Attachment.Restricting

/-!
# What an index records of its history

An index is built by attaching groups to nodes, call by call. Whatever the calls were, it records
which groups each node was given, and in which order. It may be kept in two parts, a table by place
and the nodes in the order of their first groups, of which a call changes one or both; the two stay
in step:

* `CommentIndex.Records`: what an index says of the calls that built it;
* `CommentTable.Represents`: a table with its nodes says the same as an index;
* `CommentTable.Represents.attach`: one call keeps the two in step;
* `CommentIndex.attachAll_records`: every index that is built by calls records them; those of
  scripts and all parts of parts of these are such indexes.
-/

namespace SqlScript

/-! ## Calls and what they leave -/

namespace CommentIndex

/-- An index says of the calls that built it what group was attached to which node. -/
structure Records (index : CommentIndex) (calls : List (NodeRef × GroupRef)) : Prop where
  /-- No node is listed twice. -/
  distinct : (index.nodes.map (·.address)).Nodup
  /-- The nodes that are contained are those that have a group. -/
  contains_iff : ∀ r, index.contains r = true ↔ index.lookup r ≠ []
  /-- The nodes that are contained are those that are listed. -/
  listed_iff : ∀ r, index.contains r = true ↔ ∃ n ∈ index.nodes, n.same r = true
  /-- A node has the groups that it was given, in the order of the calls. -/
  lookup_eq : ∀ r, index.lookup r = (calls.filter (·.1.same r)).map (·.2)
  /-- What is attached to one node changes nothing for the others. -/
  lookup_other : ∀ (target r : NodeRef) (g : GroupRef), target.same r = false →
    (index.attach target g).lookup r = index.lookup r
  groupCount_nodes : index.groupCount = (index.nodes.map fun r => (index.lookup r).length).sum
  groupCount_calls : index.groupCount = calls.length
  size_le : index.size ≤ index.groupCount
  isEmpty_iff : index.isEmpty = true ↔ index.groupCount = 0
  /-- Each node that is listed is given with its groups. -/
  toList_eq : index.toList = index.nodes.map fun r => (r, index.lookup r)

theorem contains_attach (index : CommentIndex) (target : NodeRef) (g : GroupRef) (r : NodeRef) :
    (index.attach target g).contains r = (target.same r || index.contains r) := by
  rw [Bool.eq_iff_iff, Bool.or_eq_true, contains_iff_lookup_ne_nil, contains_iff_lookup_ne_nil,
    lookup_attach]
  cases target.same r <;> simp

theorem size_le_groupCount (index : CommentIndex) : index.size ≤ index.groupCount := by
  obtain ⟨entries⟩ := index
  simp only [size, groupCount]
  induction entries with
  | nil => exact Nat.le_refl 0
  | cons e entries ih =>
    rw [List.length_cons, List.flatMap_cons, List.length_append, NonEmptyList.length_toList]
    have hpos : 0 < e.groups.length := Nat.succ_pos _
    omega

theorem isEmpty_iff_groupCount (index : CommentIndex) :
    index.isEmpty = true ↔ index.groupCount = 0 := by
  have hsize := index.size_le_groupCount
  rw [isEmpty, List.isEmpty_iff_length_eq_zero]
  refine ⟨fun h => ?_, fun h => ?_⟩
  · rw [groupCount, List.length_eq_zero_iff.mp h]
    rfl
  · rw [size] at hsize
    omega

/-- Where no node is listed twice, the groups of its nodes are all groups of an index. -/
theorem groupCount_eq_sum {index : CommentIndex} (hn : (index.nodes.map (·.address)).Nodup) :
    index.groupCount = (index.nodes.map fun r => (index.lookup r).length).sum := by
  rw [← List.length_flatMap, flatMap_lookup_nodes hn]
  rfl

/-- Every index that is built by calls records them. -/
theorem records_attachAll (calls : List (NodeRef × GroupRef)) :
    (empty.attachAll calls).Records calls where
  distinct := nodup_address_nodes_attachAll calls
  contains_iff := contains_iff_lookup_ne_nil _
  listed_iff := contains_iff_exists_mem_nodes _
  lookup_eq := lookup_attachAll empty calls
  lookup_other target r g h := by rw [lookup_attach, h, if_neg Bool.false_ne_true]
  groupCount_nodes := groupCount_eq_sum (nodup_address_nodes_attachAll calls)
  groupCount_calls := (groupCount_attachAll empty calls).trans (Nat.zero_add _)
  size_le := size_le_groupCount _
  isEmpty_iff := isEmpty_iff_groupCount _
  toList_eq := rfl

end CommentIndex

/-! ## The two parts -/

instance : Hashable Address where
  hash a := hash (a.tree, a.path)

/-- An index in two parts: the groups by place, and the nodes that have any, in the order of their
first groups. -/
structure CommentTable where
  groups : Std.HashMap Address (List GroupRef) := {}
  nodes : List NodeRef := []

namespace CommentTable

/-- The table of no comments. -/
def empty : CommentTable := {}

/-- The groups of a node. -/
def lookup (t : CommentTable) (r : NodeRef) : List GroupRef :=
  t.groups.getD r.address []

/-- Whether the table has an entry for a node. -/
def contains (t : CommentTable) (r : NodeRef) : Bool :=
  t.groups.contains r.address

/-- The number of groups in the table. -/
def groupCount (t : CommentTable) : Nat :=
  (t.groups.toList.map (·.2.length)).sum

/-- Attaches a group to a node. A node whose list is still empty is listed as well. -/
def attach (t : CommentTable) (target : NodeRef) (g : GroupRef) : CommentTable where
  groups := t.groups.insert target.address (t.lookup target ++ [g])
  nodes := if (t.lookup target).isEmpty then t.nodes ++ [target] else t.nodes

/-- Attaches groups to nodes, one after the other. -/
def attachAll (t : CommentTable) (calls : List (NodeRef × GroupRef)) : CommentTable :=
  calls.foldl (fun t p => t.attach p.1 p.2) t

theorem lookup_attach (t : CommentTable) (target : NodeRef) (g : GroupRef) (r : NodeRef) :
    (t.attach target g).lookup r =
      if target.same r then t.lookup target ++ [g] else t.lookup r :=
  Std.HashMap.getD_insert

theorem contains_attach (t : CommentTable) (target : NodeRef) (g : GroupRef) (r : NodeRef) :
    (t.attach target g).contains r = (target.same r || t.contains r) :=
  Std.HashMap.contains_insert

theorem mem_toList_iff (t : CommentTable) (p : Address × List GroupRef) :
    p ∈ t.groups.toList ↔ t.groups[p.1]? = some p.2 :=
  Std.HashMap.mem_toList_iff_getElem?_eq_some

theorem nodup_toList (t : CommentTable) : t.groups.toList.Nodup := by
  refine Std.HashMap.distinct_keys_toList.imp fun h heq => ?_
  rw [heq, beq_self_eq_true] at h
  cases h

/-- The groups in the table are those of a node and those at all other places. -/
theorem groupCount_split (t : CommentTable) (r : NodeRef) :
    t.groupCount = (t.lookup r).length +
      ((t.groups.toList.filter fun p => ¬ (r.address == p.1) = true).map (·.2.length)).sum := by
  cases h : t.groups[r.address]? with
  | none =>
    have hall : (t.groups.toList.filter fun p => ¬ (r.address == p.1) = true) =
        t.groups.toList := by
      rw [List.filter_eq_self]
      intro p hp
      rw [mem_toList_iff] at hp
      have hne : r.address ≠ p.1 := by
        intro heq
        rw [heq, hp] at h
        cases h
      simp [hne]
    rw [hall, lookup, Std.HashMap.getD_eq_getD_getElem?, h, Option.getD_none, List.length_nil,
      Nat.zero_add, groupCount]
  | some gs =>
    have hperm : t.groups.toList.Perm
        ((r.address, gs) :: t.groups.toList.filter fun p => ¬ (r.address == p.1) = true) := by
      rw [List.perm_ext_iff_of_nodup t.nodup_toList
        (List.nodup_cons.mpr ⟨by simp, t.nodup_toList.filter _⟩)]
      rintro ⟨a, hs⟩
      rw [List.mem_cons, List.mem_filter, mem_toList_iff]
      by_cases ha : r.address = a
      · subst ha
        simp [h, eq_comm]
      · simp [ha, Ne.symm ha]
    rw [groupCount, (hperm.map _).sum_nat, List.map_cons, List.sum_cons, lookup,
      Std.HashMap.getD_eq_getD_getElem?, h, Option.getD_some]

theorem groupCount_attach (t : CommentTable) (target : NodeRef) (g : GroupRef) :
    (t.attach target g).groupCount = t.groupCount + 1 := by
  have hperm := (Std.HashMap.toList_insert_perm (m := t.groups) (k := target.address)
    (v := t.lookup target ++ [g])).map (·.2.length)
  rw [groupCount, attach, hperm.sum_nat, t.groupCount_split target, List.map_cons, List.sum_cons,
    List.length_append, List.length_singleton]
  omega

/-- A table with its nodes says the same as an index. -/
structure Represents (t : CommentTable) (index : CommentIndex) : Prop where
  nodes : t.nodes = index.nodes
  lookup : ∀ r, t.lookup r = index.lookup r
  contains : ∀ r, t.contains r = index.contains r
  groupCount : t.groupCount = index.groupCount

theorem represents_empty : empty.Represents .empty where
  nodes := rfl
  lookup _ := Std.HashMap.getD_empty
  contains _ := Std.HashMap.contains_empty
  groupCount := by
    rw [CommentTable.groupCount, empty, Std.HashMap.toList_empty]
    rfl

/-- One call keeps table and nodes in step. -/
theorem Represents.attach {t : CommentTable} {index : CommentIndex} (h : t.Represents index)
    (target : NodeRef) (g : GroupRef) :
    (t.attach target g).Represents (index.attach target g) where
  nodes := by
    have hempty : (t.lookup target).isEmpty = !index.contains target := by
      rw [h.lookup, Bool.eq_iff_iff, List.isEmpty_iff, Bool.not_eq_true', ← Bool.not_eq_true,
        index.contains_iff_lookup_ne_nil, not_not]
    rw [CommentIndex.nodes_attach, CommentTable.attach, hempty, h.nodes]
    cases index.contains target <;> rfl
  lookup r := by
    rw [lookup_attach, CommentIndex.lookup_attach, h.lookup, h.lookup]
    split
    · rename_i hs
      rw [index.lookup_congr hs]
    · rfl
  contains r := by rw [contains_attach, CommentIndex.contains_attach, h.contains]
  groupCount := by
    rw [groupCount_attach, CommentIndex.groupCount_attach, h.groupCount]

/-- However many calls there were, table and nodes are in step. -/
theorem Represents.attachAll {t : CommentTable} {index : CommentIndex} (h : t.Represents index)
    (calls : List (NodeRef × GroupRef)) :
    (t.attachAll calls).Represents (index.attachAll calls) := by
  induction calls generalizing t index with
  | nil => exact h
  | cons p calls ih => exact ih (h.attach p.1 p.2)

/-- The part of the table that lies in the subtree of a node, built anew. -/
def filter (t : CommentTable) (r : NodeRef) : CommentTable :=
  (t.nodes.filter fun n => r.preorder.any (·.same n)).foldl
    (fun kept n => (t.lookup n).foldl (·.attach n ·) kept) empty

theorem Represents.filter {t : CommentTable} {index : CommentIndex} (h : t.Represents index)
    (r : NodeRef) : (t.filter r).Represents (index.filter r) := by
  have hfilter : t.filter r = empty.attachAll
      ((index.nodesBelow r).flatMap fun n => (index.lookup n).map (n, ·)) := by
    simp only [CommentTable.filter, CommentIndex.nodesBelow, CommentTable.attachAll,
      List.foldl_flatMap, List.foldl_map, h.nodes, h.lookup]
  rw [hfilter, CommentIndex.filter_eq_attachAll]
  exact represents_empty.attachAll _

end CommentTable

/-! ## Where indexes come from -/

/-- The index of a script is built by one call for each of its groups, in their order. -/
theorem Script.exists_calls_of_commentIndex {s : Script} {policy : Policy} {index : CommentIndex}
    (h : s.commentIndex policy = .ok index) :
    ∃ calls, index = CommentIndex.empty.attachAll calls ∧ calls.map (·.2) = s.groups := by
  cases hc : policy.check with
  | error e =>
    rw [commentIndex_of_check_error hc] at h
    cases h
  | ok u =>
    obtain ⟨ps, hps, hgroups, -⟩ := exists_placements hc s
    rw [commentIndex_of_placements hps] at h
    refine ⟨ps.map fun p => (p.target, p.group), ?_, ?_⟩
    · rw [← Except.ok.inj h, CommentIndex.ofPlacements_eq_attachAll]
    · rw [List.map_map]
      exact hgroups

namespace CommentIndex

/-- Parts of parts of an index that was built by calls are built by calls. -/
theorem exists_calls_of_filters (calls : List (NodeRef × GroupRef)) (rs : List NodeRef) :
    ∃ calls', rs.foldl filter (empty.attachAll calls) = empty.attachAll calls' := by
  rcases List.eq_nil_or_concat' rs with rfl | ⟨rs, r, rfl⟩
  · exact ⟨calls, rfl⟩
  · exact ⟨_, by rw [List.foldl_concat, filter_eq_attachAll]⟩

/-- Every index that is built by calls records them, and says the same as a table with a list of
nodes that is kept by the same calls; so do their parts. Parts of parts of such indexes are built by
calls, and the indexes of scripts are, with one call for each group. -/
theorem attachAll_records :
    (∀ calls : List (NodeRef × GroupRef),
      (empty.attachAll calls).Records calls ∧
        (CommentTable.empty.attachAll calls).Represents (empty.attachAll calls)) ∧
      (∀ (t : CommentTable) (index : CommentIndex), t.Represents index →
        ∀ r : NodeRef, (t.filter r).Represents (index.filter r)) ∧
      (∀ (calls : List (NodeRef × GroupRef)) (rs : List NodeRef),
        ∃ calls', rs.foldl filter (empty.attachAll calls) = empty.attachAll calls') ∧
      ∀ (s : Script) (policy : Policy) (index : CommentIndex),
        s.commentIndex policy = .ok index →
          ∃ calls, index = empty.attachAll calls ∧ calls.map (·.2) = s.groups :=
  ⟨fun calls => ⟨records_attachAll calls, CommentTable.represents_empty.attachAll calls⟩,
    fun _ _ h r => h.filter r, exists_calls_of_filters,
    fun _ _ _ h => Script.exists_calls_of_commentIndex h⟩

/-- The index of `scattered` is built by three calls, two of which are about one node. -/
theorem attachAll_records_scattered :
    ∃ index calls, Script.scattered.commentIndex .standard = .ok index ∧
      index = empty.attachAll calls ∧ calls.length = 3 ∧ index.size = 2 ∧
      index.groupCount = 3 ∧
      ((CommentTable.empty.attachAll calls).filter Script.scattered.ref).Represents
        (index.filter Script.scattered.ref) := by
  obtain ⟨hbuilt, hparts, -, hscripts⟩ := attachAll_records
  have hindex := Script.commentIndex_of_placements Script.placements_scattered
  obtain ⟨calls, hcalls, hgroups⟩ := hscripts _ _ _ hindex
  have hlength : calls.length = 3 := by
    rw [← List.length_map (·.2), hgroups]
    rfl
  obtain ⟨hrecords, htable⟩ := hbuilt calls
  refine ⟨_, calls, hindex, hcalls, hlength, rfl, ?_, ?_⟩
  · rw [hcalls, hrecords.groupCount_calls, hlength]
  · rw [hcalls]
    exact hparts _ _ htable _

end CommentIndex

end SqlScript
