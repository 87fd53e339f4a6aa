import SqlScript.Proofs.Attachment.Totality
import SqlScript.Proofs.Node.Grafting
import SqlScript.Proofs.Node.Walking

/-!
# The places of a tree

The pre-order of a tree lists its places, each once, and every subtree is one block of the list.
The places are those of different parts of the tree: what stands at one of them can be exchanged,
and what stands elsewhere stays.

* `NodeRef.exists_exchangedAt`: at every place there could be any node of the same kind;
* `take_drop_preorder`: the pre-order of a node is a block that begins with the node;
* `block_nested_or_disjoint`: of two blocks, one is part of the other, or they have nothing in
  common;
* `NodeRef.preorder_orderly`: all of this, for every tree, and for a script that its pre-order is
  that of its statements, which is what comments are placed among.
-/

namespace SqlScript

attribute [ext] Address NodeRef

namespace Address

/-- Neither of two places is above the other, and they are not the same. -/
def Apart (a b : Address) : Prop :=
  ¬ a.path <+: b.path ∧ ¬ b.path <+: a.path

instance (a b : Address) : Decidable (Apart a b) :=
  inferInstanceAs (Decidable (_ ∧ _))

end Address

namespace NodeRef

/-! ## Exchanging what stands at a place -/

/-- One tree has a given node at a place, and is otherwise like another tree. -/
structure ExchangedAt (a : Address) (n : Node) (r r' : NodeRef) : Prop where
  address : r'.address = r.address
  kind : r'.kind = r.kind
  placed : ⟨a, n⟩ ∈ r'.preorder
  /-- Nodes above the place keep their kind and what they hold themselves. -/
  above : ∀ e ∈ r.preorder, e.address.path <+: a.path → e.address ≠ a →
    ∃ e' ∈ r'.preorder, e'.address = e.address ∧ e'.kind = e.kind ∧
      e'.node.attributes = e.node.attributes
  /-- Nodes elsewhere are the same. -/
  elsewhere : ∀ e : NodeRef, e.address.Apart a → (e ∈ r'.preorder ↔ e ∈ r.preorder)

/-- The root itself can be exchanged. -/
theorem exchangedAt_root {r : NodeRef} {n : Node} (hn : n.kind = r.kind) :
    ExchangedAt r.address n r ⟨r.address, n⟩ where
  address := rfl
  kind := hn
  placed := mem_preorder_self _
  above e he hprefix hne := by
    obtain ⟨htree, hpath⟩ := path_prefix_of_mem_preorder he
    have hsame : e.address.path = r.address.path :=
      hprefix.eq_of_length_le hpath.length_le
    exact absurd (Address.ext htree hsame) hne
  elsewhere e hapart := by
    refine iff_of_false (fun he => ?_) (fun he => ?_)
    · exact hapart.2 (path_prefix_of_mem_preorder he).2
    · exact hapart.2 (path_prefix_of_mem_preorder he).2

/-- If a child can be made another of its kind, then so can its parent, and the other children
stay. -/
theorem exists_of_exchanged_child {c c' r : NodeRef} {i : Nat} (hc : r.children[i]? = some c)
    (ha : c'.address = c.address) (hk : c'.kind = c.kind) :
    ∃ r' : NodeRef, r'.address = r.address ∧ r'.kind = r.kind ∧
      r'.node.attributes = r.node.attributes ∧ r'.children = r.children.set i c' := by
  obtain ⟨n, hn, rfl⟩ := Option.map_eq_some_iff.mp ((children_getElem? r i).symm.trans hc)
  have hkinds : Node.SameKinds (r.node.children.set i c'.node) r.node.children := .ofSet hn hk
  obtain ⟨m, hmk, hma, hmc⟩ := r.node.accepts_of_sameKinds hkinds
  refine ⟨⟨r.address, m⟩, rfl, hmk, hma, ?_⟩
  rw [children, hmc, List.mapIdx_set, children]
  exact congrArg _ (NodeRef.ext ha.symm rfl)

/-- A node below one of two parents that differ in one child is below the other. -/
theorem exists_child_of_others {c c' e r r' : NodeRef} {i : Nat} (hc : r.children[i]? = some c)
    (hc' : r'.children[i]? = some c')
    (hothers : ∀ j : Nat, j ≠ i → r.children[j]? = r'.children[j]?)
    (he : e ∈ c.preorder → e ∈ c'.preorder) :
    (∃ d ∈ r.children, e ∈ d.preorder) → ∃ d ∈ r'.children, e ∈ d.preorder := by
  rintro ⟨d, hmem, hd⟩
  obtain ⟨j, hj⟩ := List.mem_iff_getElem?.mp hmem
  by_cases hji : j = i
  · subst hji
    obtain rfl : d = c := Option.some.inj (hj.symm.trans hc)
    exact ⟨c', List.mem_of_getElem? hc', he hd⟩
  · exact ⟨d, List.mem_of_getElem? (hothers j hji ▸ hj), hd⟩

/-- What is exchanged in the tree of a child is exchanged in the tree of its parent. -/
theorem ExchangedAt.parent {a : Address} {n : Node} {c c' r r' : NodeRef} {i : Nat}
    (h : ExchangedAt a n c c') (hc : r.children[i]? = some c) (ha : r'.address = r.address)
    (hk : r'.kind = r.kind) (hd : r'.node.attributes = r.node.attributes)
    (hchildren : r'.children = r.children.set i c') : ExchangedAt a n r r' := by
  have hi : i < r.children.length := (List.getElem?_eq_some_iff.mp hc).1
  have hc' : r'.children[i]? = some c' := by
    rw [hchildren, List.getElem?_set_self hi]
  have hothers : ∀ j : Nat, j ≠ i → r'.children[j]? = r.children[j]? := by
    intro j hj
    rw [hchildren, List.getElem?_set_ne hj.symm]
  have hplaced : ⟨a, n⟩ ∈ r'.preorder :=
    preorder_subset_of_mem_children (List.mem_of_getElem? hc') h.placed
  have hstep : a.path[r.address.path.length]? = some i :=
    ha ▸ path_getElem?_of_mem_preorder (address_of_getElem? hc') h.placed
  have hbelow : r.address.path <+: a.path := ha ▸ (path_prefix_of_mem_preorder hplaced).2
  refine ⟨ha, hk, hplaced, fun e he hprefix hne => ?_, fun e hapart => ?_⟩
  · rcases mem_preorder_iff.mp he with rfl | ⟨d, hmem, he⟩
    · exact ⟨r', r'.mem_preorder_self, ha, hk, hd⟩
    · -- the next step of an address above the place leads to the same child
      obtain ⟨j, hj⟩ := List.mem_iff_getElem?.mp hmem
      have hnext := path_getElem?_of_mem_preorder (address_of_getElem? hj) he
      obtain rfl : j = i := by
        obtain ⟨rest, hrest⟩ := hprefix
        have hlt := (List.getElem?_eq_some_iff.mp hnext).1
        rw [← hrest, List.getElem?_append_left hlt, hnext] at hstep
        exact Option.some.inj hstep
      obtain rfl : d = c := Option.some.inj (hj.symm.trans hc)
      obtain ⟨e', he', hsame⟩ := h.above e he hprefix hne
      exact ⟨e', preorder_subset_of_mem_children (List.mem_of_getElem? hc') he', hsame⟩
  · have hroot : ∀ t : NodeRef, t.address = r.address → e ≠ t := by
      rintro t ht rfl
      exact hapart.1 (ht ▸ hbelow)
    rw [mem_preorder_iff, mem_preorder_iff, or_iff_right (hroot r' ha), or_iff_right (hroot r rfl)]
    exact ⟨exists_child_of_others hc' hc hothers (h.elsewhere e hapart).mp,
      exists_child_of_others hc hc' (fun j hj => (hothers j hj).symm) (h.elsewhere e hapart).mpr⟩

/-- At every place of a tree there could be any node of the same kind, with everything elsewhere as
it is. -/
theorem exists_exchangedAt {d r : NodeRef} (hd : d ∈ r.preorder) {n : Node}
    (hn : n.kind = d.kind) : ∃ r', ExchangedAt d.address n r r' := by
  induction r using NodeRef.induction with
  | step r ih =>
    rcases mem_preorder_iff.mp hd with rfl | ⟨c, hmem, hd⟩
    · exact ⟨⟨d.address, n⟩, exchangedAt_root hn⟩
    · obtain ⟨i, hc⟩ := List.mem_iff_getElem?.mp hmem
      obtain ⟨c', hc'⟩ := ih c hmem hd
      obtain ⟨r', ha, hk, hattributes, hchildren⟩ :=
        exists_of_exchanged_child hc hc'.address hc'.kind
      exact ⟨r', hc'.parent hc ha hk hattributes hchildren⟩

/-! ## Blocks -/

variable {r : NodeRef}

/-- A place has one index in the pre-order. -/
theorem index_eq_of_same {a b : NodeRef} {i j : Nat} (hi : r.preorder[i]? = some a)
    (hj : r.preorder[j]? = some b) (h : a.same b = true) : i = j := by
  have hmap : (r.preorder.map (·.address))[i]? = (r.preorder.map (·.address))[j]? := by
    rw [List.getElem?_map, List.getElem?_map, hi, hj, Option.map_some, Option.map_some,
      same_iff.mp h]
  have hlt : i < (r.preorder.map (·.address)).length := by
    rw [List.length_map]
    exact (List.getElem?_eq_some_iff.mp hi).1
  exact (List.getElem?_inj hlt r.nodup_address_preorder).mp hmap

/-- The pre-order of a node is a block that begins with the node. -/
theorem take_drop_preorder {d : NodeRef} {i : Nat} (h : r.preorder[i]? = some d) :
    (r.preorder.drop i).take d.preorder.length = d.preorder := by
  obtain ⟨front, rest, hr⟩ := preorder_infix_of_mem (List.mem_of_getElem? h)
  have hfront : r.preorder[front.length]? = some d := by
    rw [← hr, List.append_assoc, List.getElem?_append_right (Nat.le_refl _), Nat.sub_self,
      preorder_eq, List.cons_append, List.getElem?_cons_zero]
  obtain rfl : i = front.length := index_eq_of_same h hfront (same_iff.mpr rfl)
  rw [← hr, List.append_assoc, List.drop_left, List.take_left]

theorem length_preorder_pos (r : NodeRef) : 0 < r.preorder.length :=
  List.length_pos_of_ne_nil r.preorder_ne_nil

/-- A block ends within the list. -/
theorem add_length_preorder_le {d : NodeRef} {i : Nat} (h : r.preorder[i]? = some d) :
    i + d.preorder.length ≤ r.preorder.length := by
  have hblock := congrArg List.length (take_drop_preorder h)
  have hpos := d.length_preorder_pos
  rw [List.length_take, List.length_drop] at hblock
  omega

/-- What stands in the block of a node is in its pre-order. -/
theorem getElem?_block {a : NodeRef} {i k : Nat} (h : r.preorder[i]? = some a)
    (hk : k < a.preorder.length) : a.preorder[k]? = r.preorder[i + k]? := by
  rw [← take_drop_preorder h, List.getElem?_take_of_lt hk, List.getElem?_drop]

/-- Of two blocks, the later is part of the earlier or lies behind it, with no place in common. -/
theorem block_nested_or_disjoint {a b : NodeRef} {i j : Nat} (hi : r.preorder[i]? = some a)
    (hj : r.preorder[j]? = some b) (hij : i ≤ j) :
    b ∈ a.preorder ∧ j + b.preorder.length ≤ i + a.preorder.length ∨
      i + a.preorder.length ≤ j ∧ List.Disjoint a.preorder b.preorder := by
  rcases Nat.lt_or_ge j (i + a.preorder.length) with hlt | hge
  · left
    have hb : a.preorder[j - i]? = some b := by
      rw [getElem?_block hi (by omega), Nat.add_sub_cancel' hij, hj]
    have hend := add_length_preorder_le hb
    exact ⟨List.mem_of_getElem? hb, by omega⟩
  · right
    refine ⟨hge, ?_⟩
    have hnodup : r.preorder.Nodup := .of_map _ r.nodup_address_preorder
    have hfront : a.preorder ⊆ r.preorder.take j := by
      rw [← take_drop_preorder hi, List.take_drop]
      exact List.Subset.trans (List.drop_subset _ _) (List.take_subset_take_left _ hge)
    have hback : b.preorder ⊆ r.preorder.drop j := by
      rw [← take_drop_preorder hj]
      exact List.take_subset _ _
    exact List.disjoint_of_subset_left hfront (List.disjoint_of_subset_right hback
      (List.disjoint_take_drop hnodup (Nat.le_refl j)))

/-! ## Trees and scripts -/

/-- A function that collects every node it is led to collects the pre-order. -/
theorem inspect_collect (r : NodeRef) :
    r.inspect (fun m ms => (true, ms ++ [m])) [] = r.preorder := by
  have hreached : (r.reached fun _ => !true) = r.preorder := by
    rw [reached, List.filter_eq_self]
    intro m _
    rw [isOpen_iff]
    intro a _ _
    rfl
  rw [inspect_eq_foldl_reached (fun _ => true) fun m ms => ms ++ [m], hreached]
  induction r.preorder using List.reverseRecOn with
  | nil => rfl
  | append_singleton ms m ih => rw [List.foldl_concat, ih]

/-- How the places of a tree stand in its pre-order. -/
structure Orderly (r : NodeRef) : Prop where
  /-- The pre-order is what a function collects that asks for all children. -/
  collected : r.inspect (fun m ms => (true, ms ++ [m])) [] = r.preorder
  /-- No place occurs twice, although equal nodes may. -/
  distinct : ∀ (i j : Nat) (a b : NodeRef), r.preorder[i]? = some a → r.preorder[j]? = some b →
    a.same b = true → i = j
  /-- No two places are places of the same part of the tree. -/
  independent : ∀ d ∈ r.preorder, ∀ n : Node, n.kind = d.kind →
    ∃ r', ExchangedAt d.address n r r'
  /-- The pre-order of a node is a block that begins with the node. -/
  block : ∀ (i : Nat) (d : NodeRef), r.preorder[i]? = some d →
    (r.preorder.drop i).take d.preorder.length = d.preorder
  /-- Of two blocks, the later is part of the earlier or lies behind it. -/
  nested : ∀ (i j : Nat) (a b : NodeRef), r.preorder[i]? = some a → r.preorder[j]? = some b →
    i ≤ j →
    b ∈ a.preorder ∧ j + b.preorder.length ≤ i + a.preorder.length ∨
      i + a.preorder.length ≤ j ∧ List.Disjoint a.preorder b.preorder

theorem orderly (r : NodeRef) : r.Orderly where
  collected := r.inspect_collect
  distinct _ _ _ _ hi hj h := index_eq_of_same hi hj h
  independent _ hd _ hn := exists_exchangedAt hd hn
  block _ _ h := take_drop_preorder h
  nested _ _ _ _ hi hj hij := block_nested_or_disjoint hi hj hij

end NodeRef

namespace Script

/-- The pre-order of a script is the script and then, statement by statement, the pre-orders of its
statements. -/
theorem preorder_ref (s : Script) :
    s.ref.preorder =
      s.ref :: (s.statements.toList.mapIdx fun k t =>
        (⟨⟨0, [k]⟩, .statement t⟩ : NodeRef)).flatMap NodeRef.preorder := by
  have hchildren : s.ref.children =
      s.statements.toList.mapIdx fun k t => ⟨⟨0, [k]⟩, .statement t⟩ := by
    apply List.ext_getElem?
    intro k
    rw [NodeRef.children_getElem?, List.getElem?_mapIdx]
    show ((s.statements.toList.map Node.statement)[k]?.map _) = _
    rw [List.getElem?_map, Option.map_map]
    rfl
  rw [NodeRef.preorder_eq, hchildren]

/-- Groups are placed among the pre-order of the script, without the script itself. -/
theorem placements_eq_placeAmong (s : Script) (policy : Policy) :
    s.placements policy =
      policy.check.bind fun _ => placeAmong policy {} s.ref.preorder.tail s.groups := by
  have hnodes : s.ref.preorder.tail = s.nodes := by
    rw [NodeRef.preorder_eq, List.tail_cons, nodes]
  cases h : policy.check with
  | error e =>
    rw [placements, h]
    rfl
  | ok _ => rw [placements_of_check h, hnodes, Except.bind]

end Script

namespace NodeRef

/-- In every pre-order no place occurs twice, and the places belong to different parts of the tree;
each subtree is a block that begins with its root, and blocks nest or have nothing in common. The
pre-order of a script is that of its statements behind the script itself, and this is what its
comments are placed among. -/
theorem preorder_orderly :
    (∀ r : NodeRef, r.Orderly) ∧
      ∀ s : Script,
        s.ref.preorder =
          s.ref :: (s.statements.toList.mapIdx fun k t =>
            (⟨⟨0, [k]⟩, .statement t⟩ : NodeRef)).flatMap preorder ∧
        ∀ policy : Policy, s.placements policy =
          policy.check.bind fun _ => placeAmong policy {} s.ref.preorder.tail s.groups :=
  ⟨orderly, fun s => ⟨s.preorder_ref, s.placements_eq_placeAmong⟩⟩

/-- `a = a`: two operands that are equal nodes. -/
def twins : NodeRef :=
  .root 0 (.expr (.binary (.ident ⟨"a", ⟨⟨1, 1⟩, ⟨1, 2⟩⟩⟩) ⟨.equal, ⟨⟨1, 3⟩, ⟨1, 4⟩⟩⟩
    (.ident ⟨"a", ⟨⟨1, 1⟩, ⟨1, 2⟩⟩⟩)))

/-- Of the two operands the second becomes another, and the first stays. -/
theorem preorder_orderly_twins :
    ∃ r' : NodeRef, (⟨⟨0, [0]⟩, .ident ⟨"a", ⟨⟨1, 1⟩, ⟨1, 2⟩⟩⟩⟩ : NodeRef) ∈ r'.preorder ∧
      (⟨⟨0, [2]⟩, .ident ⟨"b", ⟨⟨1, 5⟩, ⟨1, 6⟩⟩⟩⟩ : NodeRef) ∈ r'.preorder := by
  have hfirst : (⟨⟨0, [0]⟩, .ident ⟨"a", ⟨⟨1, 1⟩, ⟨1, 2⟩⟩⟩⟩ : NodeRef) ∈ twins.preorder :=
    mem_preorder_iff.mpr (.inr ⟨_, .head _, mem_preorder_self _⟩)
  have hsecond : (⟨⟨0, [2]⟩, .ident ⟨"a", ⟨⟨1, 1⟩, ⟨1, 2⟩⟩⟩⟩ : NodeRef) ∈ twins.preorder :=
    mem_preorder_iff.mpr (.inr ⟨_, .tail _ (.tail _ (.head _)), mem_preorder_self _⟩)
  obtain ⟨r', hr'⟩ := (preorder_orderly.1 twins).independent _ hsecond
    (.ident ⟨"b", ⟨⟨1, 5⟩, ⟨1, 6⟩⟩⟩) rfl
  have hapart : Address.Apart ⟨0, [0]⟩ ⟨0, [2]⟩ := by decide
  exact ⟨r', (hr'.elsewhere _ hapart).mpr hfirst, hr'.placed⟩

end NodeRef

end SqlScript
