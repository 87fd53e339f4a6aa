import Mathlib.Data.List.Forall2
import SqlScript.Proofs.Node.Correspondence
import SqlScript.Proofs.Node.Nesting

/-!
# Moving nodes down

A node is moved down by some lines if all its positions are, here and in everything below it, and
nothing else is changed. As long as no line number leaves its word, every extent moves along:

* `Position.Below`: a position some lines below another, in numbers, with what that means for the
  order of positions;
* `Node.MovedDown`, `Node.positions_of_movedDown`: a node moved down, and its positions;
* `NodeRef.MovedDown.preorder`: in the pre-orders of a node and of its copy, nodes and copies stand
  in pairs;
* `NodeRef.Below`, `NodeRef.MovedDown.below`: a node at the same address some lines further down,
  which the copy is.
-/

namespace SqlScript

/-! ## Lists in pairs -/

section Pairs

variable {R : α → β → Prop} {xs : List α} {ys : List β} {o : Option α} {o' : Option β}

theorem forall₂_of_mem {S : α → β → Prop} (h : List.Forall₂ R xs ys)
    (hRS : ∀ x ∈ xs, ∀ y, R x y → S x y) : List.Forall₂ S xs ys := by
  have hpairs := (List.forall₂_and_left xs ys).mpr ⟨fun _ hx => hx, h⟩
  exact hpairs.imp fun x y hxy => hRS x hxy.1 y hxy.2

/-- Lists of related elements have related images, number by number. -/
theorem forall₂_mapIdx {S : γ → δ → Prop} {f : Nat → α → γ} {g : Nat → β → δ}
    (h : List.Forall₂ R xs ys) (hfg : ∀ i, ∀ x ∈ xs, ∀ y, R x y → S (f i x) (g i y)) :
    List.Forall₂ S (xs.mapIdx f) (ys.mapIdx g) := by
  obtain ⟨hlength, hget⟩ := List.forall₂_iff_get.mp h
  refine List.forall₂_iff_get.mpr ⟨by simpa using hlength, fun i hx hy => ?_⟩
  rw [List.length_mapIdx] at hx hy
  simpa using hfg i _ (List.getElem_mem hx) _ (hget i hx hy)

theorem exists_of_forall₂ (h : List.Forall₂ R xs ys) {i : Nat} {x : α} (hx : xs[i]? = some x) :
    ∃ y, ys[i]? = some y ∧ R x y := by
  obtain ⟨hlength, hget⟩ := List.forall₂_iff_get.mp h
  obtain ⟨hi, rfl⟩ := List.getElem?_eq_some_iff.mp hx
  exact ⟨_, List.getElem?_eq_getElem (hlength ▸ hi), hget i hi (hlength ▸ hi)⟩

theorem rel_head? (h : List.Forall₂ R xs ys) : Option.Rel R xs.head? ys.head? := by
  cases h with
  | nil => exact .none
  | cons hxy _ => exact .some hxy

theorem rel_getLast? (h : List.Forall₂ R xs ys) : Option.Rel R xs.getLast? ys.getLast? := by
  rw [← List.head?_reverse, ← List.head?_reverse]
  exact rel_head? (List.rel_reverse h)

theorem rel_some {x : α} {y : β} (h : Option.Rel R (some x) (some y)) : R x y := by
  cases h with
  | some hxy => exact hxy

theorem exists_of_rel_left (h : Option.Rel R o o') {x : α} (hx : o = some x) :
    ∃ y, o' = some y ∧ R x y := by
  subst hx
  cases h with
  | some hxy => exact ⟨_, rfl, hxy⟩

theorem exists_of_rel_right (h : Option.Rel R o o') {y : β} (hy : o' = some y) :
    ∃ x, o = some x ∧ R x y := by
  subst hy
  cases h with
  | some hxy => exact ⟨_, rfl, hxy⟩

end Pairs

/-! ## Positions -/

namespace Position

/-- The position some lines further down, where the word has room for the line. -/
def down (d : UInt32) (p : Position) : Position :=
  ⟨p.line + d, p.column⟩

/-- There are so many lines below the position, and two more. -/
def HasRoom (d : UInt32) (p : Position) : Prop :=
  p.line.toNat + d.toNat ≤ maxWord.toNat - 2

instance (d : UInt32) (p : Position) : Decidable (p.HasRoom d) :=
  inferInstanceAs (Decidable (_ ≤ _))

/-- The second position is in the same column as the first, so many lines further down. -/
structure Below (d : Nat) (p q : Position) : Prop where
  line : q.line.toNat = p.line.toNat + d
  column : q.column.toNat = p.column.toNat

theorem below_down {d : UInt32} {p : Position} (h : p.HasRoom d) :
    Below d.toNat p (p.down d) := by
  rw [HasRoom, toNat_maxWord] at h
  refine ⟨?_, rfl⟩
  rw [down, UInt32.toNat_add, Nat.mod_eq_of_lt (by omega)]

variable {d : Nat} {p p' q q' : Position}

theorem Below.lt_iff (hp : Below d p p') (hq : Below d q q') : p' < q' ↔ p < q := by
  rw [Position.lt_iff, Position.lt_iff, hp.line, hp.column, hq.line, hq.column]
  omega

theorem Below.le_iff (hp : Below d p p') (hq : Below d q q') : p' ≤ q' ↔ p ≤ q := by
  rw [Position.le_iff, Position.le_iff, hp.line, hp.column, hq.line, hq.column]
  omega

theorem Below.min (hp : Below d p p') (hq : Below d q q') :
    Below d (Min.min p q) (Min.min p' q') := by
  show Below d (if p ≤ q then p else q) (if p' ≤ q' then p' else q')
  simp only [hp.le_iff hq]
  split
  · exact hp
  · exact hq

theorem Below.max (hp : Below d p p') (hq : Below d q q') :
    Below d (Max.max p q) (Max.max p' q') := by
  show Below d (if p ≤ q then q else p) (if p' ≤ q' then q' else p')
  simp only [hp.le_iff hq]
  split
  · exact hq
  · exact hp

theorem inStep_down (d : UInt32) : InStep (down d) id := by
  rintro p q rfl
  rfl

end Position

/-! ## Nodes -/

/-- Whether two data are the same, but for positions, which are moved down. -/
def Attribute.movedDown (d : UInt32) : Attribute → Attribute → Bool
  | position p, position q => q == p.down d
  | x, y => x == y

theorem Attribute.mapPosition_eq_of_movedDown {d : UInt32} {x y : Attribute}
    (h : x.movedDown d y = true) : x.mapPosition (.down d) = y.mapPosition id := by
  unfold movedDown at h
  split at h
  · rw [beq_iff_eq.mp h]
    rfl
  · rename_i hne
    obtain rfl := beq_iff_eq.mp h
    cases x <;> first | rfl | exact absurd rfl (hne _ _ rfl)

namespace Node

/-- The second node is the first with all positions moved down, here and below. -/
def MovedDown (d : UInt32) (a b : Node) : Prop :=
  a.corresponds (Attribute.movedDown d) b = true

variable {d : UInt32} {a b : Node}

theorem MovedDown.kind (h : a.MovedDown d b) : b.kind = a.kind :=
  (corresponds_iff.mp h).1.symm

theorem pairwise_iff_forall₂ {r : α → β → Bool} {xs : List α} {ys : List β} :
    pairwise r xs ys = true ↔ List.Forall₂ (fun x y => r x y = true) xs ys := by
  induction xs generalizing ys with
  | nil => cases ys <;> simp [pairwise]
  | cons x xs ih => cases ys <;> simp [pairwise, ih]

theorem MovedDown.children (h : a.MovedDown d b) :
    List.Forall₂ (MovedDown d) a.children b.children :=
  pairwise_iff_forall₂.mp (corresponds_iff.mp h).2.2

/-- The positions of a node move with it. -/
theorem positions_of_movedDown (h : a.MovedDown d b) :
    b.positions = a.positions.map (.down d) := by
  have hleaves := leaves_eq_of_corresponds (Position.inStep_down d)
    (fun _ _ => Attribute.mapPosition_eq_of_movedDown) h
  have hpositions := congrArg (List.filterMap Leaf.position?) hleaves
  have hmap : ∀ f : Position → Position,
      Leaf.position? ∘ Leaf.mapPosition f = fun leaf => leaf.position?.map f := by
    intro f
    funext leaf
    cases leaf <;> rfl
  simp only [List.filterMap_map, hmap, ← List.map_filterMap] at hpositions
  rw [positions, positions, hpositions, List.map_id]

/-- Nodes of one kind are scripts, or are not, together. -/
theorem isScript_eq_of_kind {a b : Node} (h : a.kind = b.kind) : a.isScript = b.isScript := by
  have hfamily : ∀ n : Node, n.isScript = (n.kind.family == NodeKind.script.family) := by
    intro n
    rw [family_kind]
    cases n <;> rfl
  rw [hfamily, hfamily, h]

theorem forall₂_positions_of_movedDown (h : a.MovedDown d b)
    (hd : ∀ p ∈ a.positions, p.HasRoom d) :
    List.Forall₂ (Position.Below d.toNat) a.positions b.positions := by
  rw [positions_of_movedDown h, List.forall₂_map_right_iff, List.forall₂_same]
  exact fun p hp => Position.below_down (hd p hp)

theorem below_start_of_movedDown (h : a.MovedDown d b) (hs : a.isScript = false)
    (hd : ∀ p ∈ a.positions, p.HasRoom d) : Position.Below d.toNat a.start b.start := by
  have hs' : b.isScript = false := (isScript_eq_of_kind h.kind).trans hs
  have hfirst := rel_head? (forall₂_positions_of_movedDown h hd)
  rw [head?_positions hs, head?_positions hs'] at hfirst
  exact rel_some hfirst

theorem below_stop_of_movedDown (h : a.MovedDown d b) (hs : a.isScript = false)
    (hd : ∀ p ∈ a.positions, p.HasRoom d) : Position.Below d.toNat a.stop b.stop := by
  have hs' : b.isScript = false := (isScript_eq_of_kind h.kind).trans hs
  have hlast := rel_getLast? (forall₂_positions_of_movedDown h hd)
  rw [getLast?_positions hs, getLast?_positions hs'] at hlast
  exact rel_some hlast

end Node

/-! ## Trees -/

namespace NodeRef

/-- The second node is at the address of the first, and is the first moved down. -/
structure MovedDown (d : UInt32) (r r' : NodeRef) : Prop where
  address : r'.address = r.address
  node : r.node.MovedDown d r'.node

/-- The second node is of the kind of the first and at its address, so many lines further down. -/
structure Below (d : Nat) (r r' : NodeRef) : Prop where
  address : r'.address = r.address
  kind : r'.kind = r.kind
  start : Position.Below d r.start r'.start
  stop : Position.Below d r.stop r'.stop

theorem Below.isContainer {d : Nat} {r r' : NodeRef} (h : Below d r r') :
    r'.isContainer = r.isContainer :=
  congrArg NodeKind.isContainer h.kind

theorem positions_subset_of_mem_preorder {m r : NodeRef} (h : m ∈ r.preorder) :
    m.node.positions ⊆ r.node.positions := by
  induction r using NodeRef.induction with
  | step r ih =>
    rcases mem_preorder_iff.mp h with rfl | ⟨c, hc, hm⟩
    · exact List.Subset.refl _
    · have hsub := Node.positions_subset_of_mem_children (node_mem_of_mem_children hc)
      exact List.Subset.trans (ih c hc hm) hsub

theorem isScript_of_mem_preorder {m r : NodeRef} (hs : r.node.isScript = false)
    (h : m ∈ r.preorder) : m.node.isScript = false := by
  induction r using NodeRef.induction with
  | step r ih =>
    rcases mem_preorder_iff.mp h with rfl | ⟨c, hc, hm⟩
    · exact hs
    · exact ih c hc (Node.isScript_of_mem_children (node_mem_of_mem_children hc)) hm

/-- If the children of related nodes stand in pairs, so does everything below them. -/
theorem forall₂_preorder {R : NodeRef → NodeRef → Prop} {r r' : NodeRef}
    (hR : ∀ r r', R r r' → List.Forall₂ R r.children r'.children) (h : R r r') :
    List.Forall₂ R r.preorder r'.preorder := by
  induction r using NodeRef.induction generalizing r' with
  | step r ih =>
    have hpairs : List.Forall₂ (fun c c' => List.Forall₂ R c.preorder c'.preorder)
        r.children r'.children :=
      forall₂_of_mem (hR r r' h) fun c hc c' hcc' => ih c hc hcc'
    rw [preorder_eq, preorder_eq]
    exact .cons h (List.rel_flatMap hpairs fun _ _ hc => hc)

namespace MovedDown

variable {d : UInt32} {r r' : NodeRef}

theorem below (h : r.MovedDown d r') (hs : r.node.isScript = false)
    (hd : ∀ p ∈ r.node.positions, p.HasRoom d) : Below d.toNat r r' where
  address := h.address
  kind := h.node.kind
  start := Node.below_start_of_movedDown h.node hs hd
  stop := Node.below_stop_of_movedDown h.node hs hd

theorem children (h : r.MovedDown d r') :
    List.Forall₂ (MovedDown d) r.children r'.children := by
  rw [NodeRef.children, NodeRef.children, h.address]
  exact forall₂_mapIdx h.node.children fun _ _ _ _ hc => ⟨rfl, hc⟩

theorem preorder (h : r.MovedDown d r') :
    List.Forall₂ (MovedDown d) r.preorder r'.preorder :=
  forall₂_preorder (fun _ _ hmoved => hmoved.children) h

/-- Where there is room, every node of a tree moves with it. -/
theorem forall₂_below (h : r.MovedDown d r') (hs : r.node.isScript = false)
    (hd : ∀ p ∈ r.node.positions, p.HasRoom d) :
    List.Forall₂ (Below d.toNat) r.preorder r'.preorder := by
  refine forall₂_of_mem h.preorder fun m hm m' hmoved => ?_
  refine hmoved.below (isScript_of_mem_preorder hs hm) fun p hp => ?_
  exact hd p (positions_subset_of_mem_preorder hm hp)

end MovedDown

end NodeRef

end SqlScript
