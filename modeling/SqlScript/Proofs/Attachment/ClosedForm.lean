import Mathlib.Data.List.Chain
import SqlScript.Log
import SqlScript.Proofs.Attachment.Totality
import SqlScript.Proofs.Node.Nesting

/-!
# Where a comment group belongs

The pass carries what it knows from one group to the next: its place among the nodes, the stack of
open containers and the container closed last. Here the place of a group is said outright, in terms
of the list of all nodes and of the groups up to this one:

* `reach`: the number of nodes in front of a group;
* `Closes`, `ClosesFirst`, `LastClosed`: which containers a group closes, and which of them was
  closed last when a group is met;
* `Policy.Trails`: when a comment trails a node, in numbers;
* `Belongs`: the three rules.

`Tracks` says what the cursor knows once some groups have been met. It is kept by every step
(`Tracks.meet`), so it holds behind every group (`tracks_after`), and `Script.placements_belong`
follows: the pass places every group where it belongs.
-/

namespace SqlScript

/-- The number of nodes in front of a group: those in front of the first node that starts where the
group stops or later. -/
def reach (nodes : List NodeRef) (g : CommentGroup) : Nat :=
  nodes.findIdx fun r => decide (g.stop ≤ r.start)

/-- A group closes a container in front of it if this container and all that follow it up to the
group stop where the group starts or before. -/
structure Closes (nodes : List NodeRef) (g : CommentGroup) (m : Nat) : Prop where
  container : ∃ r, nodes[m]? = some r ∧ r.isContainer = true
  lt_reach : m < reach nodes g
  stop_le : ∀ n r, m ≤ n → n < reach nodes g → nodes[n]? = some r → r.isContainer = true →
    r.stop ≤ g.start

/-- Group number `j` closes a container that no group before it closes. -/
def ClosesFirst (nodes : List NodeRef) (met : List CommentGroup) (j m : Nat) : Prop :=
  ∃ g, met[j]? = some g ∧ Closes nodes g m ∧ ∀ h ∈ met.take j, ¬ Closes nodes h m

/-- The container closed last by some groups: of the last group that closes one anew, the first. -/
def LastClosed (nodes : List NodeRef) (met : List CommentGroup) (m : Nat) : Prop :=
  ∃ j, ClosesFirst nodes met j m ∧ (∀ n < m, ¬ ClosesFirst nodes met j n) ∧
    ∀ i, j < i → ∀ n, ¬ ClosesFirst nodes met i n

/-- When a comment trails a node that stops at `nodeStop`, in numbers: it starts on the same line,
or so many lines below as the policy allows, with a blank line behind it if the policy asks for
one. -/
def Policy.Trails (policy : Policy) (nodeStop : Position) (comment : Span) (next : Position) :
    Prop :=
  comment.start.line.toNat = nodeStop.line.toNat ∨
    nodeStop.line.toNat < comment.start.line.toNat ∧
    comment.start.line.toNat - nodeStop.line.toNat ≤ policy.trailingLineGap.toNat ∧
    (policy.requireBlankLineAfter = true → comment.stop.line.toNat + 1 < next.line.toNat)

/-- The rules for a group `g`, the last of those met: it belongs to the container closed last if it
trails it; else to the node in front if it trails that one or nothing follows; else to the node
behind. -/
inductive Belongs (policy : Policy) (nodes : List NodeRef) (met : List CommentGroup)
    (g : CommentGroup) : Rule → NodeRef → Prop where
  | enclosing {m : Nat} {e : NodeRef} (hm : LastClosed nodes met m) (he : nodes[m]? = some e)
      (ht : policy.Trails e.stop g.span (nextPosition nodes[reach nodes g]?)) :
      Belongs policy nodes met g .enclosing e
  | previous {b : NodeRef}
      (he : ∀ m e, LastClosed nodes met m → nodes[m]? = some e →
        ¬ policy.Trails e.stop g.span (nextPosition nodes[reach nodes g]?))
      (hr : 0 < reach nodes g) (hb : nodes[reach nodes g - 1]? = some b)
      (ht : reach nodes g = nodes.length ∨
        policy.Trails b.stop g.span (nextPosition nodes[reach nodes g]?)) :
      Belongs policy nodes met g .previous b
  | following {r : NodeRef}
      (he : ∀ m e, LastClosed nodes met m → nodes[m]? = some e →
        ¬ policy.Trails e.stop g.span (nextPosition nodes[reach nodes g]?))
      (hb : ∀ b, 0 < reach nodes g → nodes[reach nodes g - 1]? = some b →
        reach nodes g ≠ nodes.length ∧
          ¬ policy.Trails b.stop g.span (nextPosition nodes[reach nodes g]?))
      (hr : nodes[reach nodes g]? = some r) :
      Belongs policy nodes met g .following r

/-! ## Trailing in numbers -/

/-- Neither the difference nor the sum of lines leaves the machine word. -/
theorem Policy.trails_iff (policy : Policy) (nodeStop : Position) (comment : Span)
    (next : Position) :
    policy.trails nodeStop comment next = true ↔ policy.Trails nodeStop comment next := by
  have hnext := next.line.toNat_lt
  simp only [trails, Trails, UInt32.lt_iff_toNat_lt, ← UInt32.toNat_inj]
  split
  · rename_i h
    simp [h]
  · rename_i hne
    split
    · rename_i hlt
      simp only [Bool.false_eq_true, false_iff]
      omega
    · rename_i hle
      have hsub : (comment.start.line - nodeStop.line).toNat =
          comment.start.line.toNat - nodeStop.line.toNat :=
        UInt32.toNat_sub_of_le _ _ (UInt32.le_iff_toNat_le.mpr (by omega))
      rw [hsub]
      split
      · rename_i hgap
        simp only [Bool.false_eq_true, false_iff]
        omega
      · simp only [toNat_saturatingAdd, Bool.or_eq_true, Bool.not_eq_true', decide_eq_true_eq]
        have hone : (1 : UInt32).toNat = 1 := rfl
        rw [hone]
        cases policy.requireBlankLineAfter with
        | false => simp; omega
        | true => simp; omega

/-! ## The number of nodes in front -/

theorem reach_le_length (nodes : List NodeRef) (g : CommentGroup) :
    reach nodes g ≤ nodes.length :=
  List.findIdx_le_length

theorem start_lt_of_lt_reach {nodes : List NodeRef} {g : CommentGroup} {m : Nat} {r : NodeRef}
    (hm : m < reach nodes g) (hr : nodes[m]? = some r) : r.start < g.stop := by
  obtain ⟨hlt, rfl⟩ := List.getElem?_eq_some_iff.mp hr
  have := List.not_of_lt_findIdx hm
  rwa [decide_eq_false_iff_not, ← Position.lt_iff_not_le] at this

theorem stop_le_of_getElem?_reach {nodes : List NodeRef} {g : CommentGroup} {r : NodeRef}
    (hr : nodes[reach nodes g]? = some r) : g.stop ≤ r.start := by
  have := List.findIdx_of_getElem?_eq_some hr
  rwa [decide_eq_true_eq] at this

theorem reach_le_of_getElem? {nodes : List NodeRef} {g : CommentGroup} {m : Nat} {r : NodeRef}
    (hr : nodes[m]? = some r) (h : g.stop ≤ r.start) : reach nodes g ≤ m := by
  by_contra hlt
  exact Position.lt_iff_not_le.mp (start_lt_of_lt_reach (Nat.not_le.mp hlt) hr) h

theorem reach_mono (nodes : List NodeRef) {a b : CommentGroup} (h : a.stop ≤ b.stop) :
    reach nodes a ≤ reach nodes b := by
  refine List.findIdx_le_findIdx fun r _ hr => ?_
  rw [decide_eq_true_eq] at hr ⊢
  exact Position.le_trans h hr

/-! ## What one more group closes -/

section Concat

variable {nodes : List NodeRef} {met : List CommentGroup} {g : CommentGroup}

/-- The container at an index is closed by one of the groups. -/
def ClosedBy (nodes : List NodeRef) (met : List CommentGroup) (m : Nat) : Prop :=
  ∃ h ∈ met, Closes nodes h m

theorem closedBy_concat {m : Nat} :
    ClosedBy nodes (met ++ [g]) m ↔ ClosedBy nodes met m ∨ Closes nodes g m := by
  simp [ClosedBy, or_and_right, exists_or]

theorem lt_length_of_closesFirst {j m : Nat} (h : ClosesFirst nodes met j m) : j < met.length := by
  obtain ⟨g, hg, -⟩ := h
  exact (List.getElem?_eq_some_iff.mp hg).1

theorem closesFirst_concat_of_lt {j m : Nat} (hj : j < met.length) :
    ClosesFirst nodes (met ++ [g]) j m ↔ ClosesFirst nodes met j m := by
  rw [ClosesFirst, ClosesFirst, List.getElem?_append_left hj,
    List.take_append_of_le_length (Nat.le_of_lt hj)]

theorem closesFirst_concat_length {m : Nat} :
    ClosesFirst nodes (met ++ [g]) met.length m ↔ Closes nodes g m ∧ ¬ ClosedBy nodes met m := by
  simp [ClosesFirst, ClosedBy]

/-- A group that closes containers anew leaves the first of these as the one closed last. -/
theorem lastClosed_concat_of_closes {m : Nat} (hm : Closes nodes g m ∧ ¬ ClosedBy nodes met m)
    (hmin : ∀ n < m, ¬ (Closes nodes g n ∧ ¬ ClosedBy nodes met n)) (n : Nat) :
    LastClosed nodes (met ++ [g]) n ↔ n = m := by
  rw [← closesFirst_concat_length] at hm
  simp only [← closesFirst_concat_length] at hmin
  constructor
  · rintro ⟨j, hj, hlow, hlast⟩
    have hlt := lt_length_of_closesFirst hj
    rw [List.length_append, List.length_singleton] at hlt
    have hjl : j = met.length := by
      rcases Nat.lt_or_ge j met.length with h | h
      · exact absurd hm (hlast _ h m)
      · omega
    subst hjl
    rcases Nat.lt_trichotomy n m with h | h | h
    · exact absurd hj (hmin n h)
    · exact h
    · exact absurd hm (hlow m h)
  · rintro rfl
    refine ⟨met.length, hm, hmin, fun i hi k hk => ?_⟩
    have := lt_length_of_closesFirst hk
    rw [List.length_append, List.length_singleton] at this
    omega

/-- A group that closes nothing anew leaves the container closed last as it was. -/
theorem lastClosed_concat_of_not_closes
    (h : ∀ m, ¬ (Closes nodes g m ∧ ¬ ClosedBy nodes met m)) (n : Nat) :
    LastClosed nodes (met ++ [g]) n ↔ LastClosed nodes met n := by
  simp only [← closesFirst_concat_length] at h
  have hiff : ∀ j m, ClosesFirst nodes (met ++ [g]) j m ↔ ClosesFirst nodes met j m := by
    intro j m
    rcases Nat.lt_trichotomy j met.length with hj | rfl | hj
    · exact closesFirst_concat_of_lt hj
    · refine iff_of_false (h m) fun hc => ?_
      exact absurd (lt_length_of_closesFirst hc) (Nat.lt_irrefl _)
    · refine iff_of_false (fun hc => ?_) fun hc => ?_
      · have := lt_length_of_closesFirst hc
        rw [List.length_append, List.length_singleton] at this
        omega
      · exact absurd (lt_length_of_closesFirst hc) (Nat.lt_asymm hj)
  simp only [LastClosed, hiff]

end Concat

/-! ## What the cursor knows -/

/-- Groups in source order of which none runs backwards. -/
structure InOrder (met : List CommentGroup) : Prop where
  forward : ∀ g ∈ met, g.start ≤ g.stop
  ordered : met.Pairwise fun a b => a.stop ≤ b.start

/-- What a cursor in front of node number `k` knows of the groups met so far. The stack holds the
containers passed and not closed, the innermost first. -/
structure Tracks (nodes : List NodeRef) (met : List CommentGroup) (k : Nat) (c : Cursor) :
    Prop where
  stands : c.StandsAt nodes k
  reach_le : ∀ h ∈ met, reach nodes h ≤ k
  opened : ∃ stack : List Nat, stack.Pairwise (· > ·) ∧
    stack.map (nodes[·]?) = c.surroundings.opened.map some ∧
    ∀ m, m ∈ stack ↔ m < k ∧ (∃ r, nodes[m]? = some r ∧ r.isContainer = true) ∧
      ¬ ClosedBy nodes met m
  enclosing : ∀ e, c.surroundings.enclosing = some e ↔
    ∃ m, LastClosed nodes met m ∧ nodes[m]? = some e

namespace Tracks

variable {nodes : List NodeRef} {met : List CommentGroup} {k : Nat} {c : Cursor}

theorem start (nodes : List NodeRef) : Tracks nodes [] 0 ⟨{}, nodes⟩ where
  stands := Cursor.standsAt_start nodes
  reach_le _ hh := nomatch hh
  opened := ⟨[], .nil, rfl, by simp⟩
  enclosing e := by
    refine iff_of_false nofun ?_
    rintro ⟨m, ⟨j, ⟨g, hg, -⟩, -⟩, -⟩
    cases hg

/-- Passing a node. -/
theorem pass {s : Surroundings} {r : NodeRef} {rest : List NodeRef}
    (h : Tracks nodes met k ⟨s, r :: rest⟩) : Tracks nodes met (k + 1) ⟨s.pass r, rest⟩ := by
  have hr : nodes[k]? = some r := by
    rw [← h.stands.next]
    rfl
  obtain ⟨stack, hdesc, hmap, hmem⟩ := h.opened
  have hfresh : ¬ ClosedBy nodes met k := by
    rintro ⟨g, hg, hc⟩
    have := h.reach_le g hg
    have := hc.lt_reach
    omega
  refine ⟨h.stands.pass, fun g hg => Nat.le_succ_of_le (h.reach_le g hg), ?_, h.enclosing⟩
  cases hc : r.isContainer with
  | true =>
    refine ⟨k :: stack, ?_, ?_, ?_⟩
    · rw [List.pairwise_cons]
      exact ⟨fun m hm => ((hmem m).mp hm).1, hdesc⟩
    · simp [Surroundings.pass, hc, hmap, hr]
    · intro m
      rw [List.mem_cons, hmem]
      constructor
      · rintro (rfl | ⟨hm, hrest⟩)
        · exact ⟨Nat.lt_succ_self _, ⟨r, hr, hc⟩, hfresh⟩
        · exact ⟨Nat.lt_succ_of_lt hm, hrest⟩
      · rintro ⟨hm, hrest⟩
        rcases Nat.lt_succ_iff_lt_or_eq.mp hm with hm | hm
        · exact .inr ⟨hm, hrest⟩
        · exact .inl hm
  | false =>
    refine ⟨stack, hdesc, ?_, ?_⟩
    · simp [Surroundings.pass, hc, hmap]
    · intro m
      rw [hmem]
      constructor
      · rintro ⟨hm, hrest⟩
        exact ⟨Nat.lt_succ_of_lt hm, hrest⟩
      · rintro ⟨hm, ⟨x, hx, hxc⟩, hrest⟩
        rcases Nat.lt_succ_iff_lt_or_eq.mp hm with hm | rfl
        · exact ⟨hm, ⟨x, hx, hxc⟩, hrest⟩
        · rw [hr, Option.some.injEq] at hx
          rw [← hx, hc] at hxc
          cases hxc

/-- Passing the nodes in front of a group. -/
theorem seek (h : Tracks nodes met k c) {g : CommentGroup} (hk : k ≤ reach nodes g) :
    Tracks nodes met (reach nodes g) (Cursor.seek g.stop c.surroundings c.ahead) := by
  obtain ⟨d, hd⟩ := Nat.exists_eq_add_of_le hk
  induction d generalizing k c with
  | zero =>
    obtain rfl : reach nodes g = k := hd
    obtain ⟨s, ahead⟩ := c
    cases ahead with
    | nil => exact h
    | cons r rest =>
      have hr : g.stop ≤ r.start := stop_le_of_getElem?_reach h.stands.next.symm
      rw [Cursor.seek, if_neg (by rwa [Position.lt_iff_not_le, not_not])]
      exact h
  | succ d ih =>
    obtain ⟨s, ahead⟩ := c
    cases ahead with
    | nil =>
      have hn := h.stands.next
      have := reach_le_length nodes g
      rw [Cursor.next, List.head?_nil, eq_comm, List.getElem?_eq_none_iff] at hn
      omega
    | cons r rest =>
      have hr : r.start < g.stop := start_lt_of_lt_reach (by omega) h.stands.next.symm
      rw [Cursor.seek, if_pos hr]
      exact ih h.pass (by omega) (by omega)

/-- Of the open containers a group closes anew those at the top of the stack, as far down as they
stop where the group starts or before: the containers that are not on the stack any more were
closed by groups before, and stop even earlier. -/
theorem mem_top_iff {g : CommentGroup} {top bottom : List Nat}
    (hdesc : (top ++ bottom).Pairwise (· > ·))
    (hmem : ∀ m, m ∈ top ++ bottom ↔ m < reach nodes g ∧
      (∃ r, nodes[m]? = some r ∧ r.isContainer = true) ∧ ¬ ClosedBy nodes met m)
    (htop : ∀ m ∈ top, ∀ r, nodes[m]? = some r → r.stop ≤ g.start)
    (hbottom : ∀ m, bottom.head? = some m → ∃ r, nodes[m]? = some r ∧ g.start < r.stop)
    (hmet : ∀ h ∈ met, h.start ≤ g.start) (m : Nat) :
    m ∈ top ↔ Closes nodes g m ∧ ¬ ClosedBy nodes met m := by
  obtain ⟨-, hdown, hcross⟩ := List.pairwise_append.mp hdesc
  constructor
  · intro hm
    obtain ⟨hlt, hcont, hopen⟩ := (hmem m).mp (List.mem_append_left _ hm)
    refine ⟨⟨hcont, hlt, ?_⟩, hopen⟩
    intro n r hmn hn hr hrc
    by_cases hcl : ClosedBy nodes met n
    · obtain ⟨h, hh, hc⟩ := hcl
      exact Position.le_trans (hc.stop_le n r (Nat.le_refl n) hc.lt_reach hr hrc) (hmet h hh)
    · rcases List.mem_append.mp ((hmem n).mpr ⟨hn, ⟨r, hr, hrc⟩, hcl⟩) with hn | hn
      · exact htop n hn r hr
      · have := hcross m hm n hn
        omega
  · rintro ⟨hc, hopen⟩
    rcases List.mem_append.mp ((hmem m).mpr ⟨hc.lt_reach, hc.container, hopen⟩) with hm | hm
    · exact hm
    · cases bottom with
      | nil => cases hm
      | cons d bottom =>
        obtain ⟨r, hr, hlt⟩ := hbottom d rfl
        obtain ⟨hd, ⟨x, hx, hxc⟩, -⟩ := (hmem d).mp (by simp)
        rw [hr, Option.some.injEq] at hx
        have hmd : m ≤ d := by
          rcases List.mem_cons.mp hm with rfl | hm
          · exact Nat.le_refl m
          · exact Nat.le_of_lt (List.rel_of_pairwise_cons hdown hm)
        have := hc.stop_le d r hmd hd hr (hx ▸ hxc)
        exact absurd this (Position.lt_iff_not_le.mp hlt)

/-- The last container that comes off the stack is the one closed last; if none does, it stays the
same. -/
theorem lastClosed_iff_of_closes {g : CommentGroup} {top : List Nat} {closed : List NodeRef}
    {enclosing : Option NodeRef} (hdesc : top.Pairwise (· > ·))
    (htop : top.map (nodes[·]?) = closed.map some)
    (hnew : ∀ m, m ∈ top ↔ Closes nodes g m ∧ ¬ ClosedBy nodes met m)
    (henc : ∀ e, enclosing = some e ↔ ∃ m, LastClosed nodes met m ∧ nodes[m]? = some e)
    (e : NodeRef) :
    closed.getLast?.or enclosing = some e ↔
      ∃ m, LastClosed nodes (met ++ [g]) m ∧ nodes[m]? = some e := by
  rcases List.eq_nil_or_concat' top with rfl | ⟨init, m, rfl⟩
  · obtain rfl : closed = [] := by simpa using htop.symm
    have hno : ∀ m, ¬ (Closes nodes g m ∧ ¬ ClosedBy nodes met m) := by
      intro m hm
      exact nomatch (hnew m).mpr hm
    simp only [List.getLast?_nil, Option.none_or, henc, lastClosed_concat_of_not_closes hno]
  · have hlast := congrArg List.getLast? htop
    rw [List.map_append, List.map_singleton, List.getLast?_concat, List.getLast?_map, eq_comm,
      Option.map_eq_some_iff] at hlast
    obtain ⟨x, hx, hmx⟩ := hlast
    have hmin : ∀ n < m, ¬ (Closes nodes g n ∧ ¬ ClosedBy nodes met n) := by
      intro n hn hc
      rcases List.mem_append.mp ((hnew n).mpr hc) with hi | hi
      · have := (List.pairwise_append.mp hdesc).2.2 n hi m (List.mem_singleton_self m)
        omega
      · rw [List.mem_singleton] at hi
        omega
    have hm := (hnew m).mp (List.mem_append_right _ (List.mem_singleton_self m))
    rw [hx, Option.some_or, Option.some.injEq]
    simp only [lastClosed_concat_of_closes hm hmin, exists_eq_left, ← hmx, Option.some.injEq]

/-- Closing containers in front of a group. -/
theorem close {g : CommentGroup} {s : Surroundings} {ahead : List NodeRef}
    (h : Tracks nodes met (reach nodes g) ⟨s, ahead⟩) (hmet : ∀ h ∈ met, h.start ≤ g.start) :
    Tracks nodes (met ++ [g]) (reach nodes g) ⟨s.meet g.start, ahead⟩ := by
  obtain ⟨stack, hdesc, hmap, hmem⟩ := h.opened
  obtain ⟨closed, left, ho, hclosed, hleft, heq⟩ :=
    Surroundings.closeUpTo_eq g.start s.enclosing s.opened
  simp only [ho, List.map_append] at hmap
  obtain ⟨top, bottom, rfl, htop, hbottom⟩ := List.map_eq_append_iff.mp hmap
  have hnew : ∀ m, m ∈ top ↔ Closes nodes g m ∧ ¬ ClosedBy nodes met m := by
    refine mem_top_iff hdesc hmem ?_ ?_ hmet
    · intro m hm r hr
      have : nodes[m]? ∈ closed.map some := htop ▸ List.mem_map_of_mem hm
      rw [hr, List.mem_map] at this
      obtain ⟨x, hx, ⟨⟩⟩ := this
      exact hclosed r hx
    · intro m hm
      have := congrArg List.head? hbottom
      rw [List.head?_map, hm, List.head?_map, Option.map_some, eq_comm,
        Option.map_eq_some_iff] at this
      obtain ⟨r, hr, hmr⟩ := this
      exact ⟨r, hmr.symm, hleft r hr⟩
  have hmeet : s.meet g.start = ⟨s.previous, closed.getLast?.or s.enclosing, left⟩ := by
    simp only [Surroundings.meet, heq]
  have hstands := h.stands.close g.start
  rw [hmeet] at hstands ⊢
  refine ⟨hstands, ?_, ⟨bottom, ?_, hbottom, ?_⟩, ?_⟩
  · intro x hx
    rcases List.mem_append.mp hx with hx | hx
    · exact h.reach_le x hx
    · exact Nat.le_of_eq (by rw [List.mem_singleton.mp hx])
  · exact (List.pairwise_append.mp hdesc).2.1
  · intro m
    rw [closedBy_concat, not_or]
    constructor
    · intro hm
      obtain ⟨hlt, hcont, hopen⟩ := (hmem m).mp (List.mem_append_right _ hm)
      refine ⟨hlt, hcont, hopen, fun hc => ?_⟩
      have := (List.pairwise_append.mp hdesc).2.2 m ((hnew m).mpr ⟨hc, hopen⟩) m hm
      omega
    · rintro ⟨hlt, hcont, hopen, hc⟩
      rcases List.mem_append.mp ((hmem m).mpr ⟨hlt, hcont, hopen⟩) with hm | hm
      · exact absurd ((hnew m).mp hm).1 hc
      · exact hm
  · exact lastClosed_iff_of_closes (List.pairwise_append.mp hdesc).1 htop hnew h.enclosing

/-- The step that one group makes. -/
theorem meet {g : CommentGroup} (h : Tracks nodes met k c) (ho : InOrder (met ++ [g]))
    (hk : k ≤ reach nodes g) : Tracks nodes (met ++ [g]) (reach nodes g) (c.meet g) := by
  refine (h.seek hk).close fun x hx => ?_
  have hxg := (List.pairwise_append.mp ho.ordered).2.2 x hx g (List.mem_singleton_self g)
  exact Position.le_trans (ho.forward x (List.mem_append_left _ hx)) hxg

/-- What the rules decide from what the cursor knows is where the group belongs. -/
theorem decides_iff_belongs {g : CommentGroup} (h : Tracks nodes met (reach nodes g) c)
    {policy : Policy} {rule : Rule} {r : NodeRef} :
    Decides policy c.surroundings c.next g.span rule r ↔ Belongs policy nodes met g rule r := by
  constructor
  · intro hd
    cases hd with
    | enclosing he ht =>
      obtain ⟨m, hm, hr⟩ := (h.enclosing r).mp he
      rw [Policy.trails_iff, h.stands.next] at ht
      exact .enclosing hm hr ht
    | previous he hb ht =>
      obtain ⟨hpos, hb⟩ := (h.stands.previous_eq_some_iff r).mp hb
      rw [h.stands.next_eq_none_iff, Policy.trails_iff, h.stands.next] at ht
      refine .previous (fun m e hm hr => ?_) hpos hb ht
      rw [← Policy.trails_iff, ← h.stands.next, Bool.not_eq_true]
      exact he e ((h.enclosing e).mpr ⟨m, hm, hr⟩)
    | following he hb hn =>
      refine .following (fun m e hm hr => ?_) (fun b hpos hr => ⟨?_, ?_⟩) (h.stands.next ▸ hn)
      · rw [← Policy.trails_iff, ← h.stands.next, Bool.not_eq_true]
        exact he e ((h.enclosing e).mpr ⟨m, hm, hr⟩)
      · rw [Ne, ← h.stands.next_eq_none_iff, hn]
        exact nofun
      · rw [← Policy.trails_iff, ← h.stands.next, Bool.not_eq_true]
        exact hb b ((h.stands.previous_eq_some_iff b).mpr ⟨hpos, hr⟩)
  · intro hb
    have hfar : (∀ m e, LastClosed nodes met m → nodes[m]? = some e →
        ¬ policy.Trails e.stop g.span (nextPosition nodes[reach nodes g]?)) →
        ∀ e, c.surroundings.enclosing = some e →
          policy.trails e.stop g.span (nextPosition c.next) = false := by
      intro hfar e he
      obtain ⟨m, hm, hr⟩ := (h.enclosing e).mp he
      rw [← Bool.not_eq_true, Policy.trails_iff, h.stands.next]
      exact hfar m e hm hr
    cases hb with
    | enclosing hm he ht =>
      refine .enclosing ((h.enclosing r).mpr ⟨_, hm, he⟩) ?_
      rwa [Policy.trails_iff, h.stands.next]
    | previous he hr hb ht =>
      refine .previous (hfar he) ((h.stands.previous_eq_some_iff r).mpr ⟨hr, hb⟩) ?_
      rwa [h.stands.next_eq_none_iff, Policy.trails_iff, h.stands.next]
    | following he hb hr =>
      refine .following (hfar he) (fun b hp => ?_) (h.stands.next ▸ hr)
      obtain ⟨hpos, hp⟩ := (h.stands.previous_eq_some_iff b).mp hp
      rw [← Bool.not_eq_true, Policy.trails_iff, h.stands.next]
      exact (hb b hpos hp).2

end Tracks

theorem InOrder.of_append {met rest : List CommentGroup} (h : InOrder (met ++ rest)) :
    InOrder met :=
  ⟨fun g hg => h.forward g (List.mem_append_left _ hg), (List.pairwise_append.mp h.ordered).1⟩

/-- Behind every group the cursor stands in front of the nodes that the group reaches, and knows
what the groups up to this one have closed. -/
theorem tracks_after {nodes : List NodeRef} {met : List CommentGroup} {g : CommentGroup}
    (h : InOrder (met ++ [g])) :
    Tracks nodes (met ++ [g]) (reach nodes g) (Cursor.after ⟨{}, nodes⟩ (met ++ [g])) := by
  induction met using List.reverseRecOn generalizing g with
  | nil => exact (Tracks.start nodes).meet h (Nat.zero_le _)
  | append_singleton met x ih =>
    rw [Cursor.after_concat]
    refine (ih h.of_append).meet h (reach_mono nodes ?_)
    have hxg := (List.pairwise_append.mp h.ordered).2.2 x (by simp) g (by simp)
    exact Position.le_trans hxg (h.forward g (by simp))

/-! ## Groups in order -/

/-- A list of groups is accepted if each starts where the one in front stops or later. -/
theorem CommentGroup.isChain_of_firstDisorder? {gs : List CommentGroup}
    (h : firstDisorder? gs = none) : gs.IsChain fun a b => a.stop ≤ b.start := by
  fun_induction firstDisorder? gs with
  | case1 => cases h
  | case2 a b rest hab ih =>
    rw [Position.lt_iff_not_le, not_not] at hab
    exact .cons_cons hab (ih h)
  | case3 gs hgs =>
    match gs with
    | [] => exact .nil
    | [a] => exact .singleton a
    | a :: b :: rest => exact absurd rfl (hgs a b rest)

/-- If no group runs backwards, order between neighbours is order between all. -/
theorem inOrder_of_isChain {gs : List CommentGroup} (hf : ∀ g ∈ gs, g.start ≤ g.stop)
    (hc : gs.IsChain fun a b => a.stop ≤ b.start) : InOrder gs :=
  ⟨hf, pairwise_of_isChain hf hc⟩

namespace Script

theorem inOrder_comments {s : Script} (hf : ∀ g ∈ s.comments, g.start ≤ g.stop) :
    InOrder s.comments :=
  inOrder_of_isChain hf (CommentGroup.isChain_of_firstDisorder? s.comments_ordered)

theorem inOrder_take {s : Script} {n : Nat} (hf : ∀ g ∈ s.comments.take n, g.start ≤ g.stop) :
    InOrder (s.comments.take n) :=
  inOrder_of_isChain hf
    ((CommentGroup.isChain_of_firstDisorder? s.comments_ordered).take n)

/-- What the pass knows when it has met a group, if neither this group nor one before it runs
backwards. -/
theorem tracks_cursorAt {s : Script} {i : Nat} {g : CommentGroup} (hg : s.comments[i]? = some g)
    (hf : ∀ h ∈ s.comments.take (i + 1), h.start ≤ h.stop) :
    Tracks s.nodes (s.comments.take (i + 1)) (reach s.nodes g) (s.cursorAt i) := by
  have ho := inOrder_take hf
  rw [take_comments_of_getElem? hg] at ho
  rw [cursorAt, take_comments_of_getElem? hg]
  exact tracks_after ho

/-- A group is placed where it belongs, if neither it nor a group before it runs backwards. -/
theorem getElem?_placements_iff_belongs {s : Script} {policy : Policy} {ps : List Placement}
    (hc : policy.check = .ok ()) (hps : s.placements policy = .ok ps) {i : Nat} {g : CommentGroup}
    (hg : s.comments[i]? = some g) (hf : ∀ h ∈ s.comments.take (i + 1), h.start ≤ h.stop)
    (rule : Rule) (r : NodeRef) :
    ps[i]? = some ⟨⟨i, g⟩, rule, r⟩ ↔
      Belongs policy s.nodes (s.comments.take (i + 1)) g rule r := by
  obtain ⟨rule', r', hp, hd⟩ := exists_decides hc hps hg
  rw [← (tracks_cursorAt hg hf).decides_iff_belongs, hp]
  constructor
  · rintro ⟨⟩
    exact hd
  · intro hd'
    obtain ⟨rfl, rfl⟩ := hd'.unique hd
    rfl

theorem getElem?_placementLog {s : Script} {ps : List Placement} {i : Nat} {p : Placement}
    (hg : ps.map (·.group) = s.groups) (hp : ps[i]? = some p) :
    (s.placementLog ps)[i + 1]? = some (.placed p) := by
  have hi := (List.getElem?_eq_some_iff.mp hp).1
  rw [length_placements hg] at hi
  have hne : s.comments.isEmpty = false := by
    rw [List.isEmpty_eq_false_iff]
    rintro he
    simp [he] at hi
  simp [placementLog, hne, hp]

/-- The pass is the rules: under a consistent policy, and if no group runs backwards, every group is
placed and attached where it belongs, and logged with the rule by which it belongs there. -/
theorem placements_belong (s : Script) (policy : Policy) (hc : policy.check = .ok ())
    (hf : ∀ g ∈ s.comments, g.start ≤ g.stop) :
    ∃ ps index, s.placements policy = .ok ps ∧ s.commentIndex policy = .ok index ∧
      ps.map (·.group) = s.groups ∧
      ∀ i g, s.comments[i]? = some g → ∀ rule r,
        (ps[i]? = some ⟨⟨i, g⟩, rule, r⟩ ↔
          Belongs policy s.nodes (s.comments.take (i + 1)) g rule r) ∧
        (Belongs policy s.nodes (s.comments.take (i + 1)) g rule r →
          (s.placementLog ps)[i + 1]? = some (.placed ⟨⟨i, g⟩, rule, r⟩) ∧
          ∀ n, ⟨i, g⟩ ∈ index.lookup n ↔ n.same r = true) := by
  obtain ⟨ps, hps, hgroups, -⟩ := exists_placements hc s
  refine ⟨ps, _, hps, commentIndex_of_placements hps, hgroups, fun i g hg rule r => ?_⟩
  have hiff := getElem?_placements_iff_belongs hc hps hg
    (fun h hh => hf h (List.mem_of_mem_take hh)) rule r
  refine ⟨hiff, fun hb => ⟨getElem?_placementLog hgroups (hiff.mpr hb), fun n => ?_⟩⟩
  exact CommentIndex.mem_lookup_ofPlacements_iff (pairwise_number_placements hgroups)
    (List.mem_of_getElem? (hiff.mpr hb)) n

/-- A comment on the second line. -/
def pairComment : CommentGroup :=
  ⟨⟨⟨"-- b", ⟨⟨2, 15⟩, ⟨2, 19⟩⟩⟩, []⟩⟩

/-- Two statements on two lines, and a comment behind the second. -/
def commentedPair : Script where
  statements := ⟨.dropOnLine 1, [.dropOnLine 2]⟩
  comments := [pairComment]
  comments_ordered := rfl

theorem nodes_commentedPair :
    commentedPair.nodes =
      [⟨⟨0, [0]⟩, .statement (.dropOnLine 1)⟩, ⟨⟨0, [0, 0]⟩, .ident ⟨"a", ⟨⟨1, 12⟩, ⟨1, 13⟩⟩⟩⟩,
        ⟨⟨0, [1]⟩, .statement (.dropOnLine 2)⟩,
        ⟨⟨0, [1, 0]⟩, .ident ⟨"a", ⟨⟨2, 12⟩, ⟨2, 13⟩⟩⟩⟩] := by
  simp [nodes, ref, NodeRef.root, NodeRef.preorder_eq, NodeRef.children, Address.child,
    commentedPair, Node.children, Statement.children, Statement.dropOnLine, Node.ident,
    Expr.children]

theorem placements_commentedPair :
    commentedPair.placements .standard =
      .ok [⟨⟨0, pairComment⟩, .enclosing, ⟨⟨0, [0]⟩, .statement (.dropOnLine 1)⟩⟩] := by
  rw [placements_of_check rfl, nodes_commentedPair]
  rfl

/-- The comment of `commentedPair` belongs to the container closed last, the first statement. -/
theorem belongs_commentedPair :
    Policy.standard.check = .ok () ∧ (∀ g ∈ commentedPair.comments, g.start ≤ g.stop) ∧
      Belongs .standard commentedPair.nodes commentedPair.comments pairComment .enclosing
        ⟨⟨0, [0]⟩, .statement (.dropOnLine 1)⟩ := by
  have hf : ∀ g ∈ commentedPair.comments, g.start ≤ g.stop := by decide
  refine ⟨rfl, hf, ?_⟩
  obtain ⟨ps, index, hps, -, -, h⟩ := placements_belong commentedPair .standard rfl hf
  obtain rfl := Except.ok.inj (placements_commentedPair.symm.trans hps)
  exact (h 0 _ rfl _ _).1.mp rfl

end Script

end SqlScript
