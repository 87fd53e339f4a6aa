import SqlScript.Proofs.Attachment.ClosedForm
import SqlScript.Proofs.Node.Moving

/-!
# Moving a script down

A script that is moved down by some lines keeps its comments where they are. The pass compares
positions of the script with each other, and these move together. The end of input does not move,
but as long as there is room in front of it, it stays far behind every comment:

* `CommentGroup.Below`, `Surroundings.Below`, `Cursor.Below`: a group, and what the pass knows, in
  the script and further down;
* `Cursor.Below.meet`, `Cursor.Below.after`: one group keeps the two passes together, and so does
  every list of groups;
* `Policy.trails_eq_of_below`, `Decides.below`: and then the rules decide alike;
* `Script.attaches_movedDown`: so every group is attached by the same rule to the same node.
-/

namespace SqlScript

/-- The second statement is the first with all positions moved down. -/
def Statement.MovedDown (d : UInt32) (t t' : Statement) : Prop :=
  (Node.statement t).MovedDown d (.statement t')

/-! ## Comment groups -/

namespace CommentGroup

/-- The second group is the first with all positions moved down. -/
def MovedDown (d : UInt32) (g g' : CommentGroup) : Prop :=
  (Node.commentGroup g).MovedDown d (.commentGroup g')

/-- The second group is so many lines below the first, with two more lines behind it. -/
structure Below (d : Nat) (g g' : CommentGroup) : Prop where
  start : Position.Below d g.start g'.start
  stop : Position.Below d g.stop g'.stop
  room : g'.stop.line.toNat ≤ maxWord.toNat - 2

theorem below_of_movedDown {d : UInt32} {g g' : CommentGroup} (h : g.MovedDown d g')
    (hd : ∀ p ∈ (Node.commentGroup g).positions, p.HasRoom d) : Below d.toNat g g' := by
  have hstop : Position.Below d.toNat g.stop g'.stop := Node.below_stop_of_movedDown h rfl hd
  refine ⟨Node.below_start_of_movedDown h rfl hd, hstop, ?_⟩
  rw [hstop.line]
  exact hd _ (List.mem_of_getLast? (Node.getLast?_positions rfl))

/-- Groups that are in order stay so. -/
theorem firstDisorder?_eq_none_of_below {d : Nat} {gs gs' : List CommentGroup}
    (h : List.Forall₂ (Below d) gs gs') (ho : firstDisorder? gs = none) :
    firstDisorder? gs' = none := by
  induction h with
  | nil => rfl
  | cons ha hrest ih =>
    cases hrest with
    | nil => rfl
    | cons hb hrest =>
      simp only [firstDisorder?, hb.start.lt_iff ha.stop] at ho ⊢
      split at ho
      · cases ho
      · rename_i hab
        rw [if_neg hab]
        exact ih ho

end CommentGroup

/-! ## The pass -/

variable {d : Nat}

namespace Surroundings

/-- What is known in a script and, so many lines below, in its copy. -/
structure Below (d : Nat) (s s' : Surroundings) : Prop where
  previous : Option.Rel (NodeRef.Below d) s.previous s'.previous
  enclosing : Option.Rel (NodeRef.Below d) s.enclosing s'.enclosing
  opened : List.Forall₂ (NodeRef.Below d) s.opened s'.opened

theorem closeUpTo_below {p p' : Position} {e e' : Option NodeRef} {opened opened' : List NodeRef}
    (hp : Position.Below d p p') (he : Option.Rel (NodeRef.Below d) e e')
    (ho : List.Forall₂ (NodeRef.Below d) opened opened') :
    Option.Rel (NodeRef.Below d) (closeUpTo p e opened).1 (closeUpTo p' e' opened').1 ∧
      List.Forall₂ (NodeRef.Below d) (closeUpTo p e opened).2 (closeUpTo p' e' opened').2 := by
  induction ho generalizing e e' with
  | nil => exact ⟨he, .nil⟩
  | cons htop hrest ih =>
    simp only [closeUpTo, hp.lt_iff htop.stop]
    split
    · exact ⟨he, .cons htop hrest⟩
    · exact ih (.some htop)

variable {s s' : Surroundings}

theorem Below.meet (h : s.Below d s') {p p' : Position} (hp : Position.Below d p p') :
    (s.meet p).Below d (s'.meet p') := by
  obtain ⟨henclosing, hopened⟩ := closeUpTo_below hp h.enclosing h.opened
  exact ⟨h.previous, henclosing, hopened⟩

theorem Below.pass (h : s.Below d s') {r r' : NodeRef} (hr : r.Below d r') :
    (s.pass r).Below d (s'.pass r') := by
  refine ⟨.some hr, h.enclosing, ?_⟩
  simp only [Surroundings.pass, hr.isContainer]
  split
  · exact .cons hr h.opened
  · exact h.opened

end Surroundings

namespace Cursor

/-- A place in the pass over a script and, so many lines below, in the pass over its copy. -/
structure Below (d : Nat) (c c' : Cursor) : Prop where
  surroundings : c.surroundings.Below d c'.surroundings
  ahead : List.Forall₂ (NodeRef.Below d) c.ahead c'.ahead

theorem below_seek {p p' : Position} {s s' : Surroundings} {nodes nodes' : List NodeRef}
    (hp : Position.Below d p p') (hs : s.Below d s')
    (hn : List.Forall₂ (NodeRef.Below d) nodes nodes') :
    (seek p s nodes).Below d (seek p' s' nodes') := by
  induction hn generalizing s s' with
  | nil => exact ⟨hs, .nil⟩
  | cons hr hrest ih =>
    simp only [seek, hr.start.lt_iff hp]
    split
    · exact ih (hs.pass hr)
    · exact ⟨hs, .cons hr hrest⟩

variable {c c' : Cursor}

theorem Below.next (h : c.Below d c') : Option.Rel (NodeRef.Below d) c.next c'.next :=
  rel_head? h.ahead

/-- The step that one group makes keeps the two passes together. -/
theorem Below.meet (h : c.Below d c') {g g' : CommentGroup} (hg : g.Below d g') :
    (c.meet g).Below d (c'.meet g') := by
  have hseek := below_seek hg.stop h.surroundings h.ahead
  exact ⟨hseek.surroundings.meet hg.start, hseek.ahead⟩

/-- So do all groups one after the other. -/
theorem Below.after (h : c.Below d c') {gs gs' : List CommentGroup}
    (hg : List.Forall₂ (CommentGroup.Below d) gs gs') : (c.after gs).Below d (c'.after gs') :=
  List.rel_foldl (fun _ _ hc _ _ hg => hc.meet hg) h hg

end Cursor

/-! ## The rules -/

section Rules

variable {policy : Policy} {g g' : CommentGroup} {next next' : Option NodeRef}

/-- Lines are compared as before: those of the script have moved together, and the end of input was
out of the comment's reach and still is. -/
theorem Policy.trails_eq_of_below {p p' : Position} (hp : Position.Below d p p')
    (hg : g.Below d g') (hn : Option.Rel (NodeRef.Below d) next next') :
    policy.trails p' g'.span (nextPosition next') = policy.trails p g.span (nextPosition next) := by
  have hnext : g'.stop.line.toNat + 1 < (nextPosition next').line.toNat ↔
      g.stop.line.toNat + 1 < (nextPosition next).line.toNat := by
    have hstop := hg.stop.line
    cases hn with
    | some hr =>
      have hline := hr.start.line
      simp only [nextPosition]
      omega
    | none =>
      -- The end of input stays where it is, two lines behind either comment.
      have hroom := hg.room
      simp only [nextPosition, Position.infinity, toNat_maxWord] at hroom ⊢
      omega
  rw [Bool.eq_iff_iff, trails_iff, trails_iff, Trails, Trails]
  simp only [CommentGroup.span, hg.start.line, hp.line, hnext, Nat.add_right_cancel_iff,
    Nat.add_lt_add_iff_right, Nat.add_sub_add_right]

theorem not_trails_of_below {o o' : Option NodeRef} (ho : Option.Rel (NodeRef.Below d) o o')
    (hg : g.Below d g') (hn : Option.Rel (NodeRef.Below d) next next')
    (h : ∀ e, o = some e → policy.trails e.stop g.span (nextPosition next) = false) (e' : NodeRef)
    (he' : o' = some e') : policy.trails e'.stop g'.span (nextPosition next') = false := by
  obtain ⟨e, he, hbelow⟩ := exists_of_rel_right ho he'
  rw [Policy.trails_eq_of_below hbelow.stop hg hn]
  exact h e he

/-- The rules decide for the copy of the node for which they decide in the script. -/
theorem Decides.below {s s' : Surroundings} {rule : Rule} {r : NodeRef} (hs : s.Below d s')
    (hn : Option.Rel (NodeRef.Below d) next next') (hg : g.Below d g')
    (h : Decides policy s next g.span rule r) :
    ∃ r', r.Below d r' ∧ Decides policy s' next' g'.span rule r' := by
  cases h with
  | enclosing he ht =>
    obtain ⟨r', hr', hbelow⟩ := exists_of_rel_left hs.enclosing he
    rw [← Policy.trails_eq_of_below hbelow.stop hg hn] at ht
    exact ⟨r', hbelow, .enclosing hr' ht⟩
  | previous he hb ht =>
    obtain ⟨r', hr', hbelow⟩ := exists_of_rel_left hs.previous hb
    refine ⟨r', hbelow, .previous (not_trails_of_below hs.enclosing hg hn he) hr' ?_⟩
    rw [Policy.trails_eq_of_below hbelow.stop hg hn]
    refine ht.imp_left ?_
    rintro rfl
    cases hn
    rfl
  | following he hb hr =>
    obtain ⟨r', hr', hbelow⟩ := exists_of_rel_left hn hr
    exact ⟨r', hbelow, .following (not_trails_of_below hs.enclosing hg hn he)
      (not_trails_of_below hs.previous hg hn hb) hr'⟩

end Rules

/-! ## Scripts -/

namespace Script

/-- The second script is the first with all positions moved down, those of the statements and those
of the comments. -/
structure MovedDown (d : UInt32) (s s' : Script) : Prop where
  statements : List.Forall₂ (Statement.MovedDown d) s.statements.toList s'.statements.toList
  comments : List.Forall₂ (CommentGroup.MovedDown d) s.comments s'.comments

/-- There are so many lines below every position of a script, and two more. -/
structure HasRoom (d : UInt32) (s : Script) : Prop where
  statements : ∀ t ∈ s.statements.toList, ∀ p ∈ (Node.statement t).positions, p.HasRoom d
  comments : ∀ g ∈ s.comments, ∀ p ∈ (Node.commentGroup g).positions, p.HasRoom d

theorem eq_of_mem_nodes {s : Script} {r r' : NodeRef} (hr : r ∈ s.nodes) (hr' : r' ∈ s.nodes)
    (h : r.address = r'.address) : r = r' :=
  List.inj_on_of_nodup_map s.nodup_address_nodes hr hr' h

variable {d : UInt32} {s s' : Script}

theorem HasRoom.positions (h : s.HasRoom d) (p : Position) (hp : p ∈ (Node.script s).positions) :
    p.HasRoom d := by
  rw [Node.positions_script, List.mem_flatMap] at hp
  obtain ⟨t, ht, hp⟩ := hp
  exact h.statements t ht p hp

theorem forall₂_below_comments {comments : List CommentGroup} (hd : s.HasRoom d)
    (h : List.Forall₂ (CommentGroup.MovedDown d) s.comments comments) :
    List.Forall₂ (CommentGroup.Below d.toNat) s.comments comments := by
  refine forall₂_of_mem h fun g hg g' hmoved => ?_
  exact CommentGroup.below_of_movedDown hmoved (hd.comments g hg)

/-- What is moved down makes up a script again. -/
theorem exists_ofParts_of_movedDown {statements : List Statement} {comments : List CommentGroup}
    (hd : s.HasRoom d)
    (hs : List.Forall₂ (Statement.MovedDown d) s.statements.toList statements)
    (hc : List.Forall₂ (CommentGroup.MovedDown d) s.comments comments) :
    ∃ s', ofParts statements comments = .ok s' ∧ s.MovedDown d s' := by
  have ho := CommentGroup.firstDisorder?_eq_none_of_below (forall₂_below_comments hd hc)
    s.comments_ordered
  cases statements with
  | nil => cases hs
  | cons t rest =>
    refine ⟨⟨⟨t, rest⟩, comments, ho⟩, ?_, hs, hc⟩
    unfold ofParts
    split
    · rename_i h
      rw [ho] at h
      cases h
    · rfl

namespace MovedDown

theorem children (h : s.MovedDown d s') :
    List.Forall₂ (NodeRef.MovedDown d) s.ref.children s'.ref.children := by
  have hnodes : List.Forall₂ (Node.MovedDown d) (s.statements.toList.map .statement)
      (s'.statements.toList.map .statement) :=
    List.forall₂_map_left_iff.mpr (List.forall₂_map_right_iff.mpr h.statements)
  exact forall₂_mapIdx hnodes fun _ _ _ _ hc => ⟨rfl, hc⟩

/-- Every node of every statement moves with the script. -/
theorem preorders (h : s.MovedDown d s') (hd : s.HasRoom d) :
    List.Forall₂ (fun t t' => List.Forall₂ (NodeRef.Below d.toNat) t.preorder t'.preorder)
      s.ref.children s'.ref.children := by
  refine forall₂_of_mem h.children fun t ht t' hmoved => ?_
  have hmem := NodeRef.node_mem_of_mem_children ht
  refine hmoved.forall₂_below (Node.isScript_of_mem_children hmem) fun p hp => ?_
  exact hd.positions p (Node.positions_subset_of_mem_children hmem hp)

theorem nodes (h : s.MovedDown d s') (hd : s.HasRoom d) :
    List.Forall₂ (NodeRef.Below d.toNat) s.nodes s'.nodes :=
  List.rel_flatMap (h.preorders hd) fun _ _ ht => ht

theorem extents (h : s.MovedDown d s') (hd : s.HasRoom d) :
    List.Forall₂ (fun t t' : Statement => Position.Below d.toNat t.start t'.start ∧
      Position.Below d.toNat t.stop t'.stop) s.statements.toList s'.statements.toList := by
  refine forall₂_of_mem h.statements fun t ht t' hmoved => ?_
  have hroom := hd.statements t ht
  exact ⟨Node.below_start_of_movedDown hmoved rfl hroom,
    Node.below_stop_of_movedDown hmoved rfl hroom⟩

theorem below_start (h : s.MovedDown d s') (hd : s.HasRoom d) :
    Position.Below d.toNat s.start s'.start := by
  have hstatement : Position.Below d.toNat s.statements.head.start s'.statements.head.start :=
    (rel_some (rel_head? (h.extents hd))).1
  have hcomments := rel_head? (forall₂_below_comments hd h.comments)
  unfold Script.start
  generalize s.comments.head? = g at hcomments
  generalize s'.comments.head? = g' at hcomments
  cases hcomments with
  | none => exact hstatement
  | some hg => exact hstatement.min hg.start

theorem below_stop (h : s.MovedDown d s') (hd : s.HasRoom d) :
    Position.Below d.toNat s.stop s'.stop := by
  have hstatement : Position.Below d.toNat s.statements.last.stop s'.statements.last.stop := by
    have hlast := rel_getLast? (h.extents hd)
    rw [NonEmptyList.getLast?_toList, NonEmptyList.getLast?_toList] at hlast
    exact (rel_some hlast).2
  have hcomments := rel_getLast? (forall₂_below_comments hd h.comments)
  unfold Script.stop
  generalize s.comments.getLast? = g at hcomments
  generalize s'.comments.getLast? = g' at hcomments
  cases hcomments with
  | none => exact hstatement
  | some hg => exact hstatement.max hg.stop

/-- The whole tree moves with the script, its root included. -/
theorem preorder (h : s.MovedDown d s') (hd : s.HasRoom d) :
    List.Forall₂ (NodeRef.Below d.toNat) s.ref.preorder s'.ref.preorder := by
  have hroot : s.ref.Below d.toNat s'.ref := ⟨rfl, rfl, h.below_start hd, h.below_stop hd⟩
  rw [NodeRef.preorder_eq, NodeRef.preorder_eq]
  exact .cons hroot (h.nodes hd)

/-- So does every comment. -/
theorem groups (h : s.MovedDown d s') (hd : s.HasRoom d) :
    List.Forall₂ (fun g g' =>
        List.Forall₂ (NodeRef.Below d.toNat) (groupRef g).preorder (groupRef g').preorder)
      s.groups s'.groups := by
  refine forall₂_mapIdx h.comments fun i g hg g' hmoved => ?_
  have hroot : NodeRef.MovedDown d (groupRef ⟨i, g⟩) (groupRef ⟨i, g'⟩) := ⟨rfl, hmoved⟩
  exact hroot.forall₂_below rfl (hd.comments g hg)

theorem cursorAt (h : s.MovedDown d s') (hd : s.HasRoom d) (i : Nat) :
    (s.cursorAt i).Below d.toNat (s'.cursorAt i) := by
  have hstart : Cursor.Below d.toNat ⟨{}, s.nodes⟩ ⟨{}, s'.nodes⟩ :=
    ⟨⟨.none, .none, .nil⟩, h.nodes hd⟩
  exact hstart.after (List.forall₂_take (i + 1) (forall₂_below_comments hd h.comments))

/-- A group is attached by the rule by which its copy is, to the node whose copy the other has. -/
theorem exists_attaches (h : s.MovedDown d s') (hd : s.HasRoom d) {policy : Policy}
    (hc : policy.check = .ok ()) {i : Nat} (hi : i < s.comments.length) :
    ∃ rule r r', r ∈ s.nodes ∧ r' ∈ s'.nodes ∧ r.Below d.toNat r' ∧
      s.Attaches policy i rule r ∧ s'.Attaches policy i rule r' := by
  have hg := List.getElem?_eq_getElem hi
  obtain ⟨g', hg', hbelow⟩ := exists_of_forall₂ (forall₂_below_comments hd h.comments) hg
  obtain ⟨rule, r, ha⟩ := Script.exists_attaches hc hg
  have hdecides := (attaches_iff_decides hc hg).mp ha
  have hcursor := h.cursorAt hd i
  obtain ⟨r', hr', hdecides'⟩ := hdecides.below hcursor.surroundings hcursor.next hbelow
  obtain ⟨j, hj⟩ := s.exists_standsAt_cursorAt i
  obtain ⟨j', hj'⟩ := s'.exists_standsAt_cursorAt i
  exact ⟨rule, r, r', hj.mem_of_decides hdecides, hj'.mem_of_decides hdecides', hr', ha,
    (attaches_iff_decides hc hg').mpr hdecides'⟩

end MovedDown

/-- Two nodes have the same number in the pre-order of the same statement. -/
def SamePlace (s s' : Script) (r r' : NodeRef) : Prop :=
  ∃ k j : Nat, ∃ t t' : NodeRef, s.ref.children[k]? = some t ∧ s'.ref.children[k]? = some t' ∧
    t.preorder[j]? = some r ∧ t'.preorder[j]? = some r'

theorem MovedDown.samePlace (h : s.MovedDown d s') (hd : s.HasRoom d) {r r' : NodeRef}
    (hr : r ∈ s.nodes) (hr' : r' ∈ s'.nodes) (hbelow : r.Below d.toNat r') :
    SamePlace s s' r r' := by
  obtain ⟨t, ht, hrt⟩ := mem_nodes_iff.mp hr
  obtain ⟨k, hk⟩ := List.mem_iff_getElem?.mp ht
  obtain ⟨j, hj⟩ := List.mem_iff_getElem?.mp hrt
  obtain ⟨t', hk', hpairs⟩ := exists_of_forall₂ (h.preorders hd) hk
  obtain ⟨m, hj', hm⟩ := exists_of_forall₂ hpairs hj
  -- The copy has the address of the node at this place, and that address occurs only once.
  have hmem : m ∈ s'.nodes :=
    mem_nodes_iff.mpr ⟨t', List.mem_of_getElem? hk', List.mem_of_getElem? hj'⟩
  obtain rfl : m = r' := eq_of_mem_nodes hmem hr' (hm.address.trans hbelow.address.symm)
  exact ⟨k, j, t, t', hk, hk', hj, hj'⟩

/-- Moving a script down does not move its comments: what is moved down is accepted, every node of
the script and of its comments lies so many lines further down, and every group is attached by the
same rule to the node at the same place. -/
theorem attaches_movedDown (s : Script) (policy : Policy) (hc : policy.check = .ok ()) (d : UInt32)
    (hd : s.HasRoom d) {statements : List Statement} {comments : List CommentGroup}
    (hs : List.Forall₂ (Statement.MovedDown d) s.statements.toList statements)
    (hg : List.Forall₂ (CommentGroup.MovedDown d) s.comments comments) :
    ∃ s', ofParts statements comments = .ok s' ∧
      List.Forall₂ (NodeRef.Below d.toNat) s.ref.preorder s'.ref.preorder ∧
      List.Forall₂ (fun g g' =>
          List.Forall₂ (NodeRef.Below d.toNat) (groupRef g).preorder (groupRef g').preorder)
        s.groups s'.groups ∧
      ∀ i < s.comments.length, ∃ rule r r', s.Attaches policy i rule r ∧
        s'.Attaches policy i rule r' ∧ SamePlace s s' r r' ∧ r.Below d.toNat r' := by
  obtain ⟨s', hs', hmoved⟩ := exists_ofParts_of_movedDown hd hs hg
  refine ⟨s', hs', hmoved.preorder hd, hmoved.groups hd, fun i hi => ?_⟩
  obtain ⟨rule, r, r', hr, hr', hbelow, ha, ha'⟩ := hmoved.exists_attaches hd hc hi
  exact ⟨rule, r, r', ha, ha', hmoved.samePlace hd hr hr' hbelow, hbelow⟩

/-- The comment of `commentedPair`, on any line. -/
def pairCommentOnLine (line : UInt32) : CommentGroup :=
  ⟨⟨⟨"-- b", ⟨⟨line, 15⟩, ⟨line, 19⟩⟩⟩, []⟩⟩

theorem movedDown_dropOnLine (d line : UInt32) :
    (Statement.dropOnLine line).MovedDown d (.dropOnLine (line + d)) := by
  simp [Statement.MovedDown, Node.MovedDown, Node.corresponds_eq, Node.kind, Node.attributes, Node.children,
    Node.pairwise, Statement.dropOnLine, Statement.kind, Statement.attributes,
    Statement.children, Node.ident, Expr.kind, Expr.attributes, Expr.children,
    Attribute.ofSpan, Attribute.ofList, Attribute.movedDown, Position.down]

theorem movedDown_pairCommentOnLine (d line : UInt32) :
    (pairCommentOnLine line).MovedDown d (pairCommentOnLine (line + d)) := by
  simp [CommentGroup.MovedDown, Node.MovedDown, Node.corresponds_eq, Node.kind, Node.attributes, Node.children,
    Node.pairwise, pairCommentOnLine, Attribute.ofSpan, Attribute.ofList, Attribute.movedDown,
    Position.down]

theorem positions_pairCommentOnLine (line : UInt32) :
    (Node.commentGroup (pairCommentOnLine line)).positions = [⟨line, 15⟩, ⟨line, 19⟩] := by
  simp [Node.positions_eq, Node.layout, Layout.separated, Layout.token, Piece.positions,
    pairCommentOnLine]

/-- `commentedPair` moved down as far as there is room: the second statement and the comment are on
the last line but two. -/
theorem attaches_movedDown_commentedPair :
    commentedPair.HasRoom 4294967291 ∧
      ∃ s', ofParts [.dropOnLine 4294967292, .dropOnLine 4294967293]
          [pairCommentOnLine 4294967293] = .ok s' ∧
        ∃ r', s'.Attaches .standard 0 .enclosing r' ∧ r'.address = ⟨0, [0]⟩ := by
  have hd : commentedPair.HasRoom 4294967291 := by
    constructor
    · simp only [commentedPair, NonEmptyList.toList_mk, List.forall_mem_cons,
        Statement.positions_dropOnLine]
      decide
    · have hpair : commentedPair.comments = [pairCommentOnLine 2] := rfl
      simp only [hpair, List.forall_mem_singleton, positions_pairCommentOnLine]
      decide
  have hs := movedDown_dropOnLine 4294967291
  have hg := movedDown_pairCommentOnLine 4294967291 2
  obtain ⟨s', hs', -, -, h⟩ := attaches_movedDown commentedPair .standard rfl 4294967291 hd
    (.cons (hs 1) (.cons (hs 2) .nil)) (.cons hg .nil)
  refine ⟨hd, s', hs', ?_⟩
  obtain ⟨rule, r, r', ha, ha', -, hbelow⟩ := h 0 (by decide)
  obtain ⟨g, hg⟩ := ha.getElem?_placements placements_commentedPair
  cases hg
  exact ⟨r', ha', hbelow.address⟩

end Script

end SqlScript
