import Mathlib.Data.List.Basic
import SqlScript.Attachment.Placement

/-!
# The pass, one step for each group

`placeAmong` runs along the nodes and places groups on the way. Here the same pass runs along the
groups: each group moves a cursor on to the first node that does not start before the group stops,
has the containers behind it closed, and is placed there. No policy has a say in where the cursor
goes.

* `Cursor.meet`: the step that one group makes;
* `placeAmong_nil`, `placeAmong_cons_eq_ok_iff`: the pass is the sequence of these steps;
* `placeGroup_eq_ok_iff`: what is decided at each of them (`Decides`);
* `Cursor.StandsAt`: what the cursor has ahead, and that it knows no nodes but those behind it;
* `exists_placements`, `decides_of_getElem?_placements`: so that every group is placed, and where.
-/

namespace SqlScript

/-- A place in the pass: what is known there, and the nodes ahead. -/
structure Cursor where
  surroundings : Surroundings
  ahead : List NodeRef

namespace Cursor

/-- Passes the nodes that start before a position. -/
def seek (p : Position) (s : Surroundings) : List NodeRef → Cursor
  | [] => ⟨s, []⟩
  | r :: rest => if r.start < p then seek p (s.pass r) rest else ⟨s, r :: rest⟩

/-- Where a group is placed: in front of the first node that starts where the group stops or
later, with the containers closed that stop where the group starts or before. -/
def meet (c : Cursor) (g : CommentGroup) : Cursor :=
  let front := seek g.stop c.surroundings c.ahead
  ⟨front.surroundings.meet g.start, front.ahead⟩

/-- The node ahead; none at the end of input. -/
def next (c : Cursor) : Option NodeRef :=
  c.ahead.head?

/-- Where a list of groups leads. -/
def after (c : Cursor) (gs : List CommentGroup) : Cursor :=
  gs.foldl meet c

theorem after_concat (c : Cursor) (gs : List CommentGroup) (g : CommentGroup) :
    c.after (gs ++ [g]) = (c.after gs).meet g := by
  simp [after]

/-- Behind a search no node starts before the position. -/
theorem not_lt_seek (p : Position) (s : Surroundings) (nodes : List NodeRef) :
    ¬ nextPosition (seek p s nodes).next < p := by
  induction nodes generalizing s with
  | nil =>
    rw [Position.lt_iff_not_le, not_not]
    exact p.le_infinity
  | cons r rest ih =>
    rw [seek]
    split
    · exact ih _
    · assumption

theorem stop_le_meet (c : Cursor) (g : CommentGroup) : g.stop ≤ nextPosition (c.meet g).next := by
  have h := not_lt_seek g.stop c.surroundings c.ahead
  rwa [Position.lt_iff_not_le, not_not] at h

end Cursor

/-! ## The pass as a sequence of steps -/

variable {policy : Policy}

@[simp] theorem placeAmong_nil (s : Surroundings) (nodes : List NodeRef) :
    placeAmong policy s nodes [] = .ok [] := by
  cases nodes <;> rfl

/-- What is placed behind the next node. -/
def placeBehind (policy : Policy) (pending : Pending) :
    List NodeRef → Except Error (List Placement)
  | [] => .ok []
  | r :: rest => placeAmong policy (pending.surroundings.pass r) rest pending.groups

theorem placeBehind_placed (pending : Pending) (ps : List Placement) (nodes : List NodeRef) :
    placeBehind policy { pending with placed := ps } nodes = placeBehind policy pending nodes := by
  cases nodes <;> rfl

/-- At a node and at the end of input alike, the pass places what lies in front, then the rest. -/
theorem placeAmong_eq (s : Surroundings) (nodes : List NodeRef) (gs : List GroupRef) :
    placeAmong policy s nodes gs =
      (placeBefore policy nodes.head? s gs).bind fun pending =>
        (placeBehind policy pending nodes).map (pending.placed ++ ·) := by
  cases nodes with
  | nil =>
    simp only [placeAmong, List.head?_nil]
    cases placeBefore policy none s gs with
    | error e => rfl
    | ok pending => simp [Except.map, Except.bind, placeBehind]
  | cons r rest =>
    simp only [placeAmong, List.head?_cons]
    cases placeBefore policy (some r) s gs with
    | error e => rfl
    | ok pending =>
      obtain ⟨placed, known, left⟩ := pending
      cases left with
      | nil => simp [Except.map, Except.bind, placeBehind]
      | cons l left => rfl

theorem placeBefore_of_lt {s : Surroundings} {next : Option NodeRef} {g : GroupRef}
    {gs : List GroupRef} (h : nextPosition next < g.group.stop) :
    placeBefore policy next s (g :: gs) = .ok ⟨[], s, g :: gs⟩ := by
  rw [placeBefore, if_pos h]

theorem placeBefore_of_not_lt {s : Surroundings} {next : Option NodeRef} {g : GroupRef}
    {gs : List GroupRef} (h : ¬ nextPosition next < g.group.stop) :
    placeBefore policy next s (g :: gs) =
      (placeGroup policy (s.meet g.group.start) next g).bind fun p =>
        (placeBefore policy next (s.meet g.group.start) gs).map fun pending =>
          { pending with placed := p :: pending.placed } := by
  simp only [placeBefore, if_neg h]
  cases placeGroup policy (s.meet g.group.start) next g with
  | error e => rfl
  | ok p => cases placeBefore policy next (s.meet g.group.start) gs <;> rfl

/-- A node that starts before the next group stops is passed. -/
theorem placeAmong_pass {s : Surroundings} {r : NodeRef} {rest : List NodeRef} {g : GroupRef}
    {gs : List GroupRef} (h : r.start < g.group.stop) :
    placeAmong policy s (r :: rest) (g :: gs) = placeAmong policy (s.pass r) rest (g :: gs) := by
  have hb : placeBefore policy (some r) s (g :: gs) = .ok ⟨[], s, g :: gs⟩ := placeBefore_of_lt h
  rw [placeAmong_eq, List.head?_cons, hb]
  simp only [Except.bind, placeBehind]
  cases placeAmong policy (s.pass r) rest (g :: gs) <;> rfl

theorem placeAmong_seek (s : Surroundings) (nodes : List NodeRef) (g : GroupRef)
    (gs : List GroupRef) :
    placeAmong policy s nodes (g :: gs) =
      placeAmong policy (Cursor.seek g.group.stop s nodes).surroundings
        (Cursor.seek g.group.stop s nodes).ahead (g :: gs) := by
  induction nodes generalizing s with
  | nil => rfl
  | cons r rest ih =>
    rw [Cursor.seek]
    split
    · rw [placeAmong_pass (by assumption), ih]
    · rfl

/-- A group that stops where the next node starts, or before, is placed. -/
theorem placeAmong_place {s : Surroundings} {nodes : List NodeRef} {g : GroupRef}
    {gs : List GroupRef} (h : ¬ nextPosition nodes.head? < g.group.stop) :
    placeAmong policy s nodes (g :: gs) =
      (placeGroup policy (s.meet g.group.start) nodes.head? g).bind fun p =>
        (placeAmong policy (s.meet g.group.start) nodes gs).map (p :: ·) := by
  rw [placeAmong_eq, placeAmong_eq, placeBefore_of_not_lt h]
  cases placeGroup policy (s.meet g.group.start) nodes.head? g with
  | error e => rfl
  | ok p =>
    cases placeBefore policy nodes.head? (s.meet g.group.start) gs with
    | error e => rfl
    | ok pending =>
      simp only [Except.bind, Except.map, placeBehind_placed]
      cases placeBehind policy pending nodes <;> rfl

/-- The pass meets the first group, places it, and goes on from there. -/
theorem placeAmong_cons_eq_ok_iff {c : Cursor} {g : GroupRef} {gs : List GroupRef}
    {ps : List Placement} :
    placeAmong policy c.surroundings c.ahead (g :: gs) = .ok ps ↔
      ∃ p rest, ps = p :: rest ∧
        placeGroup policy (c.meet g.group).surroundings (c.meet g.group).next g = .ok p ∧
        placeAmong policy (c.meet g.group).surroundings (c.meet g.group).ahead gs = .ok rest := by
  rw [placeAmong_seek, placeAmong_place (Cursor.not_lt_seek g.group.stop c.surroundings c.ahead)]
  show Except.bind (placeGroup policy (c.meet g.group).surroundings (c.meet g.group).next g)
    (fun p => (placeAmong policy (c.meet g.group).surroundings (c.meet g.group).ahead gs).map
      (p :: ·)) = .ok ps ↔ _
  cases placeGroup policy (c.meet g.group).surroundings (c.meet g.group).next g with
  | error e => simp [Except.bind]
  | ok p =>
    cases placeAmong policy (c.meet g.group).surroundings (c.meet g.group).ahead gs with
    | error e => simp [Except.bind, Except.map]
    | ok rest => simp [Except.bind, Except.map, eq_comm]

/-! ## What is decided at a step -/

/-- What the rules decide on a comment: the first that applies wins. -/
inductive Decides (policy : Policy) (s : Surroundings) (next : Option NodeRef) (comment : Span) :
    Rule → NodeRef → Prop where
  | enclosing {e : NodeRef} (he : s.enclosing = some e)
      (ht : policy.trails e.stop comment (nextPosition next) = true) :
      Decides policy s next comment .enclosing e
  | previous {b : NodeRef}
      (he : ∀ e, s.enclosing = some e → policy.trails e.stop comment (nextPosition next) = false)
      (hb : s.previous = some b)
      (ht : next = none ∨ policy.trails b.stop comment (nextPosition next) = true) :
      Decides policy s next comment .previous b
  | following {r : NodeRef}
      (he : ∀ e, s.enclosing = some e → policy.trails e.stop comment (nextPosition next) = false)
      (hb : ∀ b, s.previous = some b → policy.trails b.stop comment (nextPosition next) = false)
      (hn : next = some r) :
      Decides policy s next comment .following r

/-- The rules decide for one node. -/
theorem Decides.unique {s : Surroundings} {next : Option NodeRef} {comment : Span}
    {rule rule' : Rule} {r r' : NodeRef} (h : Decides policy s next comment rule r)
    (h' : Decides policy s next comment rule' r') : rule = rule' ∧ r = r' := by
  cases h with
  | enclosing he ht =>
    cases h' with
    | enclosing he' _ => exact ⟨rfl, Option.some.inj (he.symm.trans he')⟩
    | previous he' _ _ => simp [he' r he] at ht
    | following he' _ _ => simp [he' r he] at ht
  | previous he hb ht =>
    cases h' with
    | enclosing he' ht' => simp [he r' he'] at ht'
    | previous _ hb' _ => exact ⟨rfl, Option.some.inj (hb.symm.trans hb')⟩
    | following _ hb' hn =>
      rw [hn] at ht hb'
      simp [hb' r hb] at ht
  | following he hb hn =>
    cases h' with
    | enclosing he' ht' => simp [he r' he'] at ht'
    | previous _ hb' ht' =>
      rw [hn] at ht' hb
      simp [hb r' hb'] at ht'
    | following _ _ hn' => exact ⟨rfl, Option.some.inj (hn.symm.trans hn')⟩

theorem filter_trails_eq_none {o : Option NodeRef} {comment : Span} {p : Position}
    (h : ∀ e, o = some e → policy.trails e.stop comment p = false) :
    (o.filter fun e => policy.trails e.stop comment p) = none := by
  simpa only [Option.filter_eq_none_iff, Bool.not_eq_true] using h

theorem placeGroup_eq_ok_iff {s : Surroundings} {next : Option NodeRef} {g : GroupRef}
    {p : Placement} :
    placeGroup policy s next g = .ok p ↔
      p.group = g ∧ Decides policy s next g.group.span p.rule p.target := by
  constructor
  · intro h
    simp only [placeGroup] at h
    split at h
    · rename_i e he
      rw [Option.filter_eq_some_iff] at he
      cases h
      exact ⟨rfl, .enclosing he.1 he.2⟩
    · rename_i he
      simp only [Option.filter_eq_none_iff, Bool.not_eq_true] at he
      split at h
      · rename_i b hb
        rw [Option.filter_eq_some_iff, Bool.or_eq_true, Option.isNone_iff_eq_none] at hb
        cases h
        exact ⟨rfl, .previous he hb.1 hb.2⟩
      · rename_i hb
        split at h
        · simp only [Option.filter_eq_none_iff, Option.isNone_some, Bool.false_or,
            Bool.not_eq_true] at hb
          cases h
          exact ⟨rfl, .following he hb rfl⟩
        · cases h
  · obtain ⟨g', rule, target⟩ := p
    rintro ⟨rfl, hd⟩
    cases hd with
    | enclosing he ht =>
      have hf : s.enclosing.filter
          (fun r => policy.trails r.stop g'.group.span (nextPosition next)) = some target :=
        Option.filter_eq_some_iff.mpr ⟨he, ht⟩
      simp only [placeGroup, hf]
    | previous he hb ht =>
      have hf := filter_trails_eq_none he
      have hp : s.previous.filter (fun r => next.isNone ||
          policy.trails r.stop g'.group.span (nextPosition next)) = some target := by
        rw [Option.filter_eq_some_iff, Bool.or_eq_true, Option.isNone_iff_eq_none]
        exact ⟨hb, ht⟩
      simp only [placeGroup, hf, hp]
    | following he hb hn =>
      subst hn
      have hf := filter_trails_eq_none he
      have hp : s.previous.filter (fun r => (some target).isNone ||
          policy.trails r.stop g'.group.span (nextPosition (some target))) = none := by
        simpa only [Option.filter_eq_none_iff, Option.isNone_some, Bool.false_or,
          Bool.not_eq_true] using hb
      simp only [placeGroup, hf, hp]

/-! ## Where the cursor stands -/

/-- A cursor in front of node number `k` has the nodes from there ahead, and knows no nodes but
those it has passed. -/
structure Cursor.StandsAt (nodes : List NodeRef) (k : Nat) (c : Cursor) : Prop where
  le_length : k ≤ nodes.length
  ahead : c.ahead = nodes.drop k
  previous : c.surroundings.previous = (nodes.take k).getLast?
  enclosing : ∀ r, c.surroundings.enclosing = some r → r ∈ nodes.take k
  opened : ∀ r ∈ c.surroundings.opened, r ∈ nodes.take k

namespace Cursor

variable {nodes : List NodeRef} {k : Nat}

theorem standsAt_start (nodes : List NodeRef) : StandsAt nodes 0 ⟨{}, nodes⟩ where
  le_length := Nat.zero_le _
  ahead := rfl
  previous := rfl
  enclosing _ hr := nomatch hr
  opened _ hr := nomatch hr

theorem StandsAt.next {c : Cursor} (h : c.StandsAt nodes k) : c.next = nodes[k]? := by
  rw [Cursor.next, h.ahead, List.head?_drop]

theorem StandsAt.next_eq_none_iff {c : Cursor} (h : c.StandsAt nodes k) :
    c.next = none ↔ k = nodes.length := by
  rw [h.next, List.getElem?_eq_none_iff]
  have := h.le_length
  omega

theorem StandsAt.previous_eq_some_iff {c : Cursor} (h : c.StandsAt nodes k) (b : NodeRef) :
    c.surroundings.previous = some b ↔ 0 < k ∧ nodes[k - 1]? = some b := by
  rw [h.previous, List.getLast?_take]
  have := h.le_length
  split
  · rename_i hk
    simp [hk]
  · rename_i hk
    rw [List.getElem?_eq_getElem (by omega), Option.some_or]
    simp [Nat.pos_of_ne_zero hk]

theorem StandsAt.pass {s : Surroundings} {r : NodeRef} {rest : List NodeRef}
    (h : StandsAt nodes k ⟨s, r :: rest⟩) : StandsAt nodes (k + 1) ⟨s.pass r, rest⟩ := by
  have hr : nodes[k]? = some r := by
    rw [← h.next]
    rfl
  have htake : nodes.take (k + 1) = nodes.take k ++ [r] := by
    rw [List.take_add_one, hr]
    rfl
  refine ⟨(List.getElem?_eq_some_iff.mp hr).1, ?_, ?_, ?_, ?_⟩
  · have := congrArg List.tail h.ahead
    rwa [List.tail_cons, List.tail_drop] at this
  · rw [htake, List.getLast?_concat]
    rfl
  · intro x hx
    rw [htake]
    exact List.mem_append_left _ (h.enclosing x hx)
  · intro x hx
    rw [htake]
    simp only [Surroundings.pass] at hx
    split at hx
    · rcases List.mem_cons.mp hx with rfl | hx
      · exact List.mem_append_right _ (List.mem_singleton_self x)
      · exact List.mem_append_left _ (h.opened x hx)
    · exact List.mem_append_left _ (h.opened x hx)

theorem StandsAt.seek {s : Surroundings} {rest : List NodeRef} (h : StandsAt nodes k ⟨s, rest⟩)
    (p : Position) : ∃ j, StandsAt nodes j (seek p s rest) := by
  induction rest generalizing s k with
  | nil => exact ⟨k, h⟩
  | cons r rest ih =>
    rw [Cursor.seek]
    split
    · exact ih h.pass
    · exact ⟨k, h⟩

end Cursor

/-- Closing moves containers from the top of the stack to the register: the last one moved stays
there. -/
theorem Surroundings.closeUpTo_eq (p : Position) (enclosing : Option NodeRef)
    (opened : List NodeRef) :
    ∃ closed left, opened = closed ++ left ∧
      (∀ r ∈ closed, r.stop ≤ p) ∧ (∀ r, left.head? = some r → p < r.stop) ∧
      closeUpTo p enclosing opened = (closed.getLast?.or enclosing, left) := by
  induction opened generalizing enclosing with
  | nil => exact ⟨[], [], rfl, by simp, by simp, rfl⟩
  | cons top rest ih =>
    rw [closeUpTo]
    split
    · rename_i h
      refine ⟨[], top :: rest, rfl, by simp, ?_, rfl⟩
      rintro r ⟨⟩
      exact h
    · rename_i h
      rw [Position.lt_iff_not_le, not_not] at h
      obtain ⟨closed, left, rfl, hc, hl, he⟩ := ih (some top)
      refine ⟨top :: closed, left, rfl, ?_, hl, ?_⟩
      · intro r hr
        rcases List.mem_cons.mp hr with rfl | hr
        · exact h
        · exact hc r hr
      · rw [he]
        cases closed <;> simp [List.getLast?_cons]

namespace Cursor

variable {nodes : List NodeRef} {k : Nat}

theorem StandsAt.close {s : Surroundings} {rest : List NodeRef} (h : StandsAt nodes k ⟨s, rest⟩)
    (p : Position) : StandsAt nodes k ⟨s.meet p, rest⟩ := by
  obtain ⟨closed, left, ho, -, -, he⟩ := Surroundings.closeUpTo_eq p s.enclosing s.opened
  have hopened := h.opened
  rw [ho] at hopened
  simp only [Surroundings.meet, he]
  refine ⟨h.le_length, h.ahead, h.previous, ?_, fun r hr => hopened r (List.mem_append_right _ hr)⟩
  intro r hr
  rcases Option.or_eq_some_iff.mp hr with hr | ⟨-, hr⟩
  · exact hopened r (List.mem_append_left _ (List.mem_of_getLast? hr))
  · exact h.enclosing r hr

theorem StandsAt.meet {c : Cursor} (h : c.StandsAt nodes k) (g : CommentGroup) :
    ∃ j, (c.meet g).StandsAt nodes j := by
  obtain ⟨j, hj⟩ := h.seek g.stop
  exact ⟨j, hj.close g.start⟩

theorem StandsAt.after {c : Cursor} (h : c.StandsAt nodes k) (gs : List CommentGroup) :
    ∃ j, (c.after gs).StandsAt nodes j := by
  induction gs generalizing c k with
  | nil => exact ⟨k, h⟩
  | cons g gs ih =>
    obtain ⟨j, hj⟩ := h.meet g
    exact ih hj

/-- If there is a node at all, some rule applies. -/
theorem StandsAt.exists_decision {c : Cursor} (h : c.StandsAt nodes k) (hne : nodes ≠ [])
    (policy : Policy) (comment : Span) :
    ∃ rule r, Decides policy c.surroundings c.next comment rule r := by
  by_cases he : ∀ e, c.surroundings.enclosing = some e →
      policy.trails e.stop comment (nextPosition c.next) = false
  · by_cases hb : ∀ b, c.surroundings.previous = some b →
        policy.trails b.stop comment (nextPosition c.next) = false
    · cases hn : c.next with
      | some r => exact ⟨.following, r, .following (hn ▸ he) (hn ▸ hb) rfl⟩
      | none =>
        have hk : nodes.length ≤ k := by
          rwa [h.next, List.getElem?_eq_none_iff] at hn
        have hp : c.surroundings.previous = some (nodes.getLast hne) := by
          rw [h.previous, List.take_of_length_le hk, List.getLast?_eq_some_getLast hne]
        exact ⟨.previous, _, .previous (hn ▸ he) hp (.inl rfl)⟩
    · simp only [not_forall, Bool.not_eq_false] at hb
      obtain ⟨b, hp, ht⟩ := hb
      exact ⟨.previous, b, .previous he hp (.inr ht)⟩
  · simp only [not_forall, Bool.not_eq_false] at he
    obtain ⟨e, hs, ht⟩ := he
    exact ⟨.enclosing, e, .enclosing hs ht⟩

/-- No rule decides for a node that the cursor does not know. -/
theorem StandsAt.mem_of_decides {c : Cursor} (h : c.StandsAt nodes k) {policy : Policy}
    {comment : Span} {rule : Rule} {r : NodeRef}
    (hd : Decides policy c.surroundings c.next comment rule r) : r ∈ nodes := by
  cases hd with
  | enclosing he _ => exact List.mem_of_mem_take (h.enclosing r he)
  | previous _ hb _ =>
    rw [h.previous] at hb
    exact List.mem_of_mem_take (List.mem_of_getLast? hb)
  | following _ _ hn =>
    rw [h.next] at hn
    exact List.mem_of_getElem? hn

end Cursor

/-- Every group is placed, in order, at one of the nodes. -/
theorem exists_placements {nodes : List NodeRef} {k : Nat} {c : Cursor} (h : c.StandsAt nodes k)
    (hne : nodes ≠ []) (policy : Policy) (gs : List GroupRef) :
    ∃ ps, placeAmong policy c.surroundings c.ahead gs = .ok ps ∧
      ps.map (·.group) = gs ∧ ∀ p ∈ ps, p.target ∈ nodes := by
  induction gs generalizing c k with
  | nil => exact ⟨[], placeAmong_nil _ _, rfl, by simp⟩
  | cons g gs ih =>
    obtain ⟨j, hm⟩ := h.meet g.group
    obtain ⟨rule, r, hd⟩ := hm.exists_decision hne policy g.group.span
    obtain ⟨ps, hps, hg, ht⟩ := ih hm
    refine ⟨⟨g, rule, r⟩ :: ps, ?_, ?_, ?_⟩
    · exact placeAmong_cons_eq_ok_iff.mpr
        ⟨_, _, rfl, placeGroup_eq_ok_iff.mpr ⟨rfl, hd⟩, hps⟩
    · rw [List.map_cons, hg]
    · intro p hp
      rcases List.mem_cons.mp hp with rfl | hp
      · exact hm.mem_of_decides hd
      · exact ht p hp

/-- Each placement is what the rules decide where the groups up to its own have led. -/
theorem decides_of_getElem?_placements {c : Cursor} {gs : List GroupRef} {ps : List Placement}
    (h : placeAmong policy c.surroundings c.ahead gs = .ok ps) {i : Nat} {p : Placement}
    (hp : ps[i]? = some p) :
    gs[i]? = some p.group ∧
      Decides policy (c.after ((gs.take (i + 1)).map (·.group))).surroundings
        (c.after ((gs.take (i + 1)).map (·.group))).next p.group.group.span p.rule p.target := by
  induction gs generalizing c ps i with
  | nil =>
    rw [placeAmong_nil] at h
    cases h
    simp at hp
  | cons g gs ih =>
    obtain ⟨q, rest, rfl, hq, hrest⟩ := placeAmong_cons_eq_ok_iff.mp h
    cases i with
    | zero =>
      cases hp
      obtain ⟨rfl, hd⟩ := placeGroup_eq_ok_iff.mp hq
      exact ⟨rfl, hd⟩
    | succ i => exact ih hrest hp

end SqlScript
