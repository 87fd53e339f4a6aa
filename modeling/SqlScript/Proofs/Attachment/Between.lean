import SqlScript.Proofs.Attachment.ClosedForm
import SqlScript.Proofs.Attachment.Statements

/-!
# Comments between statements

A comment between two statements is meant for the one above if it trails it, and for the one below
if not. The pass closes containers only when it meets a group, and keeps the outermost of those it
closes. So a comment reaches the statement above only if a comment parts this statement from the one
in front of it, or there is none in front:

* `Script.Between`: a group lies between two statements;
* `Script.meantFor`: the node such a group is meant for;
* `Script.lastClosed_of_unparted`: which container was closed last, when such a group is met;
* `Cursor.Ready`: what the pass has to know there for the group to be attached as it is meant;
* `Script.attached_as_meant_iff`: the group is attached so in this case only.
-/

namespace SqlScript

/-! ## Trailing from further down -/

/-- A comment that trails a node trails every node that stops later, up to the comment, and does so
whatever follows later. -/
theorem Policy.Trails.mono {policy : Policy} {a b : Position} {comment : Span} {p q : Position}
    (h : policy.Trails a comment p) (hab : a ≤ b) (hb : b ≤ comment.start) (hpq : p ≤ q) :
    policy.Trails b comment q := by
  rw [Position.le_iff] at hab hb hpq
  rcases h with h | ⟨hlt, hgap, hblank⟩
  · left
    omega
  · rcases Nat.lt_or_ge b.line.toNat comment.start.line.toNat with hbc | hbc
    · right
      refine ⟨hbc, by omega, fun hreq => ?_⟩
      have := hblank hreq
      omega
    · left
      omega

namespace Script

/-- A group lies behind statement number `k` and in front of the next one. -/
structure Between (s : Script) (k : Nat) (g : CommentGroup) : Prop where
  behind : ∃ t, s.ref.children[k]? = some t ∧ t.stop ≤ g.start
  before : ∀ u, s.ref.children[k + 1]? = some u → g.stop ≤ u.start

/-- The node that a group behind statement number `k` is meant for: this statement if the group
trails it; else the next one, or behind all statements the last node. -/
def meantFor (s : Script) (policy : Policy) (k : Nat) (g : CommentGroup) : Option NodeRef :=
  s.ref.children[k]?.bind fun t =>
    if policy.trails t.stop g.span (nextPosition s.ref.children[k + 1]?) then some t
    else s.ref.children[k + 1]?.or t.preorder.getLast?

variable {s : Script}

/-! ## What groups between statements close -/

/-- A group behind which another one stops is not behind a later statement. -/
theorem Between.le (hw : s.WellNested) {c d : Nat} {x y : CommentGroup} (hx : s.Between c x)
    (hy : s.Between d y) (h : x.start < y.stop) : c ≤ d := by
  obtain ⟨t, ht, htx⟩ := hx.behind
  by_contra hlt
  have hlen := (List.getElem?_eq_some_iff.mp ht).1
  have hu := List.getElem?_eq_getElem (l := s.ref.children) (i := d + 1) (by omega)
  have hut : (s.ref.children[d + 1]).start ≤ t.stop := by
    have hrun := hw.start_le_stop (List.mem_of_getElem? ht)
    rcases Nat.lt_or_eq_of_le (show d + 1 ≤ c by omega) with hdc | hdc
    · exact Position.le_trans (hw.start_le_stop (List.mem_of_getElem? hu))
        (Position.le_trans (hw.stop_le_start hdc hu ht) hrun)
    · subst hdc
      rw [hu, Option.some.injEq] at ht
      rw [ht]
      exact hrun
  have hyx := Position.le_trans (hy.before _ hu) (Position.le_trans hut htx)
  exact Position.lt_iff_not_le.mp h hyx

/-- A group between two groups behind the same statement is behind this statement as well. -/
theorem Between.of_between {k : Nat} {x y z : CommentGroup} (hx : s.Between k x)
    (hz : s.Between k z) (hxy : x.start ≤ y.start) (hyz : y.stop ≤ z.stop) : s.Between k y := by
  obtain ⟨t, ht, htx⟩ := hx.behind
  exact ⟨⟨t, ht, Position.le_trans htx hxy⟩, fun u hu => Position.le_trans hyz (hz.before u hu)⟩

/-- The pass runs past a statement before it places a group behind it. -/
theorem offset_le_of_stop_le (hw : s.WellNested) {k m : Nat} {t : NodeRef} {g : CommentGroup}
    (ht : s.ref.children[k]? = some t) (htg : t.stop ≤ g.start) (hg : g.start < g.stop)
    (hm : ∀ r, s.nodes[m]? = some r → g.stop ≤ r.start) : s.offset (k + 1) ≤ m := by
  by_contra hlt
  rw [Nat.not_le] at hlt
  have hr := List.getElem?_eq_getElem (Nat.lt_of_lt_of_le hlt (s.offset_le_length (k + 1)))
  obtain ⟨hrun, hstop⟩ := hw.stop_le_of_getElem? ht hlt hr
  have hback := Position.le_trans (hm _ hr) (Position.le_trans hrun (Position.le_trans hstop htg))
  exact Position.lt_iff_not_le.mp hg hback

/-- A group between two statements has the nodes up to the first in front of it. -/
theorem Between.reach_eq (hw : s.WellNested) {k : Nat} {g : CommentGroup} (hb : s.Between k g)
    (hg : g.start < g.stop) : reach s.nodes g = s.offset (k + 1) := by
  obtain ⟨t, ht, htg⟩ := hb.behind
  refine Nat.le_antisymm ?_
    (offset_le_of_stop_le hw ht htg hg fun r hr => stop_le_of_getElem?_reach hr)
  cases hu : s.ref.children[k + 1]? with
  | none =>
    rw [offset_eq_length hu]
    exact reach_le_length _ _
  | some u =>
    rw [← getElem?_offset] at hu
    exact reach_le_of_getElem? hu (hb.before u (s.getElem?_offset (k + 1) ▸ hu))

/-- A group between two statements closes every container in front of it. -/
theorem Between.closes_iff (hw : s.WellNested) {k : Nat} {g : CommentGroup} (hb : s.Between k g)
    (hg : g.start < g.stop) (m : Nat) :
    Closes s.nodes g m ↔
      m < s.offset (k + 1) ∧ ∃ r, s.nodes[m]? = some r ∧ r.isContainer = true := by
  obtain ⟨t, ht, htg⟩ := hb.behind
  have hreach := hb.reach_eq hw hg
  constructor
  · rintro ⟨hcont, hlt, -⟩
    exact ⟨hreach ▸ hlt, hcont⟩
  · rintro ⟨hlt, hcont⟩
    refine ⟨hcont, hreach ▸ hlt, fun n r _ hn hr _ => ?_⟩
    rw [hreach] at hn
    exact Position.le_trans (hw.stop_le_of_getElem? ht hn hr).2 htg

/-- Only a group between two statements, this one or later ones, closes a statement. -/
theorem exists_between_of_closes (hw : s.WellNested) {a : Nat} {g : CommentGroup}
    (hg : g.start < g.stop) (h : Closes s.nodes g (s.offset a)) : ∃ c, a ≤ c ∧ s.Between c g := by
  obtain ⟨c, t, hac, ht, hlt, hle⟩ := exists_offset_lt h.lt_reach (reach_le_length _ _)
  have htg : t.stop ≤ g.start := by
    refine h.stop_le _ t (s.offset_mono hac) hlt ?_ (isContainer_of_mem (List.mem_of_getElem? ht))
    rw [getElem?_offset, ht]
  have heq : reach s.nodes g = s.offset (c + 1) := Nat.le_antisymm hle
    (offset_le_of_stop_le hw ht htg hg fun r hr => stop_le_of_getElem?_reach hr)
  refine ⟨c, hac, ⟨t, ht, htg⟩, fun u hu => ?_⟩
  rw [← getElem?_offset, ← heq] at hu
  exact stop_le_of_getElem?_reach hu

/-! ## The container closed last -/

/-- The statements from number `a` up to number `k` follow each other with no group between them,
and a group parts the first of them from the one in front, if there is one. -/
structure Unparted (s : Script) (met : List CommentGroup) (a k : Nat) : Prop where
  le : a ≤ k
  unparted : ∀ b, a ≤ b → b < k → ∀ h ∈ met, ¬ s.Between b h
  parted : a = 0 ∨ ∃ h ∈ met, s.Between (a - 1) h

theorem exists_unparted (s : Script) (met : List CommentGroup) (k : Nat) :
    ∃ a, s.Unparted met a k := by
  induction k with
  | zero => exact ⟨0, Nat.le_refl 0, by omega, .inl rfl⟩
  | succ k ih =>
    by_cases hk : ∃ h ∈ met, s.Between k h
    · exact ⟨k + 1, Nat.le_refl _, by omega, .inr hk⟩
    · obtain ⟨a, hle, hun, hpart⟩ := ih
      refine ⟨a, Nat.le_succ_of_le hle, fun b hab hbk h hh hb => ?_, hpart⟩
      rcases Nat.lt_succ_iff_lt_or_eq.mp hbk with hbk | rfl
      · exact hun b hab hbk h hh hb
      · exact hk ⟨h, hh, hb⟩

theorem Unparted.eq_iff {met : List CommentGroup} {a k : Nat} (h : s.Unparted met a k) :
    a = k ↔ k = 0 ∨ ∃ x ∈ met, s.Between (k - 1) x := by
  constructor
  · rintro rfl
    exact h.parted
  · intro hk
    have hle := h.le
    rcases hk with rfl | ⟨x, hx, hb⟩
    · omega
    · by_contra hne
      exact h.unparted (k - 1) (by omega) (by omega) x hx hb

/-- The first group behind a statement closes all the statements that no group parts from it. -/
theorem lastClosed_of_first (hw : s.WellNested) {a k : Nat} {met : List CommentGroup}
    {g : CommentGroup} (ho : InOrder (met ++ [g])) (hf : ∀ h ∈ met ++ [g], h.start < h.stop)
    (hb : s.Between k g) (hfirst : ∀ h ∈ met, ¬ s.Between k h) (ha : s.Unparted met a k) :
    LastClosed s.nodes (met ++ [g]) (s.offset a) := by
  have hfg := hf g (List.mem_append_right _ (List.mem_singleton_self g))
  have hcloses : Closes s.nodes g (s.offset a) := by
    obtain ⟨t, ht, -⟩ := hb.behind
    have hlen := Nat.lt_of_le_of_lt ha.le (List.getElem?_eq_some_iff.mp ht).1
    have hlt : s.offset a < s.offset (k + 1) :=
      Nat.lt_of_lt_of_le (Nat.lt_of_succ_lt (offset_add_one_lt (List.getElem?_eq_getElem hlen)))
        (s.offset_mono (Nat.succ_le_succ ha.le))
    refine (hb.closes_iff hw hfg _).mpr ⟨hlt, s.ref.children[a], ?_, ?_⟩
    · rw [getElem?_offset, List.getElem?_eq_getElem hlen]
    · exact isContainer_of_mem (List.getElem_mem hlen)
  have hopen : ¬ ClosedBy s.nodes met (s.offset a) := by
    rintro ⟨h, hh, hc⟩
    have hfh := hf h (List.mem_append_left _ hh)
    obtain ⟨c, hac, hch⟩ := exists_between_of_closes hw hfh hc
    have hhg := (List.pairwise_append.mp ho.ordered).2.2 h hh g (List.mem_singleton_self g)
    have hck : c ≤ k := hch.le hw hb
      (Position.lt_of_lt_of_le hfh (Position.le_trans hhg (Position.le_of_lt hfg)))
    rcases Nat.lt_or_eq_of_le hck with hck | rfl
    · exact ha.unparted c hac hck h hh hch
    · exact hfirst h hh hch
  refine (lastClosed_concat_of_closes ⟨hcloses, hopen⟩ ?_ _).mpr rfl
  rintro n hn ⟨hc, hno⟩
  rcases ha.parted with rfl | ⟨h, hh, hbh⟩
  · exact absurd hn (Nat.not_lt_zero n)
  · have hlt := Nat.lt_of_lt_of_le hn (s.offset_mono (show a ≤ a - 1 + 1 by omega))
    have hfh := hf h (List.mem_append_left _ hh)
    exact hno ⟨h, hh, (hbh.closes_iff hw hfh n).mpr ⟨hlt, hc.container⟩⟩

/-- The groups behind a statement leave the first statement closed last of those that no group
parts from it. -/
theorem lastClosed_of_unparted (hw : s.WellNested) {a k : Nat} {met : List CommentGroup}
    {g : CommentGroup} (ho : InOrder (met ++ [g])) (hf : ∀ h ∈ met ++ [g], h.start < h.stop)
    (hb : s.Between k g) (ha : s.Unparted met a k) :
    LastClosed s.nodes (met ++ [g]) (s.offset a) := by
  induction met using List.reverseRecOn generalizing g with
  | nil => exact lastClosed_of_first hw ho hf hb (by simp) ha
  | append_singleton met y ih =>
    by_cases hfirst : ∀ h ∈ met ++ [y], ¬ s.Between k h
    · exact lastClosed_of_first hw ho hf hb hfirst ha
    · have hfg := hf g (by simp)
      have hfy := hf y (by simp)
      have hyg := (List.pairwise_append.mp ho.ordered).2.2 y (by simp) g (by simp)
      have hby : s.Between k y := by
        simp only [not_forall, not_not] at hfirst
        obtain ⟨x, hx, hbx⟩ := hfirst
        rcases List.mem_append.mp hx with hx | hx
        · have hxy := (List.pairwise_append.mp ho.of_append.ordered).2.2 x hx y (by simp)
          have hfx := Position.le_of_lt (hf x (by simp [hx]))
          exact hbx.of_between hb (Position.le_trans hfx hxy)
            (Position.le_trans hyg (Position.le_of_lt hfg))
        · exact List.mem_singleton.mp hx ▸ hbx
      have hay : s.Unparted met a k := by
        refine ⟨ha.le, fun b hab hbk h hh => ha.unparted b hab hbk h (by simp [hh]), ?_⟩
        rcases ha.parted with h0 | ⟨h, hh, hbh⟩
        · exact .inl h0
        · rcases List.mem_append.mp hh with hh | hh
          · exact .inr ⟨h, hh, hbh⟩
          · have := hby.le hw (List.mem_singleton.mp hh ▸ hbh) hfy
            have := ha.le
            exact .inl (by omega)
      refine (lastClosed_concat_of_not_closes (fun m hm => hm.2 ?_) _).mpr
        (ih ho.of_append (fun h hh => hf h (List.mem_append_left _ hh)) hby hay)
      exact ⟨y, by simp, (hby.closes_iff hw hfy m).mpr ((hb.closes_iff hw hfg m).mp hm.1)⟩

end Script

/-! ## What the rules decide between statements -/

/-- What the pass has to know where it meets a group behind the statement `t` and in front of
`next`, for the group to be attached as it is meant. If the group trails `t`, this must be the
container closed last. If not, the pass must not be past `next` yet; or else `next` stops on the
line of the group and is the node that the rules look at first. -/
structure Cursor.Ready (policy : Policy) (g : CommentGroup) (t : NodeRef) (next : Option NodeRef)
    (c : Cursor) : Prop where
  trailing : policy.trails t.stop g.span (nextPosition next) = true →
    c.surroundings.enclosing = some t
  leading : policy.trails t.stop g.span (nextPosition next) = false →
    c.next = next ∨ ∃ u, next = some u ∧ g.start.line = u.stop.line ∧
      (c.surroundings.enclosing.filter fun e =>
        policy.trails e.stop g.span (nextPosition c.next)).or c.surroundings.previous = some u

namespace Script

section Decides

variable {s : Script} {policy : Policy} {c : Cursor} {j k : Nat} {g : CommentGroup} {t : NodeRef}
  {rule : Rule} {r : NodeRef}

/-- If a group trails a node in front of the next statement, it trails the statement above. -/
theorem trails_of_mem_take (hw : s.WellNested) (ht : s.ref.children[k]? = some t)
    (htg : t.stop ≤ g.start) {e : NodeRef} (he : e ∈ s.nodes.take (s.offset (k + 1)))
    {p : Position} (h : policy.trails e.stop g.span p = true) :
    policy.trails t.stop g.span p = true := by
  rw [Policy.trails_iff] at h ⊢
  exact h.mono (hw.stop_le_of_mem_take ht he).2 htg (Position.le_refl p)

/-- Where a group behind a statement is met, what follows is not in front of the next statement. -/
theorem nextPosition_le (hw : s.WellNested) (hj : s.offset (k + 1) ≤ j)
    (hs : c.StandsAt s.nodes j) :
    nextPosition s.ref.children[k + 1]? ≤ nextPosition c.next := by
  cases hn : c.next with
  | none => exact Position.le_infinity _
  | some x =>
    have hx : s.nodes[j]? = some x := hs.next.symm.trans hn
    cases hu : s.ref.children[k + 1]? with
    | none =>
      rw [offset_eq_length hu] at hj
      have := (List.getElem?_eq_some_iff.mp hx).1
      omega
    | some u =>
      refine hw.start_le_of_mem_drop hu (List.mem_of_getElem? (i := j - s.offset (k + 1)) ?_)
      rw [List.getElem?_drop, Nat.add_sub_cancel' hj, hx]

/-- A group that trails the statement above is attached to it if it was closed last, and only
then. -/
theorem target_eq_statement_iff (hw : s.WellNested) (ht : s.ref.children[k]? = some t)
    (hj : s.offset (k + 1) ≤ j) (hs : c.StandsAt s.nodes j)
    (htr : policy.trails t.stop g.span (nextPosition s.ref.children[k + 1]?) = true)
    (htg : t.stop ≤ g.start) (hd : Decides policy c.surroundings c.next g.span rule r) :
    r = t ↔ c.surroundings.enclosing = some t := by
  have hlt := offset_add_one_lt ht
  have htr' : policy.trails t.stop g.span (nextPosition c.next) = true := by
    rw [Policy.trails_iff] at htr ⊢
    exact htr.mono (Position.le_refl _) htg (nextPosition_le hw hj hs)
  constructor
  · rintro rfl
    cases hd with
    | enclosing he _ => exact he
    | previous _ hb _ =>
      have := eq_offset_of_getElem? ht ((hs.previous_eq_some_iff r).mp hb).2
      omega
    | following _ _ hn =>
      have := eq_offset_of_getElem? ht (hs.next.symm.trans hn)
      omega
  · intro he
    cases hd with
    | enclosing he' _ => exact Option.some.inj (he'.symm.trans he)
    | previous he' _ _ => simp [he' t he] at htr'
    | following he' _ _ => simp [he' t he] at htr'

/-- Where the pass is not past the next statement, a group that does not trail the statement above
trails nothing: it goes to the next statement, or at the end of input to the last node. -/
theorem target_eq_of_not_trails (hw : s.WellNested) (ht : s.ref.children[k]? = some t)
    (htg : t.stop ≤ g.start) (hs : c.StandsAt s.nodes (s.offset (k + 1)))
    (htr : policy.trails t.stop g.span (nextPosition s.ref.children[k + 1]?) = false)
    (hd : Decides policy c.surroundings c.next g.span rule r) :
    some r = s.ref.children[k + 1]?.or t.preorder.getLast? := by
  have hnext : c.next = s.ref.children[k + 1]? := by rw [hs.next, getElem?_offset]
  have hno : ∀ e ∈ s.nodes.take (s.offset (k + 1)),
      policy.trails e.stop g.span (nextPosition c.next) = false := by
    intro e he
    rw [← Bool.not_eq_true, hnext]
    intro h
    rw [trails_of_mem_take hw ht htg he h] at htr
    cases htr
  cases hd with
  | enclosing he h => simp [hno r (hs.enclosing r he)] at h
  | previous _ hb h =>
    rw [hs.previous] at hb
    have hnone : c.next = none := by
      rcases h with h | h
      · exact h
      · simp [hno r (List.mem_of_getLast? hb)] at h
    rw [← hnext, hnone, Option.none_or, ← getLast?_take_offset ht, hb]
  | following _ _ hn => rw [← hnext, hn, Option.some_or]

/-- Behind the next statement's start no group trails that statement, but on its last line. -/
theorem line_eq_of_trails {u : NodeRef} (hw : s.WellNested)
    (hu : s.ref.children[k + 1]? = some u) (hgu : g.stop ≤ u.start) (hf : g.start < g.stop)
    {p : Position} (h : policy.trails u.stop g.span p = true) : g.start.line = u.stop.line := by
  have hrun := hw.start_le_stop (List.mem_of_getElem? hu)
  have hlt := Position.lt_of_lt_of_le hf (Position.le_trans hgu hrun)
  rw [Position.lt_iff] at hlt
  rw [Policy.trails_iff] at h
  rcases h with h | ⟨h, -⟩
  · exact UInt32.toNat_inj.mp h
  · have hstart : g.span.start = g.start := rfl
    rw [hstart] at h
    omega

/-- Where the pass is past the next statement's start, a group in front of it is attached to it only
if it stops on the line of the group and is the node that the rules look at first. -/
theorem target_eq_next_iff (hw : s.WellNested) (hf : g.start < g.stop) {u : NodeRef}
    (hu : s.ref.children[k + 1]? = some u) (hgu : g.stop ≤ u.start) (hs : c.StandsAt s.nodes j)
    (hn : c.next ≠ some u) (hd : Decides policy c.surroundings c.next g.span rule r) :
    r = u ↔ g.start.line = u.stop.line ∧
      (c.surroundings.enclosing.filter fun e =>
        policy.trails e.stop g.span (nextPosition c.next)).or c.surroundings.previous = some u := by
  cases hd with
  | enclosing he h =>
    have hfilter : c.surroundings.enclosing.filter
        (fun e => policy.trails e.stop g.span (nextPosition c.next)) = some r :=
      Option.filter_eq_some_iff.mpr ⟨he, h⟩
    rw [hfilter, Option.some_or, Option.some.injEq]
    constructor
    · rintro rfl
      exact ⟨line_eq_of_trails hw hu hgu hf h, rfl⟩
    · exact fun h => h.2
  | previous he hb h =>
    rw [filter_trails_eq_none he, Option.none_or, hb, Option.some.injEq]
    constructor
    · rintro rfl
      refine ⟨?_, rfl⟩
      rcases h with h | h
      · have hat := eq_offset_of_getElem? hu ((hs.previous_eq_some_iff r).mp hb).2
        have := offset_add_one_lt hu
        have := s.offset_le_length (k + 1 + 1)
        have := hs.next_eq_none_iff.mp h
        omega
      · exact line_eq_of_trails hw hu hgu hf h
    · exact fun h => h.2
  | following he hb hr =>
    rw [filter_trails_eq_none he, Option.none_or]
    refine iff_of_false (fun h => hn (h ▸ hr)) ?_
    rintro ⟨hline, hp⟩
    have htrails : policy.trails u.stop g.span (nextPosition c.next) = true := if_pos hline
    rw [hb u hp] at htrails
    cases htrails

/-- What the rules decide for a group between two statements is what it is meant for if the pass is
ready for it, and only then. -/
theorem target_eq_meantFor_iff (hw : s.WellNested) (hf : g.start < g.stop) (hb : s.Between k g)
    (ht : s.ref.children[k]? = some t) (hs : c.StandsAt s.nodes j)
    (hn : ∀ x, c.next = some x → g.stop ≤ x.start)
    (hd : Decides policy c.surroundings c.next g.span rule r) :
    some r = s.meantFor policy k g ↔ c.Ready policy g t s.ref.children[k + 1]? := by
  have htg : t.stop ≤ g.start := by
    obtain ⟨t', ht', htg⟩ := hb.behind
    rw [ht, Option.some.injEq] at ht'
    rwa [ht']
  have hj : s.offset (k + 1) ≤ j :=
    offset_le_of_stop_le hw ht htg hf fun x hx => hn x (hs.next.trans hx)
  rw [meantFor, ht, Option.bind_some]
  cases htr : policy.trails t.stop g.span (nextPosition s.ref.children[k + 1]?) with
  | true =>
    rw [if_pos rfl, Option.some.injEq, target_eq_statement_iff hw ht hj hs htr htg hd]
    exact ⟨fun he => ⟨fun _ => he, fun h => by simp [htr] at h⟩, fun h => h.trailing htr⟩
  | false =>
    rw [if_neg Bool.false_ne_true]
    by_cases hnext : c.next = s.ref.children[k + 1]?
    · have hat : j = s.offset (k + 1) := by
        cases hu : s.ref.children[k + 1]? with
        | none =>
          rw [offset_eq_length hu]
          exact hs.next_eq_none_iff.mp (hnext.trans hu)
        | some u => exact eq_offset_of_getElem? hu (hs.next.symm.trans (hnext.trans hu))
      subst hat
      exact iff_of_true (target_eq_of_not_trails hw ht htg hs htr hd)
        ⟨fun h => by simp [htr] at h, fun _ => .inl hnext⟩
    · cases hu : s.ref.children[k + 1]? with
      | none =>
        rw [hu] at hnext
        rw [offset_eq_length hu] at hj
        exact absurd (hs.next_eq_none_iff.mpr (Nat.le_antisymm hs.le_length hj)) hnext
      | some u =>
        rw [hu] at hnext htr
        rw [Option.some_or, Option.some.injEq,
          target_eq_next_iff hw hf hu (hb.before u hu) hs hnext hd]
        constructor
        · exact fun h => ⟨fun h' => by simp [htr] at h', fun _ => .inr ⟨u, rfl, h⟩⟩
        · intro h
          rcases h.leading htr with h | ⟨u', ⟨⟩, h⟩
          · exact absurd h hnext
          · exact h

end Decides

/-! ## Between statements -/

section Forward

variable {s : Script} {i a k : Nat} {g : CommentGroup}

/-- If no group runs backwards, the container closed last is the first statement of those that no
group parts from the one above. -/
theorem enclosing_cursorAt (hw : s.WellNested) (hg : s.comments[i]? = some g)
    (hf : ∀ h ∈ s.comments.take (i + 1), h.start < h.stop) (hb : s.Between k g)
    (ha : s.Unparted (s.comments.take i) a k) {u : NodeRef} (hu : s.ref.children[a]? = some u) :
    (s.cursorAt i).surroundings.enclosing = some u := by
  have hle : ∀ h ∈ s.comments.take (i + 1), h.start ≤ h.stop :=
    fun h hh => Position.le_of_lt (hf h hh)
  rw [(tracks_cursorAt hg hle).enclosing u]
  refine ⟨s.offset a, ?_, by rw [getElem?_offset, hu]⟩
  have ho := inOrder_take hle
  rw [take_comments_of_getElem? hg] at ho hf ⊢
  exact lastClosed_of_unparted hw ho hf hb ha

theorem next_cursorAt (hw : s.WellNested) (hg : s.comments[i]? = some g)
    (hf : ∀ h ∈ s.comments.take (i + 1), h.start < h.stop) (hb : s.Between k g) :
    (s.cursorAt i).next = s.ref.children[k + 1]? := by
  have hstands := (tracks_cursorAt hg fun h hh => Position.le_of_lt (hf h hh)).stands
  have hfg : g.start < g.stop := hf g (by simp [take_comments_of_getElem? hg])
  rw [hstands.next, hb.reach_eq hw hfg, getElem?_offset]

/-- If no group runs backwards, the pass is ready for a group that trails the statement above if a
group parts this statement from the one in front of it, or there is none in front. -/
theorem ready_cursorAt_iff (hw : s.WellNested) (hg : s.comments[i]? = some g)
    (hf : ∀ h ∈ s.comments.take (i + 1), h.start < h.stop) (hb : s.Between k g) {t : NodeRef}
    (ht : s.ref.children[k]? = some t) (policy : Policy) :
    (s.cursorAt i).Ready policy g t s.ref.children[k + 1]? ↔
      (policy.trails t.stop g.span (nextPosition s.ref.children[k + 1]?) = true →
        k = 0 ∨ ∃ h ∈ s.comments.take i, s.Between (k - 1) h) := by
  obtain ⟨a, ha⟩ := s.exists_unparted (s.comments.take i) k
  have hlen := Nat.lt_of_le_of_lt ha.le (List.getElem?_eq_some_iff.mp ht).1
  have henc := enclosing_cursorAt hw hg hf hb ha (List.getElem?_eq_getElem hlen)
  have hclosed : (s.cursorAt i).surroundings.enclosing = some t ↔ a = k := by
    rw [henc, ← ht, ← List.getElem?_eq_getElem hlen]
    constructor
    · intro h
      exact NodeRef.child_eq_of_mem_preorder (h.trans ht) ht t.mem_preorder_self
        t.mem_preorder_self rfl
    · rintro rfl
      rfl
  rw [← ha.eq_iff, ← hclosed]
  exact ⟨fun h => h.trailing, fun h => ⟨h, fun _ => .inl (next_cursorAt hw hg hf hb)⟩⟩

end Forward

/-- A group between two statements is attached to the node it is meant for exactly if the pass is
ready for it. If no group runs backwards this means: unless the group trails the statement above,
and no group parts this statement from one in front of it. In that case the first of the statements
that no group parts has the group instead, if the group trails this one too. -/
theorem attached_as_meant_iff (s : Script) (policy : Policy) (hw : s.WellNested)
    (hc : policy.check = .ok ()) {i k : Nat} {g : CommentGroup} {t : NodeRef}
    (hg : s.comments[i]? = some g) (hf : g.start < g.stop) (ht : s.ref.children[k]? = some t)
    (hb : s.Between k g) :
    ∃ index r, s.commentIndex policy = .ok index ∧
      (∀ n, ⟨i, g⟩ ∈ index.lookup n ↔ n.same r = true) ∧
      (some r = s.meantFor policy k g ↔
        (s.cursorAt i).Ready policy g t s.ref.children[k + 1]?) ∧
      ((∀ h ∈ s.comments.take i, h.start < h.stop) →
        (some r = s.meantFor policy k g ↔
          (policy.trails t.stop g.span (nextPosition s.ref.children[k + 1]?) = true →
            k = 0 ∨ ∃ h ∈ s.comments.take i, s.Between (k - 1) h)) ∧
        ∃ a u, s.Unparted (s.comments.take i) a k ∧ s.ref.children[a]? = some u ∧
          (policy.trails u.stop g.span (nextPosition s.ref.children[k + 1]?) = true → r = u)) := by
  obtain ⟨ps, hps, hgroups, -⟩ := exists_placements hc s
  obtain ⟨rule, r, hp, hd⟩ := exists_decides hc hps hg
  obtain ⟨j, hs⟩ := s.exists_standsAt_cursorAt i
  have hready := target_eq_meantFor_iff hw hf hb ht hs (fun x hx => stop_le_next_cursorAt hg hx) hd
  have hlookup := CommentIndex.mem_lookup_ofPlacements_iff (pairwise_number_placements hgroups)
    (List.mem_of_getElem? hp)
  refine ⟨_, r, commentIndex_of_placements hps, hlookup, hready, fun hforward => ?_⟩
  have hall : ∀ h ∈ s.comments.take (i + 1), h.start < h.stop := by
    intro h hh
    rw [take_comments_of_getElem? hg] at hh
    rcases List.mem_append.mp hh with hh | hh
    · exact hforward h hh
    · rw [List.mem_singleton.mp hh]
      exact hf
  refine ⟨hready.trans (ready_cursorAt_iff hw hg hall hb ht policy), ?_⟩
  obtain ⟨a, ha⟩ := s.exists_unparted (s.comments.take i) k
  have hlen := Nat.lt_of_le_of_lt ha.le (List.getElem?_eq_some_iff.mp ht).1
  have hu := List.getElem?_eq_getElem hlen
  refine ⟨a, _, ha, hu, fun htrails => ?_⟩
  rw [← next_cursorAt hw hg hall hb] at htrails
  exact (hd.unique (.enclosing (enclosing_cursorAt hw hg hall hb ha hu) htrails)).2

theorem wellNested_commentedPair : commentedPair.WellNested := by
  refine wellNested_of_laidOut ?_
  show (commentedPair.ref.node.positions).Pairwise (· ≤ ·)
  rw [ref, NodeRef.root, Node.positions_script]
  simp only [commentedPair, NonEmptyList.toList_mk, List.flatMap_cons, List.flatMap_nil,
    Statement.positions_dropOnLine]
  decide

theorem children_commentedPair :
    commentedPair.ref.children =
      [⟨⟨0, [0]⟩, .statement (.dropOnLine 1)⟩, ⟨⟨0, [1]⟩, .statement (.dropOnLine 2)⟩] := rfl

theorem between_commentedPair : commentedPair.Between 1 pairComment := by
  refine ⟨⟨_, rfl, by decide⟩, fun u hu => ?_⟩
  rw [children_commentedPair] at hu
  cases hu

/-- The comment on the line of the second statement is meant for that statement, and attached to the
first. -/
theorem attached_otherwise_commentedPair :
    commentedPair.WellNested ∧ commentedPair.Between 1 pairComment ∧
      commentedPair.meantFor .standard 1 pairComment =
        some ⟨⟨0, [1]⟩, .statement (.dropOnLine 2)⟩ ∧
      ∃ index, commentedPair.commentIndex .standard = .ok index ∧
        ∀ n, ⟨0, pairComment⟩ ∈ index.lookup n ↔
          n.same ⟨⟨0, [0]⟩, .statement (.dropOnLine 1)⟩ = true := by
  refine ⟨wellNested_commentedPair, between_commentedPair, rfl, ?_⟩
  obtain ⟨index, r, hindex, hr, -, hforward⟩ := attached_as_meant_iff commentedPair .standard
    wellNested_commentedPair rfl (i := 0) (k := 1) rfl (by decide) rfl between_commentedPair
  obtain ⟨-, a, u, ha, hu, hru⟩ := hforward (by simp)
  obtain rfl : a = 0 := ha.parted.resolve_right (by simp)
  rw [children_commentedPair, List.getElem?_cons_zero, Option.some.injEq] at hu
  subst hu
  obtain rfl := hru (by rw [children_commentedPair]; decide)
  exact ⟨index, hindex, hr⟩

end Script

end SqlScript
