import SqlScript.Proofs.Attachment.Appending

/-!
# Building a script

A script is refused for comments that are out of order, else for want of a statement; what is
accepted is kept as it is. Only neighbours are compared, and the extent of a script is read off the
first and the last of its statements and comments. Where nothing runs backwards, this says as much
as a look at all of them:

* `CommentGroup.firstDisorder?_eq_some_iff`: the pair that is reported is the first one;
* `CommentGroup.firstDisorder?_eq_none_iff_pairwise`: order between neighbours is order between all;
* `Span.contains_hull_iff`: what contains the merged span contains each of its parts;
* `Script.Forward.span_eq_hull`: the extent of a script is the merged span of all its parts;
* `Script.ofParts_outcome`: what becomes of statements and comments, and the extent of the result.
-/

namespace SqlScript

/-! ## Comments out of order -/

namespace CommentGroup

/-- Group number `i` and the next are the first neighbours of which the second starts before the
first stops. -/
structure FirstDisorder (gs : List CommentGroup) (i : Nat) (a b : CommentGroup) : Prop where
  first : gs[i]? = some a
  second : gs[i + 1]? = some b
  overlap : b.start < a.stop
  earlier : ∀ j < i, ∀ c d, gs[j]? = some c → gs[j + 1]? = some d → c.stop ≤ d.start

theorem FirstDisorder.cons {a b x y : CommentGroup} {gs : List CommentGroup} {i : Nat}
    (hab : a.stop ≤ b.start) (h : FirstDisorder (b :: gs) i x y) :
    FirstDisorder (a :: b :: gs) (i + 1) x y where
  first := h.first
  second := h.second
  overlap := h.overlap
  earlier j hj c d hc hd := by
    cases j with
    | zero =>
      obtain rfl : a = c := Option.some.inj hc
      obtain rfl : b = d := Option.some.inj hd
      exact hab
    | succ j => exact h.earlier j (Nat.lt_of_succ_lt_succ hj) c d hc hd

theorem FirstDisorder.of_cons {a x y : CommentGroup} {gs : List CommentGroup} {i : Nat}
    (h : FirstDisorder (a :: gs) (i + 1) x y) : FirstDisorder gs i x y where
  first := h.first
  second := h.second
  overlap := h.overlap
  earlier j hj := h.earlier (j + 1) (Nat.succ_lt_succ hj)

/-- The pair that is reported is the first one out of order. -/
theorem firstDisorder?_eq_some_iff {gs : List CommentGroup} {x y : CommentGroup} :
    firstDisorder? gs = some (x, y) ↔ ∃ i, FirstDisorder gs i x y := by
  fun_induction firstDisorder? gs with
  | case1 a b rest hab =>
    constructor
    · rintro ⟨⟩
      exact ⟨0, rfl, rfl, hab, fun j hj => absurd hj (Nat.not_lt_zero j)⟩
    · rintro ⟨i, h⟩
      cases i with
      | zero =>
        obtain rfl : a = x := Option.some.inj h.first
        obtain rfl : b = y := Option.some.inj h.second
        rfl
      | succ i =>
        have hle : a.stop ≤ b.start := h.earlier 0 (Nat.succ_pos i) a b rfl rfl
        exact absurd hle (Position.lt_iff_not_le.mp hab)
  | case2 a b rest hab ih =>
    rw [ih]
    constructor
    · rintro ⟨i, h⟩
      exact ⟨i + 1, h.cons (not_not.mp (mt Position.lt_iff_not_le.mpr hab))⟩
    · rintro ⟨i, h⟩
      cases i with
      | zero =>
        obtain rfl : a = x := Option.some.inj h.first
        obtain rfl : b = y := Option.some.inj h.second
        exact absurd h.overlap hab
      | succ i => exact ⟨i, h.of_cons⟩
  | case3 gs hgs =>
    refine iff_of_false (fun h => by cases h) ?_
    rintro ⟨i, h⟩
    rcases gs with _ | ⟨a, _ | ⟨b, rest⟩⟩
    · cases h.first
    · exact absurd h.second (by simp)
    · exact absurd rfl (hgs a b rest)

theorem firstDisorder?_eq_none_iff {gs : List CommentGroup} :
    firstDisorder? gs = none ↔ ¬ ∃ i a b, FirstDisorder gs i a b := by
  rw [Option.eq_none_iff_forall_ne_some]
  constructor
  · rintro h ⟨i, a, b, hab⟩
    exact h (a, b) (firstDisorder?_eq_some_iff.mpr ⟨i, hab⟩)
  · rintro h ⟨a, b⟩ hab
    obtain ⟨i, hi⟩ := firstDisorder?_eq_some_iff.mp hab
    exact h ⟨i, a, b, hi⟩

/-- If no group runs backwards, groups are accepted if each stops before all behind it start. -/
theorem firstDisorder?_eq_none_iff_pairwise {gs : List CommentGroup}
    (hf : ∀ g ∈ gs, g.start ≤ g.stop) :
    firstDisorder? gs = none ↔ gs.Pairwise fun a b => a.stop ≤ b.start := by
  constructor
  · intro h
    exact pairwise_of_isChain hf (isChain_of_firstDisorder? h)
  · intro h
    rw [firstDisorder?_eq_none_iff]
    rintro ⟨i, a, b, hab⟩
    obtain ⟨hi, rfl⟩ := List.getElem?_eq_some_iff.mp hab.first
    obtain ⟨hj, rfl⟩ := List.getElem?_eq_some_iff.mp hab.second
    have hle := List.pairwise_iff_getElem.mp h i (i + 1) hi hj (Nat.lt_succ_self i)
    exact Position.lt_iff_not_le.mp hab.overlap hle

end CommentGroup

/-! ## Merged spans -/

theorem Position.le_min_iff {a b c : Position} : a ≤ min b c ↔ a ≤ b ∧ a ≤ c := by
  refine ⟨fun h => ⟨le_trans h (min_le_left b c), le_trans h (min_le_right b c)⟩, fun h => ?_⟩
  show a ≤ if b ≤ c then b else c
  split
  · exact h.1
  · exact h.2

theorem Position.max_le_iff {a b c : Position} : max a b ≤ c ↔ a ≤ c ∧ b ≤ c := by
  refine ⟨fun h => ⟨le_trans (le_max_left a b) h, le_trans (le_max_right a b) h⟩, fun h => ?_⟩
  show (if a ≤ b then b else a) ≤ c
  split
  · exact h.2
  · exact h.1

namespace Span

theorem contains_refl (a : Span) : a.contains a = true :=
  contains_iff.mpr ⟨Position.le_refl _, Position.le_refl _⟩

theorem contains_antisymm {a b : Span} (hab : a.contains b = true) (hba : b.contains a = true) :
    a = b := by
  obtain ⟨hstart, hstop⟩ := contains_iff.mp hab
  obtain ⟨hstart', hstop'⟩ := contains_iff.mp hba
  cases a
  cases b
  simp only [mk.injEq]
  exact ⟨Position.le_antisymm hstart hstart', Position.le_antisymm hstop' hstop⟩

theorem contains_merge_iff {a b c : Span} :
    a.contains (b.merge c) = true ↔ a.contains b = true ∧ a.contains c = true := by
  simp only [contains_iff, merge, Position.le_min_iff, Position.max_le_iff]
  exact and_and_and_comm

/-- Some spans merged into one. -/
def hull (spans : NonEmptyList Span) : Span :=
  spans.tail.foldl merge spans.head

/-- What contains the merged span contains each of its parts. -/
theorem contains_hull_iff {a : Span} {spans : NonEmptyList Span} :
    a.contains (hull spans) = true ↔ ∀ b ∈ spans.toList, a.contains b = true := by
  obtain ⟨first, rest⟩ := spans
  simp only [hull, NonEmptyList.toList_mk]
  induction rest generalizing first with
  | nil => simp
  | cons b rest ih =>
    rw [List.foldl_cons, ih]
    simp only [List.forall_mem_cons, contains_merge_iff, and_assoc]

theorem hull_contains {spans : NonEmptyList Span} {b : Span} (hb : b ∈ spans.toList) :
    (hull spans).contains b = true :=
  contains_hull_iff.mp (contains_refl _) b hb

end Span

/-! ## The extent of a script -/

/-- If nothing in a list runs backwards and nothing overlaps, all of it lies behind the start of its
first element. -/
theorem start_le_of_isChain {α : Type u} {start stop : α → Position} {l : List α} {a x : α}
    (hf : ∀ x ∈ l, start x ≤ stop x) (hc : l.IsChain fun a b => stop a ≤ start b)
    (ha : l.head? = some a) (hx : x ∈ l) : start a ≤ start x := by
  obtain ⟨rest, rfl⟩ := List.head?_eq_some_iff.mp ha
  rcases List.mem_cons.mp hx with rfl | hx
  · exact Position.le_refl _
  · have hlater := List.rel_of_pairwise_cons (pairwise_of_isChain hf hc) hx
    exact Position.le_trans (hf a List.mem_cons_self) hlater

/-- If nothing in a list runs backwards and nothing overlaps, all of it lies before the stop of its
last element. -/
theorem le_stop_of_isChain {α : Type u} {start stop : α → Position} {l : List α} {a x : α}
    (hf : ∀ x ∈ l, start x ≤ stop x) (hc : l.IsChain fun a b => stop a ≤ start b)
    (ha : l.getLast? = some a) (hx : x ∈ l) : stop x ≤ stop a := by
  obtain ⟨front, rfl⟩ := List.getLast?_eq_some_iff.mp ha
  rcases List.mem_append.mp hx with hfront | hlast
  · have hearlier := (List.pairwise_append.mp (pairwise_of_isChain hf hc)).2.2 x hfront a
      (List.mem_singleton_self a)
    exact Position.le_trans hearlier (hf a (List.mem_append_right _ (List.mem_singleton_self a)))
  · obtain rfl := List.mem_singleton.mp hlast
    exact Position.le_refl _

namespace Script

/-- The spans of all statements and comments. -/
def spans (s : Script) : NonEmptyList Span :=
  ⟨(Node.statement s.statements.head).span,
    s.statements.tail.map (fun t => (Node.statement t).span) ++ s.comments.map CommentGroup.span⟩

theorem mem_spans_iff {s : Script} {a : Span} :
    a ∈ s.spans.toList ↔
      (∃ t ∈ s.statements.toList, (Node.statement t).span = a) ∨ ∃ g ∈ s.comments, g.span = a := by
  have htoList : s.spans.toList =
      s.statements.toList.map (fun t => (Node.statement t).span) ++
        s.comments.map CommentGroup.span := rfl
  rw [htoList, List.mem_append, List.mem_map, List.mem_map]

theorem exists_start_eq (s : Script) : ∃ a ∈ s.spans.toList, s.start = a.start := by
  have hhead : (Node.statement s.statements.head).span ∈ s.spans.toList := List.mem_cons_self
  unfold start
  cases hg : s.comments.head? with
  | none => exact ⟨_, hhead, rfl⟩
  | some g =>
    have hgroup : g.span ∈ s.spans.toList :=
      mem_spans_iff.mpr (.inr ⟨g, List.mem_of_mem_head? hg, rfl⟩)
    show ∃ a ∈ s.spans.toList, (if _ ≤ _ then _ else _) = a.start
    split
    · exact ⟨_, hhead, rfl⟩
    · exact ⟨_, hgroup, rfl⟩

theorem exists_stop_eq (s : Script) : ∃ a ∈ s.spans.toList, s.stop = a.stop := by
  have hlast : (Node.statement s.statements.last).span ∈ s.spans.toList :=
    mem_spans_iff.mpr (.inl ⟨_, List.mem_of_getLast? s.statements.getLast?_toList, rfl⟩)
  unfold stop
  cases hg : s.comments.getLast? with
  | none => exact ⟨_, hlast, rfl⟩
  | some g =>
    have hgroup : g.span ∈ s.spans.toList :=
      mem_spans_iff.mpr (.inr ⟨g, List.mem_of_getLast? hg, rfl⟩)
    show ∃ a ∈ s.spans.toList, (if _ ≤ _ then _ else _) = a.stop
    split
    · exact ⟨_, hgroup, rfl⟩
    · exact ⟨_, hlast, rfl⟩

/-- Nothing in a script runs backwards, and its statements do not overlap. -/
structure Forward (s : Script) : Prop where
  comments : ∀ g ∈ s.comments, g.start ≤ g.stop
  statements : ∀ t ∈ s.statements.toList, t.start ≤ t.stop
  apart : s.statements.toList.IsChain fun t u => t.stop ≤ u.start

namespace Forward

variable {s : Script}

theorem contains_statement (h : s.Forward) {t : Statement} (ht : t ∈ s.statements.toList) :
    (Node.script s).span.contains (Node.statement t).span = true := by
  have hfirst := start_le_of_isChain h.statements h.apart s.statements.head?_toList ht
  have hlast := le_stop_of_isChain h.statements h.apart s.statements.getLast?_toList ht
  exact Span.contains_iff.mpr
    ⟨Position.le_trans s.start_le hfirst, Position.le_trans hlast s.le_stop⟩

theorem contains_comment (h : s.Forward) {g : CommentGroup} (hg : g ∈ s.comments) :
    (Node.script s).span.contains g.span = true := by
  have hchain := CommentGroup.isChain_of_firstDisorder? s.comments_ordered
  obtain ⟨a, ha⟩ : ∃ a, s.comments.head? = some a :=
    Option.ne_none_iff_exists'.mp fun hn => List.ne_nil_of_mem hg (List.head?_eq_none_iff.mp hn)
  obtain ⟨z, hz⟩ : ∃ z, s.comments.getLast? = some z :=
    Option.ne_none_iff_exists'.mp fun hn => List.ne_nil_of_mem hg (List.getLast?_eq_none_iff.mp hn)
  have hstart : s.start ≤ a.start := by
    rw [start, ha]
    exact Position.min_le_right _ _
  have hstop : z.stop ≤ s.stop := by
    rw [stop, hz]
    exact Position.le_max_right _ _
  have hfirst := start_le_of_isChain h.comments hchain ha hg
  have hlast := le_stop_of_isChain h.comments hchain hz hg
  exact Span.contains_iff.mpr
    ⟨Position.le_trans hstart hfirst, Position.le_trans hlast hstop⟩

/-- The extent of a script is the merged span of its statements and comments. -/
theorem span_eq_hull (h : s.Forward) : (Node.script s).span = Span.hull s.spans := by
  refine Span.contains_antisymm (Span.contains_hull_iff.mpr fun a ha => ?_) ?_
  · rcases mem_spans_iff.mp ha with ⟨t, ht, rfl⟩ | ⟨g, hg, rfl⟩
    · exact h.contains_statement ht
    · exact h.contains_comment hg
  · obtain ⟨a, ha, hstart⟩ := s.exists_start_eq
    obtain ⟨z, hz, hstop⟩ := s.exists_stop_eq
    refine Span.contains_iff.mpr ⟨?_, ?_⟩
    · show _ ≤ s.start
      rw [hstart]
      exact (Span.contains_iff.mp (Span.hull_contains ha)).1
    · show s.stop ≤ _
      rw [hstop]
      exact (Span.contains_iff.mp (Span.hull_contains hz)).2

end Forward

/-! ## What becomes of statements and comments -/

section Outcome

variable {statements : List Statement} {comments : List CommentGroup}

theorem ofParts_of_disorder {i : Nat} {a b : CommentGroup}
    (h : CommentGroup.FirstDisorder comments i a b) :
    ofParts statements comments = .error (.unorderedComments b.start a.stop) := by
  have hfirst := CommentGroup.firstDisorder?_eq_some_iff.mpr ⟨i, h⟩
  unfold ofParts
  split
  · rename_i heq
    rw [hfirst] at heq
    cases heq
    rfl
  · rename_i heq
    rw [hfirst] at heq
    cases heq

theorem ofParts_nil (h : CommentGroup.firstDisorder? comments = none) :
    ofParts [] comments = .error (.emptyList "statement") := by
  unfold ofParts
  split
  · rename_i heq
    rw [h] at heq
    cases heq
  · rfl

theorem exists_ofParts (h : CommentGroup.firstDisorder? comments = none)
    (hs : statements ≠ []) :
    ∃ s, ofParts statements comments = .ok s ∧ s.statements.toList = statements ∧
      s.comments = comments := by
  obtain ⟨first, rest, rfl⟩ := List.exists_cons_of_ne_nil hs
  exact ⟨⟨⟨first, rest⟩, comments, h⟩, ofParts_eq_ok_iff.mpr ⟨rfl, rfl⟩, rfl, rfl⟩

end Outcome

/-- Comments out of order are reported first, by the first pair that is; then a list without
statements; anything else is kept as it is. If no group runs backwards, groups are in order exactly
if each stops before all behind it start. If no statement does either, and statements do not
overlap, the extent of the script is the least that contains all statements and comments. -/
theorem ofParts_outcome (statements : List Statement) (comments : List CommentGroup) :
    (∀ i a b, CommentGroup.FirstDisorder comments i a b →
      ∃ e, ofParts statements comments = .error e ∧ e.isDefect = true ∧
        e.message = "internal inconsistency: comment group at " ++ b.start.text ++
          " precedes the group ending at " ++ a.stop.text) ∧
    ((¬ ∃ i a b, CommentGroup.FirstDisorder comments i a b) → statements = [] →
      ofParts statements comments = .error (.emptyList "statement")) ∧
    ((¬ ∃ i a b, CommentGroup.FirstDisorder comments i a b) → statements ≠ [] →
      ∃ s, ofParts statements comments = .ok s ∧ s.statements.toList = statements ∧
        s.comments = comments) ∧
    ((∀ g ∈ comments, g.start ≤ g.stop) →
      ((¬ ∃ i a b, CommentGroup.FirstDisorder comments i a b) ↔
        ∀ (i j : Nat) (a b : CommentGroup), i < j → comments[i]? = some a →
          comments[j]? = some b → a.stop ≤ b.start)) ∧
    ∀ s, ofParts statements comments = .ok s → s.Forward →
      (Node.script s).span = Span.hull s.spans ∧
      (∀ t ∈ statements, (Node.script s).span.contains (Node.statement t).span = true) ∧
      (∀ g ∈ comments, (Node.script s).span.contains g.span = true) ∧
      ∀ a : Span, (∀ t ∈ statements, a.contains (Node.statement t).span = true) →
        (∀ g ∈ comments, a.contains g.span = true) →
        a.contains (Node.script s).span = true := by
  rw [← CommentGroup.firstDisorder?_eq_none_iff]
  refine ⟨fun i a b h => ⟨_, ofParts_of_disorder h, rfl, rfl⟩, ?_, exists_ofParts, fun hf => ?_,
    fun s hs hforward => ?_⟩
  · rintro h rfl
    exact ofParts_nil h
  · rw [CommentGroup.firstDisorder?_eq_none_iff_pairwise hf, List.pairwise_iff_getElem]
    constructor
    · intro h i j a b hij ha hb
      obtain ⟨hi, rfl⟩ := List.getElem?_eq_some_iff.mp ha
      obtain ⟨hj, rfl⟩ := List.getElem?_eq_some_iff.mp hb
      exact h i j hi hj hij
    · intro h i j hi hj hij
      exact h i j _ _ hij (List.getElem?_eq_getElem hi) (List.getElem?_eq_getElem hj)
  · obtain ⟨rfl, rfl⟩ := ofParts_eq_ok_iff.mp hs
    refine ⟨hforward.span_eq_hull, fun t ht => hforward.contains_statement ht,
      fun g hg => hforward.contains_comment hg, fun a hst hgr => ?_⟩
    rw [hforward.span_eq_hull, Span.contains_hull_iff]
    intro b hb
    rcases mem_spans_iff.mp hb with ⟨t, ht, rfl⟩ | ⟨g, hg, rfl⟩
    · exact hst t ht
    · exact hgr g hg

/-- Of four comments the second and the third are the first to overlap, which is reported although
there is no statement. The comments of `scattered` lie within its two statements, which give its
extent. -/
theorem ofParts_outcome_overlapping :
    (∃ e, ofParts [] [shortComment 1 1, shortComment 1 5, shortComment 1 7, shortComment 1 8] =
        .error e ∧ e.isDefect = true) ∧
      scattered.Forward ∧ (Node.script scattered).span = ⟨⟨1, 1⟩, ⟨5, 2⟩⟩ ∧
      Span.hull scattered.spans = ⟨⟨1, 1⟩, ⟨5, 2⟩⟩ := by
  have hdisorder : CommentGroup.FirstDisorder
      [shortComment 1 1, shortComment 1 5, shortComment 1 7, shortComment 1 8] 1
      (shortComment 1 5) (shortComment 1 7) := by
    refine ⟨rfl, rfl, by decide, fun j hj c d hc hd => ?_⟩
    obtain rfl : j = 0 := by omega
    cases hc
    cases hd
    decide
  obtain ⟨e, he, hdefect, -⟩ := (ofParts_outcome [] _).1 1 _ _ hdisorder
  have hforward : scattered.Forward := ⟨by decide, by decide, by decide⟩
  obtain ⟨-, -, -, -, hspan⟩ := ofParts_outcome scattered.statements.toList scattered.comments
  have hhull := (hspan scattered (ofParts_eq_ok_iff.mpr ⟨rfl, rfl⟩) hforward).1
  exact ⟨⟨e, he, hdefect⟩, hforward, rfl, hhull.symm⟩

end Script

end SqlScript
