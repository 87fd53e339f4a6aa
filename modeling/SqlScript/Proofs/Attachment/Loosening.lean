import SqlScript.Proofs.Attachment.Collecting

/-!
# Looser policies

A policy is looser than another if it allows a trailing comment as many lines below a node at least,
and asks for a blank line only where the other does. What the pass knows when it meets a group does
not depend on the policy, so two policies differ only in what they decide from it:

* `Policy.Loosens.trails`: what trails a node under the stricter policy trails it under the looser;
* `Decides.loosened`: so the looser policy decides by a rule of the same rank or a higher one;
* `Script.attaches_loosened`: a group moves up in rank or stays where it is;
* `Script.attaches_commentWithin`: the node in front of a group may be a container, so that a group
  can leave one container for another.
-/

namespace SqlScript

/-- The order in which the rules are tried, the first one highest. -/
def Rule.rank : Rule → Nat
  | following => 0
  | previous => 1
  | enclosing => 2

/-- The second policy allows whatever the first does. -/
structure Policy.Loosens (strict loose : Policy) : Prop where
  gap : strict.trailingLineGap ≤ loose.trailingLineGap
  blank : loose.requireBlankLineAfter = true → strict.requireBlankLineAfter = true

/-- The policy under which only a comment on the line of a node trails it. -/
def Policy.sameLineOnly : Policy := ⟨0, true⟩

/-- The policy under which a comment one line below a node trails it without a blank line. -/
def Policy.nextLine : Policy := ⟨1, false⟩

theorem Policy.Loosens.trails {strict loose : Policy} (h : strict.Loosens loose)
    {nodeStop next : Position} {comment : Span}
    (ht : strict.trails nodeStop comment next = true) :
    loose.trails nodeStop comment next = true := by
  have hgap := UInt32.le_iff_toNat_le.mp h.gap
  rw [trails_iff] at ht ⊢
  rcases ht with ht | ⟨hbelow, hlines, hblank⟩
  · exact .inl ht
  · exact .inr ⟨hbelow, Nat.le_trans hlines hgap, fun hr => hblank (h.blank hr)⟩

/-- From the same knowledge a looser policy decides by no lower rule, and by the same rule for the
same node. -/
theorem Decides.loosened {strict loose : Policy} (h : strict.Loosens loose) {s : Surroundings}
    {next : Option NodeRef} {comment : Span} {rule rule' : Rule} {r r' : NodeRef}
    (hd : Decides strict s next comment rule r) (hd' : Decides loose s next comment rule' r') :
    rule.rank ≤ rule'.rank ∧ (rule = rule' → r = r') := by
  cases hd with
  | enclosing he ht =>
    -- Whatever trailed the container closed last still does.
    have ht' := h.trails ht
    obtain ⟨rfl, rfl⟩ := hd'.unique (.enclosing he ht')
    exact ⟨Nat.le_refl _, fun _ => rfl⟩
  | previous he hb ht =>
    have ht' := ht.imp_right h.trails
    cases hd' with
    | enclosing => exact ⟨by decide, nofun⟩
    | previous _ hb' _ => exact ⟨Nat.le_refl _, fun _ => Option.some.inj (hb.symm.trans hb')⟩
    | following he' hb' hn =>
      obtain ⟨hrule, -⟩ := (Decides.following he' hb' hn).unique (.previous he' hb ht')
      cases hrule
  | following he hb hn =>
    refine ⟨Nat.zero_le _, ?_⟩
    rintro rfl
    cases hd' with
    | following _ _ hn' => exact Option.some.inj (hn.symm.trans hn')

namespace Script

/-- Under a looser policy every group is attached by a rule of the same rank or a higher one, and by
the same rule to the same node. So a group that moves goes to the container closed last, or from the
node behind it to the node in front; and one that the container closed last has stays there. -/
theorem attaches_loosened (s : Script) {strict loose : Policy} (hs : strict.check = .ok ())
    (hl : loose.check = .ok ()) (h : strict.Loosens loose) {i : Nat} (hi : i < s.comments.length) :
    ∃ rule r rule' r', s.Attaches strict i rule r ∧ s.Attaches loose i rule' r' ∧
      rule.rank ≤ rule'.rank ∧ (rule = rule' → r = r') ∧
      (r ≠ r' → rule' = .enclosing ∨ rule = .following ∧ rule' = .previous) ∧
      (rule = .enclosing → rule' = .enclosing ∧ r = r') := by
  have hg := List.getElem?_eq_getElem hi
  obtain ⟨rule, r, ha⟩ := exists_attaches hs hg
  obtain ⟨rule', r', ha'⟩ := exists_attaches hl hg
  obtain ⟨hrank, hsame⟩ :=
    ((attaches_iff_decides hs hg).mp ha).loosened h ((attaches_iff_decides hl hg).mp ha')
  refine ⟨rule, r, rule', r', ha, ha', hrank, hsame, fun hne => ?_, ?_⟩
  · cases rule <;> cases rule' <;> simp_all [Rule.rank]
  · rintro rfl
    cases rule' <;> simp_all [Rule.rank]

theorem placements_commentedPair_sameLineOnly :
    commentedPair.placements .sameLineOnly =
      .ok [⟨⟨0, pairComment⟩, .previous, ⟨⟨0, [1, 0]⟩, .ident ⟨"a", ⟨⟨2, 12⟩, ⟨2, 13⟩⟩⟩⟩⟩] := by
  rw [placements_of_check rfl, nodes_commentedPair]
  rfl

/-- The comment of `commentedPair` leaves the node in front of it for the container closed last,
once it may trail a node from one line below. -/
theorem attaches_loosened_commentedPair :
    Policy.sameLineOnly.check = .ok () ∧ Policy.standard.check = .ok () ∧
      Policy.sameLineOnly.Loosens .standard ∧ 0 < commentedPair.comments.length ∧
      commentedPair.Attaches .sameLineOnly 0 .previous
        ⟨⟨0, [1, 0]⟩, .ident ⟨"a", ⟨⟨2, 12⟩, ⟨2, 13⟩⟩⟩⟩ ∧
      commentedPair.Attaches .standard 0 .enclosing ⟨⟨0, [0]⟩, .statement (.dropOnLine 1)⟩ ∧
      Rule.previous.rank ≤ Rule.enclosing.rank := by
  have h : Policy.sameLineOnly.Loosens .standard := ⟨by decide, fun _ => rfl⟩
  obtain ⟨rule, r, rule', r', ha, ha', hrank, -⟩ :=
    attaches_loosened commentedPair rfl rfl h (i := 0) (by decide)
  obtain ⟨g, hp⟩ := ha.getElem?_placements placements_commentedPair_sameLineOnly
  obtain ⟨g', hp'⟩ := ha'.getElem?_placements placements_commentedPair
  cases hp
  cases hp'
  exact ⟨rfl, rfl, h, by decide, ha, ha', hrank⟩

/-- `DROP INDEX a` on the second line, with room for a comment in front of `a`. -/
def dropWide : Statement :=
  .dropIndex ⟨⟨2, 1⟩, ⟨⟨"a", ⟨⟨2, 18⟩, ⟨2, 19⟩⟩⟩, []⟩⟩

/-- Two statements on two lines, with a comment behind the first and another within the second. -/
def commentWithin : Script where
  statements := ⟨.dropOnLine 1, [dropWide]⟩
  comments := [shortComment 1 15, shortComment 2 12]
  comments_ordered := rfl

theorem nodes_commentWithin :
    commentWithin.nodes =
      [⟨⟨0, [0]⟩, .statement (.dropOnLine 1)⟩, ⟨⟨0, [0, 0]⟩, .ident ⟨"a", ⟨⟨1, 12⟩, ⟨1, 13⟩⟩⟩⟩,
        ⟨⟨0, [1]⟩, .statement dropWide⟩, ⟨⟨0, [1, 0]⟩, .ident ⟨"a", ⟨⟨2, 18⟩, ⟨2, 19⟩⟩⟩⟩] := by
  simp [nodes, ref, NodeRef.root, NodeRef.preorder_eq, NodeRef.children, Address.child,
    commentWithin, dropWide, Node.children, Statement.children, Statement.dropOnLine, Node.ident,
    Expr.children]

theorem placements_commentWithin_sameLineOnly :
    commentWithin.placements .sameLineOnly =
      .ok [⟨⟨0, shortComment 1 15⟩, .enclosing, ⟨⟨0, [0]⟩, .statement (.dropOnLine 1)⟩⟩,
        ⟨⟨1, shortComment 2 12⟩, .previous, ⟨⟨0, [1]⟩, .statement dropWide⟩⟩] := by
  rw [placements_of_check rfl, nodes_commentWithin]
  rfl

theorem placements_commentWithin_nextLine :
    commentWithin.placements .nextLine =
      .ok [⟨⟨0, shortComment 1 15⟩, .enclosing, ⟨⟨0, [0]⟩, .statement (.dropOnLine 1)⟩⟩,
        ⟨⟨1, shortComment 2 12⟩, .enclosing, ⟨⟨0, [0]⟩, .statement (.dropOnLine 1)⟩⟩] := by
  rw [placements_of_check rfl, nodes_commentWithin]
  rfl

/-- The comment within the second statement is not at the node behind it, but at the second
statement, and yet a looser policy moves it: from this container to another, the first statement. -/
theorem attaches_commentWithin :
    Policy.sameLineOnly.check = .ok () ∧ Policy.nextLine.check = .ok () ∧
      Policy.sameLineOnly.Loosens .nextLine ∧
      commentWithin.Attaches .sameLineOnly 1 .previous ⟨⟨0, [1]⟩, .statement dropWide⟩ ∧
      commentWithin.Attaches .nextLine 1 .enclosing ⟨⟨0, [0]⟩, .statement (.dropOnLine 1)⟩ ∧
      (Node.statement dropWide).isContainer = true ∧
      (Node.statement (.dropOnLine 1)).isContainer = true := by
  have hg : commentWithin.comments[1]? = some (shortComment 2 12) := rfl
  have hstrict : Policy.sameLineOnly.check = .ok () := rfl
  have hloose : Policy.nextLine.check = .ok () := rfl
  obtain ⟨rule, r, ha⟩ := exists_attaches hstrict hg
  obtain ⟨rule', r', ha'⟩ := exists_attaches hloose hg
  obtain ⟨g, hp⟩ := ha.getElem?_placements placements_commentWithin_sameLineOnly
  obtain ⟨g', hp'⟩ := ha'.getElem?_placements placements_commentWithin_nextLine
  cases hp
  cases hp'
  exact ⟨hstrict, hloose, ⟨by decide, nofun⟩, ha, ha', rfl, rfl⟩

end Script

end SqlScript
