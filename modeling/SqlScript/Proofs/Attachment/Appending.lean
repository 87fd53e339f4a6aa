import SqlScript.Proofs.Attachment.Collecting

/-!
# Comments further down do not matter

The pass places its groups one after the other and never comes back to one. Where it stands when it
meets a group depends on the nodes and on the groups up to that one, so two scripts that differ only
in the groups behind it agree on it:

* `Script.ofParts_eq_ok_iff`: a script is accepted with its own statements and comments;
* `Script.cursorAt_of_append`: the pass meets a group at the same place, whatever comes behind it;
* `Script.attaches_of_append`: so the group is attached by the same rule to the same node.
-/

namespace SqlScript

/-- Groups are in order if they are so with others behind them. -/
theorem CommentGroup.firstDisorder?_of_append {cs ds : List CommentGroup}
    (h : firstDisorder? (cs ++ ds) = none) : firstDisorder? cs = none := by
  fun_induction firstDisorder? cs with
  | case1 a b rest hab => simp [firstDisorder?, hab] at h
  | case2 a b rest hab ih =>
    rw [List.cons_append, List.cons_append, firstDisorder?, if_neg hab] at h
    exact ih h
  | case3 => rfl

namespace Script

/-- What is accepted as a script are its statements and its comments. -/
theorem ofParts_eq_ok_iff {statements : List Statement} {comments : List CommentGroup}
    {s : Script} :
    ofParts statements comments = .ok s ↔
      statements = s.statements.toList ∧ comments = s.comments := by
  unfold ofParts
  split
  · rename_i a b h
    constructor
    · intro hs
      cases hs
    · rintro ⟨-, rfl⟩
      rw [s.comments_ordered] at h
      cases h
  · rename_i h
    cases hl : NonEmptyList.ofList "statement" statements with
    | error e =>
      have hne : statements ≠ s.statements.toList := fun hs => by
        rw [NonEmptyList.ofList_eq_ok_iff.mpr hs] at hl
        cases hl
      simp [hne]
    | ok list =>
      rw [NonEmptyList.ofList_eq_ok_iff] at hl
      obtain ⟨head, tail⟩ := list
      obtain ⟨⟨head', tail'⟩, comments', ordered⟩ := s
      simp [hl]

/-- The nodes of a script are those of its statements, whatever its comments are. -/
theorem nodes_eq_of_statements {s t : Script} (h : s.statements = t.statements) :
    s.nodes = t.nodes := by
  simp only [nodes, ref, NodeRef.children, NodeRef.root, Node.children, h]

/-- The pass meets a group at the same place, whatever comes behind the group. -/
theorem cursorAt_of_append {s t : Script} {ds : List CommentGroup}
    (hstatements : s.statements = t.statements) (hcomments : s.comments = t.comments ++ ds) {i : Nat}
    (hi : i < t.comments.length) : s.cursorAt i = t.cursorAt i := by
  have htake : s.comments.take (i + 1) = t.comments.take (i + 1) := by
    rw [hcomments, List.take_append_of_le_length hi]
  rw [cursorAt, cursorAt, nodes_eq_of_statements hstatements, htake]

/-- Groups behind a group do not move it: a script with some groups more is accepted only if it is
accepted without them, and each of the others is attached by the same rule to the same node in
both. -/
theorem attaches_of_append {statements : List Statement} {cs ds : List CommentGroup} {s : Script}
    (hs : ofParts statements (cs ++ ds) = .ok s) (policy : Policy) (hc : policy.check = .ok ()) :
    ∃ t, ofParts statements cs = .ok t ∧
      ∀ i < cs.length, ∃ rule r, s.Attaches policy i rule r ∧ t.Attaches policy i rule r := by
  obtain ⟨hstatements, hcomments⟩ := ofParts_eq_ok_iff.mp hs
  have hordered : CommentGroup.firstDisorder? cs = none :=
    CommentGroup.firstDisorder?_of_append (hcomments ▸ s.comments_ordered)
  let t : Script := ⟨s.statements, cs, hordered⟩
  refine ⟨t, ofParts_eq_ok_iff.mpr ⟨hstatements, rfl⟩, fun i hi => ?_⟩
  have ht : t.comments[i]? = some cs[i] := List.getElem?_eq_getElem hi
  have hg : s.comments[i]? = some cs[i] := by
    rw [← hcomments, List.getElem?_append_left hi]
    exact ht
  have hsame : s.statements = t.statements := rfl
  have hcursor := cursorAt_of_append hsame hcomments.symm hi
  obtain ⟨rule, r, ha⟩ := exists_attaches hc ht
  refine ⟨rule, r, ?_, ha⟩
  rw [attaches_iff_decides hc hg, hcursor]
  exact (attaches_iff_decides hc ht).mp ha

/-- The second comment of `scattered`, with the third behind it and without: the identifier that
follows has it, although the pass without the third ends there. -/
theorem attaches_of_append_scattered :
    ofParts [.dropOnLine 1, dropBelow]
        ([shortComment 1 15, shortComment 2 12] ++ [shortComment 2 20]) = .ok scattered ∧
      Policy.standard.check = .ok () ∧
      ∃ t, ofParts [.dropOnLine 1, dropBelow] [shortComment 1 15, shortComment 2 12] = .ok t ∧
        t.Attaches .standard 1 .following
          ⟨⟨0, [1, 0]⟩, .ident ⟨"a", ⟨⟨2, 18⟩, ⟨2, 19⟩⟩⟩⟩ := by
  have hs : ofParts [.dropOnLine 1, dropBelow]
      ([shortComment 1 15, shortComment 2 12] ++ [shortComment 2 20]) = .ok scattered := rfl
  obtain ⟨t, ht, hall⟩ := attaches_of_append hs .standard rfl
  refine ⟨hs, rfl, t, ht, ?_⟩
  obtain ⟨rule, r, ha, ha'⟩ := hall 1 (by decide)
  obtain ⟨g, hg⟩ := ha.getElem?_placements placements_scattered
  cases hg
  exact ha'

end Script

end SqlScript
