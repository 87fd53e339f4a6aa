import SqlScript.Proofs.Node.Nesting
import SqlScript.Proofs.Node.Parting

/-!
# Where a tree turns into a comment

The nodes of a tree are kept apart by words, except where an operator is written right in front of
its operand. So two dashes meet in one place only: behind a minus whose operand starts with a dash.

* `Expr.head?_toSql`: an expression starts with a dash if it leads with a minus sign;
* `NodeRef.Plain.opensComment_node`: one node opens a comment if a child does or if it doubles a
  minus;
* `NodeRef.Plain.opensComment_iff`: a tree opens a comment exactly if some node doubles a minus.
-/

namespace SqlScript

open Layout

namespace NodeRef

/-- No name, string or comment in a tree has a dash in it. -/
def Plain (r : NodeRef) : Prop :=
  ∀ m ∈ r.preorder, ∀ text, m.node.spelling? = some text → '-' ∉ text.toList

theorem Plain.self {r : NodeRef} (h : r.Plain) :
    ∀ text, r.node.spelling? = some text → '-' ∉ text.toList :=
  h r r.mem_preorder_self

theorem Plain.child {c r : NodeRef} (h : r.Plain) (hc : c ∈ r.children) : c.Plain :=
  fun m hm => h m (preorder_subset_of_mem_children hc hm)

end NodeRef

/-! ## What comes first -/

theorem Node.toList_toSql_operator (op : Operator) :
    (operator op).toSql.toList = op.val.text.toList := by
  simp [toList_toSql, layout]

theorem Node.toList_toSql_unary (op : Operator) (operand : Expr) :
    (expr (.unary op operand)).toSql.toList =
      op.val.text.toList ++ ((if op.val.isKeyword then [' '] else []) ++
        (expr operand).toSql.toList) := by
  rw [toList_toSql]
  simp [layout, Expr.layout, toList_toSql_operator]

/-- Where a child comes first, and what follows is kept apart from it, the child decides. -/
theorem Node.head?_toSql_of_layout {n c : Node} {rest : List Piece}
    (hlayout : n.layout = .child c :: rest) (h : Parted true rest) :
    n.toSql.toList.head? = some '-' ↔ c.toSql.toList.head? = some '-' := by
  have hrest := head?_chars_of_parted h
  rw [toList_toSql, hlayout, chars_child]
  cases c.toSql.toList with
  | nil => simpa using hrest
  | cons x xs => simp

namespace NodeRef

theorem exists_child {c : Node} {r : NodeRef} (h : c ∈ r.node.children) :
    ∃ s ∈ r.children, s.node = c := by
  rw [← map_node_children] at h
  exact List.mem_map.mp h

theorem exists_first_child {c : Node} {r : NodeRef} {rest : List Piece}
    (h : r.node.layout = .child c :: rest) : ∃ s ∈ r.children, s.node = c :=
  exists_child (mem_children_of_mem_layout (h ▸ List.mem_cons_self))

/-- Names with points between them have no dash. -/
theorem Plain.dash_not_mem_names {r : NodeRef} (h : r.Plain) {names : List Ident}
    (hr : r.node.layout = separated "." (names.map .ident)) : '-' ∉ r.node.toSql.toList := by
  have hparted : Parted false r.node.layout := by
    simp [hr]
  rw [Node.toList_toSql]
  refine dash_not_mem_chars_of_parted hparted fun c hc => ?_
  obtain ⟨name, -, rfl⟩ : ∃ name ∈ names, Node.ident name = c := by
    simpa [hr] using hc
  obtain ⟨s, hs, hname⟩ := exists_child (childNodes_layout r.node ▸ hc)
  have hplain := (h.child hs).self name.val (hname ▸ rfl)
  rw [Node.toList_toSql]
  simpa [Node.ident, Node.layout, Expr.layout] using hplain

/-- What starts with a name does not start with a dash. -/
theorem Plain.head?_ne_dash_of_name {r : NodeRef} (h : r.Plain) {name : ObjectName}
    {rest : List Piece} (hr : r.node.layout = .child (.objectName name) :: rest)
    (hrest : Parted true rest) : r.node.toSql.toList.head? ≠ some '-' := by
  obtain ⟨s, hs, hname⟩ := exists_first_child hr
  rw [ne_eq, Node.head?_toSql_of_layout hr hrest, ← hname]
  exact head?_ne_dash ((h.child hs).dash_not_mem_names (by rw [hname]; rfl))

end NodeRef

namespace Expr

/-- Whether an expression starts with a minus sign: that of a number, or one that is an operator. -/
def leadsWithMinus : Expr → Bool
  | literal value => value.val.isNegative
  | unary op _ => op.val == .minus
  | binary left _ _ => left.leadsWithMinus
  | isNull operand _ _ => operand.leadsWithMinus
  | inList operand _ _ _ => operand.leadsWithMinus
  | inSubquery operand _ _ _ => operand.leadsWithMinus
  | between operand _ _ _ => operand.leadsWithMinus
  | _ => false

/-- An expression starts with a dash exactly if it leads with a minus sign. -/
theorem head?_toSql {r : NodeRef} (h : r.Plain) {e : Expr} (hr : r.node = .expr e) :
    r.node.toSql.toList.head? = some '-' ↔ e.leadsWithMinus = true := by
  induction r using NodeRef.induction generalizing e with
  | step r ih =>
    -- An expression with an operand in front starts as the operand does.
    have hoperand : ∀ operand rest, r.node.layout = .child (.expr operand) :: rest →
        Parted true rest →
        (r.node.toSql.toList.head? = some '-' ↔ operand.leadsWithMinus = true) := by
      intro operand rest hlayout hrest
      obtain ⟨s, hs, hnode⟩ := NodeRef.exists_first_child hlayout
      rw [Node.head?_toSql_of_layout hlayout hrest, ← hnode]
      exact ih s hs (h.child hs) hnode
    obtain ⟨a, n⟩ := r
    subst hr
    cases e with
    | ident name =>
      have hdash := h.self name.val rfl
      simpa [Node.toList_toSql, Node.layout, Expr.layout, leadsWithMinus] using head?_ne_dash hdash
    | compound parts => simpa [leadsWithMinus] using head?_ne_dash (h.dash_not_mem_names rfl)
    | qualifiedWildcard qualifier starEnd =>
      simpa [leadsWithMinus] using h.head?_ne_dash_of_name rfl (by simp)
    | function name distinct args closeEnd window =>
      simpa [leadsWithMinus] using
        h.head?_ne_dash_of_name rfl (by cases window <;> simp [whenSome])
    | literal value =>
      have htext := value.val.head?_text
      rwa [← Node.toSql_literal] at htext
    | unary op operand =>
      obtain ⟨kind, span⟩ := op
      rw [Node.toList_toSql_unary]
      cases kind <;> simp [leadsWithMinus, OperatorKind.text]
    | binary left op right => exact hoperand left _ rfl (by simp)
    | isNull operand negated nullEnd => exact hoperand operand _ rfl (by cases negated <;> simp)
    | inList operand items negated closeEnd => exact hoperand operand _ rfl (by simp)
    | inSubquery operand query negated closeEnd => exact hoperand operand _ rfl (by simp)
    | between operand negated low high => exact hoperand operand _ rfl (by simp)
    | existsQuery notStart existsStart query closeEnd =>
      cases notStart <;> simp [Node.toList_toSql, Node.layout, Expr.layout, leadsWithMinus, whenSome]
    | _ => simp [Node.toList_toSql, Node.layout, Expr.layout, leadsWithMinus]

end Expr

/-! ## Two dashes in a row -/

namespace Node

/-- Whether a node is a minus in front of an expression that leads with another. -/
def doublesMinus : Node → Bool
  | expr (.unary op operand) => op.val == .minus && operand.leadsWithMinus
  | _ => false

theorem not_opensComment_operator (op : Operator) : ¬ OpensComment (operator op).toSql.toList := by
  obtain ⟨kind, span⟩ := op
  rw [toList_toSql_operator]
  cases kind <;> simp [OperatorKind.text, opensComment_cons, not_opensComment_of_not_mem]

/-- Only a minus can meet the dash that its operand starts with. -/
theorem opensComment_unary (op : Operator) (operand : Expr) :
    OpensComment (expr (.unary op operand)).toSql.toList ↔
      OpensComment (expr operand).toSql.toList ∨
        op.val = .minus ∧ (expr operand).toSql.toList.head? = some '-' := by
  rw [toList_toSql_unary]
  by_cases hop : op.val = .minus
  · simp [hop, OperatorKind.text, OperatorKind.isKeyword, opensComment_cons, or_comm]
  · have hdash : '-' ∉ op.val.text.toList := mt OperatorKind.dash_mem_text.mp hop
    rw [opensComment_append_of_not_mem hdash, opensComment_append_of_not_mem (by split <;> simp)]
    simp [hop]

end Node

namespace NodeRef

/-- A node opens a comment if a child of it does, or if it doubles a minus. -/
theorem Plain.opensComment_node {r : NodeRef} (h : r.Plain) :
    OpensComment r.node.toSql.toList ↔
      (∃ c ∈ r.node.children, OpensComment c.toSql.toList) ∨ r.node.doublesMinus = true := by
  have hparted (hdash : r.node.mayWriteDash = false) :
      OpensComment r.node.toSql.toList ↔ ∃ c ∈ r.node.children, OpensComment c.toSql.toList := by
    have hlayout := Node.parted_layout h.self hdash
    rw [Node.toList_toSql, opensComment_chars_of_parted hlayout, childNodes_layout]
  -- What is left are the three forms in which a dash may be written.
  obtain ⟨a, n⟩ := r
  cases n with
  | operator op => simp [Node.not_opensComment_operator, Node.children, Node.doublesMinus]
  | expr e =>
    cases e with
    | literal value =>
      have htext := LiteralValue.not_opensComment_text h.self
      rw [← Node.toSql_literal] at htext
      simpa [Node.literal, Node.children, Expr.children, Node.doublesMinus] using htext
    | unary op operand =>
      have hmem : .expr operand ∈ (Node.expr (.unary op operand)).children := by
        simp [Node.children, Expr.children]
      obtain ⟨s, hs, hnode⟩ := exists_child (r := ⟨a, _⟩) hmem
      have hhead := Expr.head?_toSql (h.child hs) hnode
      rw [Node.opensComment_unary, ← hnode, hhead]
      simp [Node.children, Expr.children, Node.not_opensComment_operator, Node.doublesMinus, hnode]
    | _ => simpa [Node.doublesMinus] using hparted rfl
  | _ => simpa [Node.doublesMinus] using hparted rfl

/-- A tree opens a comment exactly if somewhere in it a minus is doubled. -/
theorem Plain.opensComment_iff {r : NodeRef} (h : r.Plain) :
    OpensComment r.node.toSql.toList ↔ ∃ m ∈ r.preorder, m.node.doublesMinus = true := by
  induction r using NodeRef.induction with
  | step r ih =>
    have hchildren : (∃ c ∈ r.node.children, OpensComment c.toSql.toList) ↔
        ∃ c ∈ r.children, ∃ m ∈ c.preorder, m.node.doublesMinus = true := by
      simp only [← map_node_children, List.mem_map, exists_exists_and_eq_and]
      exact exists_congr fun c => and_congr_right fun hc => ih c hc (h.child hc)
    rw [h.opensComment_node, hchildren]
    simp only [mem_preorder_iff (r := r)]
    constructor
    · rintro (⟨c, hc, m, hm, hdouble⟩ | hdouble)
      · exact ⟨m, .inr ⟨c, hc, hm⟩, hdouble⟩
      · exact ⟨r, .inl rfl, hdouble⟩
    · rintro ⟨m, rfl | ⟨c, hc, hm⟩, hdouble⟩
      · exact .inr hdouble
      · exact .inl ⟨c, hc, m, hm, hdouble⟩

end NodeRef

/-- A minus in front of a test of a negative number. -/
def Expr.negatedTest : Expr :=
  .unary ⟨.minus, ⟨⟨1, 1⟩, ⟨1, 2⟩⟩⟩
    (.isNull (.literal ⟨.integer (-5), ⟨⟨1, 2⟩, ⟨1, 4⟩⟩⟩) false ⟨1, 12⟩)

theorem NodeRef.opensComment_negatedTest :
    (NodeRef.root 0 (.expr .negatedTest)).Plain ∧
      (Node.expr .negatedTest).toSql = "--5 IS NULL" ∧
      OpensComment (Node.expr .negatedTest).toSql.toList := by
  have hplain : (NodeRef.root 0 (.expr .negatedTest)).Plain := by
    intro m hm
    simp only [root, preorder_eq, children, Node.children, Expr.negatedTest, Expr.children,
      List.mapIdx_cons, List.mapIdx_nil, List.flatMap_cons, List.flatMap_nil, List.append_nil,
      List.cons_append, List.nil_append, List.mem_cons, List.not_mem_nil, or_false] at hm
    rcases hm with rfl | rfl | rfl | rfl <;> simp [Node.spelling?, LiteralValue.spelling?]
  exact ⟨hplain, by decide +kernel, hplain.opensComment_iff.mpr ⟨_, mem_preorder_self _, rfl⟩⟩

end SqlScript
