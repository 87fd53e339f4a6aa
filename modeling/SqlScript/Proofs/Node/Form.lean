import SqlScript.Proofs.Node.Nesting
import SqlScript.Proofs.Tree.Form

/-!
# The text of a node is in good form

Blanks and parentheses stand in the words that a node writes between its children. A child in good
form can be read as if it were one character, so that each layout can be read on its own, whatever
the children are, and the whole tree from its leaves to its root:

* `Layout.scan`: reads a layout, with children as single characters;
* `Layout.scan_chars`: the text of a layout is read in the same way;
* `Node.fits_layout`: every layout is read from front to end, comments apart;
* `NodeRef.wellFormed_toSql`: so is every text, if no name and no string brings in other blanks or
  parentheses.
-/

namespace SqlScript

open TextState

/-- Whether a node is a comment or a group of comments. -/
def Node.isComment : Node → Bool
  | comment _ | commentGroup _ => true
  | _ => false

/-- Reads a piece of a layout. Whatever a child is, it counts as one character that is no blank, but
comments are not read. -/
def Piece.scan (s : TextState) : Piece → Option TextState
  | word text => s.scan text.toList
  | mark _ => some s
  | child n => if n.isComment then none else some ⟨false, s.depth⟩

namespace Layout

/-- Reads a layout, piece by piece. -/
def scan (s : TextState) (ps : List Piece) : Option TextState :=
  ps.foldlM Piece.scan s

variable {s t : TextState} {ps qs : List Piece}

@[simp] theorem scan_nil : scan s [] = some s := rfl

@[simp] theorem scan_word {text : String} :
    scan s (.word text :: ps) = (s.scan text.toList).bind (scan · ps) := rfl

@[simp] theorem scan_mark {p : Position} : scan s (.mark p :: ps) = scan s ps := rfl

@[simp] theorem scan_child {n : Node} :
    scan s (.child n :: ps) = if n.isComment then none else scan ⟨false, s.depth⟩ ps := by
  cases h : n.isComment <;> simp [scan, Piece.scan, h]

@[simp] theorem scan_append : scan s (ps ++ qs) = (scan s ps).bind (scan · qs) :=
  List.foldlM_append

@[simp] theorem scan_words {texts : List String} :
    scan s (texts.map .word) = s.scan (texts.flatMap String.toList) := by
  induction texts generalizing s with
  | nil => rfl
  | cons t ts ih => simp [ih]

@[simp] theorem scan_wordIf {b : Bool} {text : String} :
    scan s (wordIf b text) = if b then s.scan text.toList else some s := by
  cases b <;> simp [wordIf]

@[simp] theorem scan_token {text : String} {span : Span} :
    scan s (token text span) = s.scan text.toList := by
  simp [token]

@[simp] theorem scan_enclosed {span : Span} :
    scan s (enclosed span ps) = scan s ps := by
  simp [enclosed]

/-- Children with a word between each two of them are read as one, if the word changes no depth. -/
theorem scan_separated {separator : String} {b : Bool}
    (hs : ∀ d, TextState.scan ⟨false, d⟩ separator.toList = some ⟨b, d⟩) (ns : List Node) :
    scan s (separated separator ns) =
      if ns.any Node.isComment then none
      else some (if ns = [] then s else ⟨false, s.depth⟩) := by
  unfold separated
  induction ns generalizing s with
  | nil => rfl
  | cons n ns ih =>
    cases ns with
    | nil => simp
    | cons m ns =>
      have hcons : ((n :: m :: ns).map Piece.child).intersperse (.word separator) =
          .child n :: .word separator ::
            ((m :: ns).map Piece.child).intersperse (.word separator) := rfl
      rw [hcons, scan_child, scan_word, hs, Option.bind_some, ih]
      cases hn : n.isComment <;> simp [hn]

@[simp] theorem scan_names {ns : List Node} :
    scan s (separated "." ns) =
      if ns.any Node.isComment then none
      else some (if ns = [] then s else ⟨false, s.depth⟩) :=
  scan_separated (b := false) (fun _ => rfl) ns

@[simp] theorem scan_list {ns : List Node} :
    scan s (separated ", " ns) =
      if ns.any Node.isComment then none
      else some (if ns = [] then s else ⟨false, s.depth⟩) :=
  scan_separated (b := true) (fun _ => rfl) ns

@[simp] theorem scan_parenthesized {ns : List Node} :
    scan s (parenthesized ns) =
      if ns.any Node.isComment then none else some ⟨false, s.depth⟩ := by
  have hopen : s.scan "(".toList = some ⟨false, s.depth + 1⟩ := rfl
  have hclose : ∀ b, TextState.scan ⟨b, s.depth + 1⟩ ")".toList = some ⟨false, s.depth⟩ :=
    fun _ => rfl
  rw [parenthesized, List.cons_append, scan_word, hopen, Option.bind_some, scan_append, scan_list]
  split
  · rfl
  · rw [Option.bind_some, scan_word]
    split <;> rw [hclose, Option.bind_some, scan_nil]

@[simp] theorem scan_clause {keyword : String} {ns : List Node} :
    scan s (clause keyword ns) =
      if ns = [] then some s
      else (s.scan keyword.toList).bind fun t =>
        if ns.any Node.isComment then none else some ⟨false, t.depth⟩ := by
  cases ns with
  | nil => rfl
  | cons n ns =>
    rw [clause, if_neg (by simp), scan_word, if_neg (List.cons_ne_nil n ns)]
    simp only [scan_list, if_neg (List.cons_ne_nil n ns)]

/-- Parts that are read from a state to itself may follow each other in any number. -/
theorem scan_flatMap {layout : α → List Piece} (l : List α) (h : ∀ x, scan s (layout x) = some s) :
    scan s (l.flatMap layout) = some s := by
  induction l with
  | nil => rfl
  | cons x l ih => rw [List.flatMap_cons, scan_append, h, Option.bind_some, ih]

/-- The text of a layout is read as the layout is, if its children are tidy. -/
theorem scan_chars (h : scan s ps = some t)
    (hc : ∀ c ∈ childNodes ps, c.isComment = false → Tidy c.toSql.toList) :
    s.scan (chars ps) = some t := by
  induction ps generalizing s with
  | nil => exact h
  | cons p ps ih =>
    obtain ⟨u, hu, ht⟩ := Option.bind_eq_some_iff.mp h
    cases p with
    | word text =>
      have hword : s.scan text.toList = some u := hu
      rw [chars_word, TextState.scan_append, hword]
      exact ih ht hc
    | mark p =>
      cases hu
      exact ih ht hc
    | child n =>
      rw [childNodes_child, List.forall_mem_cons] at hc
      obtain ⟨hn, hu⟩ := Option.ite_none_left_eq_some.mp hu
      cases hu
      rw [chars_child, TextState.scan_append, (hc.1 (by simpa using hn)).scan]
      exact ih ht hc.2

end Layout

open Layout

/-- The pieces of a layout make up a text in good form, whatever its children are. -/
def Layout.Fits (ps : List Piece) : Prop :=
  scan start ps = some done

attribute [local simp] Layout.Fits Layout.whenSome start done step Node.isComment Node.ident
  Node.literal Node.query Node.referenceKey NonEmptyList.toList_ne_nil

/-! ## Nodes -/

/-- Names are not empty, and neither names nor strings have blanks or parentheses. -/
structure Node.Clean (n : Node) : Prop where
  name : ∀ name, n = .ident name → name.val ≠ "" ∧ Unspaced name.val.toList
  string : ∀ value s, n = .literal value → value.val.spelling? = some s → Unspaced s.toList

@[simp] theorem scan_columnList {s : TextState} (l : ColumnList) :
    scan s l.layout = some ⟨false, s.depth⟩ := by
  simp [ColumnList.layout]

theorem fits_objectName (name : ObjectName) : Fits (ObjectName.layout name) := by
  simp [ObjectName.layout]

theorem fits_dataType (t : DataType) : Fits t.layout := by
  cases t with
  | builtin type span =>
    have htype : TextState.scan ⟨true, 0⟩ _ = some ⟨false, 0⟩ := type.tidy_fragments
    simp [DataType.layout, htype]
  | _ => simp [DataType.layout]

theorem fits_expr {e : Expr} (h : (Node.expr e).Clean) : Fits e.layout := by
  cases e with
  | ident name =>
    obtain ⟨hne, hplain⟩ := h.name name rfl
    have hname : TextState.scan ⟨true, 0⟩ name.val.toList = some ⟨false, 0⟩ :=
      hplain.tidy (by simpa using hne)
    simp [Expr.layout, hname]
  | literal value =>
    have htext : Tidy value.val.text.toList :=
      LiteralValue.tidy_text fun s hs => h.string value s rfl hs
    rw [LiteralValue.text, String.toList_join] at htext
    have hvalue : TextState.scan ⟨true, 0⟩ _ = some ⟨false, 0⟩ := htext
    simp [Expr.layout, hvalue]
  | compound parts => exact fits_objectName parts
  | unary op operand => cases hop : op.val.isKeyword <;> simp [Expr.layout, hop]
  | isNull operand negated nullEnd => cases negated <;> simp [Expr.layout]
  | function name distinct args closeEnd window =>
    -- `DISTINCT` leaves its blank in front of the closing parenthesis, if there is no argument.
    cases distinct <;> cases args <;> cases window <;> simp [Expr.layout]
  | caseWhen span operand branches otherwise =>
    have hbranches : scan ⟨true, 0⟩ (branches.toList.flatMap fun branch : Expr × Expr =>
        [.word "WHEN ", .child (.expr branch.1), .word " THEN ", .child (.expr branch.2),
          .word " "]) = some ⟨true, 0⟩ := scan_flatMap _ (by simp)
    cases operand <;> cases otherwise <;> simp [Expr.layout, hbranches]
  | existsQuery notStart existsStart query closeEnd => cases notStart <;> simp [Expr.layout]
  | _ => simp [Expr.layout]

theorem fits_windowSpec (w : WindowSpec) : Fits w.layout := by
  obtain ⟨span, partitionBy, orderBy, frame⟩ := w
  cases partitionBy <;> cases orderBy <;> cases frame <;> simp [WindowSpec.layout]

theorem fits_windowFrame (f : WindowFrame) : Fits f.layout := by
  obtain ⟨units, unitsStart, lower, upper⟩ := f
  cases upper <;> simp [WindowFrame.layout]

theorem fits_sortKey (k : SortKey) : Fits k.layout := by
  obtain ⟨expr, direction⟩ := k
  cases direction <;> simp [SortKey.layout]

theorem fits_query (q : Query) : Fits q.layout := by
  obtain ⟨withClause, body, orderBy, limit⟩ := q
  cases withClause <;> cases limit <;> simp [Query.layout]

theorem fits_setExpr (s : SetExpr) : Fits s.layout := by
  cases s with
  | select body =>
    obtain ⟨selectStart, distinct, projection, tables, selection, groupBy, having⟩ := body
    cases selection <;> cases having <;> simp [SetExpr.layout]
  | _ => simp [SetExpr.layout]

theorem fits_selectItem (i : SelectItem) : Fits i.layout := by
  cases i <;> simp [SelectItem.layout]

theorem fits_limit (l : Limit) : Fits l.layout := by
  obtain ⟨limitStart, value, offset⟩ := l
  cases value <;> cases offset <;> simp [Limit.layout]

theorem fits_tableReference (t : TableReference) : Fits t.layout := by
  cases t with
  | table name args aliasName hints =>
    cases args <;> cases aliasName <;> cases hints <;>
      simp [TableReference.layout, aliasLayout]
  | derived lateralStart openStart query closeEnd aliasName =>
    cases lateralStart <;> cases aliasName <;> simp [TableReference.layout, aliasLayout]
  | _ => simp [TableReference.layout]

theorem fits_joinSpec (s : JoinSpec) : Fits s.layout := by
  cases s <;> simp [JoinSpec.layout]

theorem fits_insertSource (s : InsertSource) : Fits s.layout := by
  cases s <;> simp [InsertSource.layout]

theorem scan_constraintName (name : Option ConstraintName) :
    scan ⟨true, 0⟩ (ConstraintName.layout? name) = some ⟨true, 0⟩ := by
  cases name <;> simp [ConstraintName.layout?]

theorem fits_tableElement (e : TableElement) : Fits e.layout := by
  cases e with
  | column c =>
    obtain ⟨name, type, default, constraints⟩ := c
    have hconstraints : scan ⟨false, 0⟩ (constraints.flatMap fun constraint =>
        [.word " ", .child (.columnConstraint constraint)]) = some ⟨false, 0⟩ :=
      scan_flatMap _ (by simp)
    cases default <;> simp [TableElement.layout, hconstraints]
  | constraint c => simp [TableElement.layout, scan_constraintName]

theorem fits_columnRule (r : ColumnRule) : Fits r.layout := by
  cases r with
  | unique primaryKey span => cases primaryKey <;> simp [ColumnRule.layout]
  | references key =>
    obtain ⟨referencesStart, table, columns⟩ := key
    cases columns <;> simp [ColumnRule.layout, ReferenceKey.layout]
  | _ => simp [ColumnRule.layout]

theorem fits_tableRule (r : TableRule) : Fits r.layout := by
  cases r with
  | unique primaryKey keywordStart columns => cases primaryKey <;> simp [TableRule.layout]
  | _ => simp [TableRule.layout]

theorem fits_columnChange (c : ColumnChange) : Fits c.layout := by
  cases c <;> simp [ColumnChange.layout]

theorem scan_cascade (cascadeEnd : Option Position) :
    scan ⟨false, 0⟩ (cascadeLayout cascadeEnd) = some ⟨false, 0⟩ := by
  cases cascadeEnd <;> simp [cascadeLayout]

theorem scan_selection (selection : Option Expr) :
    scan ⟨false, 0⟩ (selectionLayout selection) = some ⟨false, 0⟩ := by
  cases selection <;> simp [selectionLayout]

theorem fits_tableChange (c : TableChange) : Fits c.layout := by
  cases c <;> simp [TableChange.layout, scan_cascade]

theorem fits_statement (s : Statement) : Fits s.layout := by
  cases s with
  | query q => exact fits_query q
  | insert s =>
    obtain ⟨_, _, columns, _, _⟩ := s
    cases columns <;> simp [Statement.layout]
  | createTable s =>
    obtain ⟨_, _, _, _, _, external⟩ := s
    cases external <;> simp [Statement.layout]
  | createIndex s =>
    obtain ⟨_, _, name, _, method, _, _⟩ := s
    cases name <;> cases method <;> simp [Statement.layout, scan_selection]
  | _ => simp [Statement.layout, scan_selection, scan_cascade]

theorem fits_script (s : Script) : Fits s.layout := by
  have htail : scan ⟨false, 0⟩ (s.statements.tail.flatMap fun statement =>
      [.word "\n", .child (.statement statement), .word ";"]) = some ⟨false, 0⟩ :=
    scan_flatMap _ (by simp)
  simp [Script.layout, htail]

namespace Node

/-- Every layout is read from front to end, whatever the children are, and none of them is a
comment. -/
theorem fits_layout {n : Node} (h : n.Clean) (hn : n.isComment = false) : Fits n.layout := by
  cases n with
  | expr e => exact fits_expr h
  | objectName name => exact fits_objectName name
  | dataType t => exact fits_dataType t
  | windowSpec w => exact fits_windowSpec w
  | windowFrame f => exact fits_windowFrame f
  | statement s => exact fits_statement s
  | setExpr s => exact fits_setExpr s
  | selectItem i => exact fits_selectItem i
  | sortKey k => exact fits_sortKey k
  | limit l => exact fits_limit l
  | tableReference t => exact fits_tableReference t
  | joinSpec s => exact fits_joinSpec s
  | insertSource s => exact fits_insertSource s
  | tableElement e => exact fits_tableElement e
  | columnConstraint c => simp [layout, ColumnConstraint.layout, scan_constraintName]
  | columnRule r => exact fits_columnRule r
  | tableRule r => exact fits_tableRule r
  | tableChange c => exact fits_tableChange c
  | columnChange c => exact fits_columnChange c
  | script s => exact fits_script s
  | comment c => cases hn
  | commentGroup g => cases hn
  | _ => simp [layout, With.layout, Cte.layout, Assignment.layout, Row.layout]

theorem isComment_eq_false {n : Node} (hc : n.kind ≠ .comment) (hg : n.kind ≠ .commentGroup) :
    n.isComment = false := by
  cases n with
  | comment c => exact absurd rfl hc
  | commentGroup g => exact absurd rfl hg
  | _ => rfl

end Node

/-! ## Trees -/

namespace NodeRef

/-- Names in a tree are not empty, and neither its names nor its strings have blanks or
parentheses. -/
def Clean (r : NodeRef) : Prop :=
  ∀ m ∈ r.preorder, m.node.Clean

theorem Clean.child {c r : NodeRef} (h : r.Clean) (hc : c ∈ r.children) : c.Clean :=
  fun m hm => h m (preorder_subset_of_mem_children hc hm)

theorem Clean.tidy_toSql {r : NodeRef} (h : r.Clean) (hr : r.node.isComment = false) :
    Tidy r.node.toSql.toList := by
  induction r using NodeRef.induction with
  | step r ih =>
    have hfits := Node.fits_layout (h r r.mem_preorder_self) hr
    rw [Tidy, Node.toList_toSql]
    refine scan_chars hfits fun c hc hcomment => ?_
    rw [childNodes_layout, ← map_node_children, List.mem_map] at hc
    obtain ⟨s, hs, rfl⟩ := hc
    exact ih s hs (h.child hs) hcomment

/-- The text of every node but a comment is in good form, whatever parts the node has, if no name in
it is empty and no name or string brings in blanks or parentheses of its own. -/
theorem wellFormed_toSql {r : NodeRef} (hc : r.kind ≠ .comment) (hg : r.kind ≠ .commentGroup)
    (h : r.Clean) : WellFormed r.node.toSql.toList :=
  (h.tidy_toSql (Node.isComment_eq_false hc hg)).wellFormed

end NodeRef

/-- A function of no arguments, although distinct ones are asked for, over all rows. -/
def Expr.countOverAll : Expr :=
  .function ⟨⟨"count", ⟨⟨1, 1⟩, ⟨1, 6⟩⟩⟩, []⟩ true [] ⟨1, 17⟩
    (some ⟨⟨⟨1, 18⟩, ⟨1, 25⟩⟩, [], [], none⟩)

theorem NodeRef.wellFormed_countOverAll :
    (NodeRef.root 0 (.expr .countOverAll)).kind ≠ .comment ∧
      (NodeRef.root 0 (.expr .countOverAll)).kind ≠ .commentGroup ∧
      (NodeRef.root 0 (.expr .countOverAll)).Clean ∧
      (Node.expr .countOverAll).toSql = "count(DISTINCT ) OVER ()" ∧
      WellFormed (Node.expr .countOverAll).toSql.toList := by
  have hclean : (NodeRef.root 0 (.expr .countOverAll)).Clean := by
    intro m hm
    simp only [root, preorder_eq, children, Node.children, Node.ident, Expr.countOverAll,
      Expr.children, WindowSpec.children, NonEmptyList.toList_mk, Option.toList_some,
      Option.toList_none, List.map_nil, List.map_cons, List.nil_append, List.append_nil,
      List.cons_append, List.mapIdx_cons, List.mapIdx_nil, List.flatMap_cons, List.flatMap_nil,
      List.mem_cons, List.not_mem_nil, or_false] at hm
    rcases hm with rfl | rfl | rfl | rfl
    all_goals constructor <;> simp [Unspaced]
  exact ⟨by decide, by decide, hclean, by decide +kernel,
    wellFormed_toSql (r := NodeRef.root 0 (.expr .countOverAll)) (by decide) (by decide) hclean⟩

end SqlScript
