import SqlScript.Proofs.Tree.Dashes

/-!
# Words between children

Between two children of a node stands a word, so that the text of the one does not run into that of
the other. The words that are written for the node itself have no dash in them. Both hold of every
node, but for literals and operators, which may be written with a dash, and unary expressions, in
which an operator that is a symbol touches its operand.

* `Layout.Parted`: no word has a dash, and no two children touch;
* `Layout.opensComment_chars_of_parted`: such a layout opens a comment only if a child does;
* `Node.parted_layout`: the nodes that are laid out in this way.
-/

namespace SqlScript

/-! ## Layouts -/

namespace Layout

/-- No word of a layout has a dash, and between each two children stands a word. The flag tells
whether a child stands right in front of the layout. -/
def Parted : Bool → List Piece → Prop
  | _, [] => True
  | touching, .word text :: ps => '-' ∉ text.toList ∧ Parted (touching && decide (text = "")) ps
  | touching, .mark _ :: ps => Parted touching ps
  | touching, .child _ :: ps => touching = false ∧ Parted true ps

/-- Whether a child stands right in front of what follows a layout. -/
def touches : Bool → List Piece → Bool
  | touching, [] => touching
  | touching, .word text :: ps => touches (touching && decide (text = "")) ps
  | touching, .mark _ :: ps => touches touching ps
  | _, .child _ :: ps => touches true ps

variable {b : Bool}

@[simp] theorem parted_nil : Parted b [] := trivial

@[simp] theorem parted_word {text : String} {ps : List Piece} :
    Parted b (.word text :: ps) ↔ '-' ∉ text.toList ∧ Parted (b && decide (text = "")) ps := .rfl

@[simp] theorem parted_mark {p : Position} {ps : List Piece} :
    Parted b (.mark p :: ps) ↔ Parted b ps := .rfl

@[simp] theorem parted_child {n : Node} {ps : List Piece} :
    Parted b (.child n :: ps) ↔ b = false ∧ Parted true ps := .rfl

@[simp] theorem touches_nil : touches b [] = b := rfl

@[simp] theorem touches_word (text : String) (ps : List Piece) :
    touches b (.word text :: ps) = touches (b && decide (text = "")) ps := rfl

@[simp] theorem touches_mark (p : Position) (ps : List Piece) :
    touches b (.mark p :: ps) = touches b ps := rfl

@[simp] theorem touches_child (n : Node) (ps : List Piece) :
    touches b (.child n :: ps) = touches true ps := rfl

@[simp] theorem parted_append {ps qs : List Piece} :
    Parted b (ps ++ qs) ↔ Parted b ps ∧ Parted (touches b ps) qs := by
  induction ps generalizing b with
  | nil => simp
  | cons p ps ih => cases p <;> simp [ih, and_assoc]

@[simp] theorem touches_append (ps qs : List Piece) :
    touches b (ps ++ qs) = touches (touches b ps) qs := by
  induction ps generalizing b with
  | nil => rfl
  | cons p ps ih => cases p <;> simp [ih]

@[simp] theorem parted_words {texts : List String} :
    Parted b (texts.map .word) ↔ ∀ t ∈ texts, '-' ∉ t.toList := by
  induction texts generalizing b with
  | nil => simp
  | cons t ts ih => simp [ih]

@[simp] theorem parted_wordIf {c : Bool} {text : String} :
    Parted b (wordIf c text) ↔ c = true → '-' ∉ text.toList := by
  cases c <;> simp [wordIf]

@[simp] theorem touches_wordIf (c : Bool) (text : String) :
    touches b (wordIf c text) = (b && (!c || decide (text = ""))) := by
  cases c <;> simp [wordIf]

@[simp] theorem parted_separated {separator : String} {ns : List Node} :
    Parted b (separated separator ns) ↔ (ns ≠ [] → b = false) ∧
      (1 < ns.length → separator ≠ "" ∧ '-' ∉ separator.toList) := by
  unfold separated
  induction ns generalizing b with
  | nil => simp
  | cons n ns ih =>
    cases ns with
    | nil => simp
    | cons m ns =>
      have hcons : ((n :: m :: ns).map Piece.child).intersperse (.word separator) =
          .child n :: .word separator :: ((m :: ns).map Piece.child).intersperse (.word separator) :=
        rfl
      rw [hcons, parted_child, parted_word, ih]
      simp only [ne_eq, reduceCtorEq, not_false_eq_true, forall_const, Bool.true_and,
        decide_eq_false_iff_not, List.length_cons]
      constructor
      · rintro ⟨hb, hdash, hempty, -⟩
        exact ⟨hb, fun _ => ⟨hempty, hdash⟩⟩
      · rintro ⟨hb, h⟩
        obtain ⟨hempty, hdash⟩ := h (by omega)
        exact ⟨hb, hdash, hempty, fun _ => ⟨hempty, hdash⟩⟩

@[simp] theorem touches_separated (separator : String) (ns : List Node) :
    touches b (separated separator ns) = (b || !ns.isEmpty) := by
  unfold separated
  induction ns generalizing b with
  | nil => simp
  | cons n ns ih =>
    cases ns with
    | nil => simp
    | cons m ns => simpa [List.intersperse] using ih

@[simp] theorem parted_parenthesized (ns : List Node) : Parted b (parenthesized ns) := by
  simp [parenthesized]

@[simp] theorem parted_clause {keyword : String} {ns : List Node} :
    Parted b (clause keyword ns) ↔
      (ns ≠ [] → '-' ∉ keyword.toList ∧ (b = true → keyword ≠ "")) := by
  unfold clause
  cases ns <;> simp

@[simp] theorem touches_clause (keyword : String) (ns : List Node) :
    touches b (clause keyword ns) = (b || !ns.isEmpty) := by
  unfold clause
  cases ns <;> simp

@[simp] theorem parted_token {text : String} {span : Span} :
    Parted b (token text span) ↔ '-' ∉ text.toList := by
  simp [token]

@[simp] theorem parted_enclosed {span : Span} {ps : List Piece} :
    Parted b (enclosed span ps) ↔ Parted b ps := by
  simp [enclosed]

/-- An optional part that starts with a word can stand anywhere. -/
theorem parted_whenSome {layout : α → List Piece} (o : Option α) (h : ∀ x, Parted b (layout x)) :
    Parted b (whenSome o layout) := by
  cases o with
  | none => trivial
  | some x => exact h x

/-- So can a list of parts that start with a word each. -/
theorem parted_flatMap {layout : α → List Piece} (l : List α) (h : ∀ b x, Parted b (layout x)) :
    Parted b (l.flatMap layout) := by
  induction l generalizing b with
  | nil => trivial
  | cons x l ih =>
    rw [List.flatMap_cons, parted_append]
    exact ⟨h b x, ih⟩

/-- Behind a child that does not touch what follows, no dash comes first. -/
theorem head?_chars_of_parted {ps : List Piece} (h : Parted true ps) :
    (chars ps).head? ≠ some '-' := by
  induction ps with
  | nil => simp
  | cons p ps ih =>
    cases p with
    | word text =>
      obtain ⟨hdash, hrest⟩ := h
      by_cases hempty : text = ""
      · subst hempty
        exact ih hrest
      · rw [chars_word, List.head?_append_of_ne_nil _ (by simpa using hempty)]
        exact head?_ne_dash hdash
    | mark p => exact ih h
    | child n => cases h.1

/-- Where no word has a dash, only a child can have one. -/
theorem dash_not_mem_chars_of_parted {ps : List Piece} (h : Parted b ps)
    (hc : ∀ c ∈ childNodes ps, '-' ∉ c.toSql.toList) : '-' ∉ chars ps := by
  induction ps generalizing b with
  | nil => simp
  | cons p ps ih =>
    cases p with
    | word text =>
      rw [chars_word, List.mem_append, not_or]
      exact ⟨h.1, ih h.2 hc⟩
    | mark p => exact ih h hc
    | child n =>
      rw [chars_child, List.mem_append, not_or]
      rw [childNodes_child, List.forall_mem_cons] at hc
      exact ⟨hc.1, ih h.2 hc.2⟩

/-- If its children are kept apart, a layout opens no comment that no child opens. -/
theorem opensComment_chars_of_parted {ps : List Piece} (h : Parted b ps) :
    OpensComment (chars ps) ↔ ∃ c ∈ childNodes ps, OpensComment c.toSql.toList := by
  induction ps generalizing b with
  | nil => simp [not_opensComment_of_not_mem]
  | cons p ps ih =>
    cases p with
    | word text => rw [chars_word, opensComment_append_of_not_mem h.1, ih h.2, childNodes_word]
    | mark p => rw [chars_mark, ih h, childNodes_mark]
    | child n =>
      have hhead := head?_chars_of_parted h.2
      rw [chars_child, opensComment_append, ih h.2, childNodes_child, List.exists_mem_cons_iff]
      simp [hhead]

end Layout

open Layout

/-! ## Nodes -/

/-- Whether there may be a dash in what a node writes itself, beside names, strings and comments. -/
def Node.mayWriteDash : Node → Bool
  | expr (.literal _) => true
  | expr (.unary _ _) => true
  | operator _ => true
  | _ => false

theorem parted_columnList {b : Bool} (l : ColumnList) : Parted b l.layout := by
  simp [ColumnList.layout]

theorem parted_objectName (name : ObjectName) : Parted false (ObjectName.layout name) := by
  simp [ObjectName.layout]

theorem parted_dataType (t : DataType) : Parted false t.layout := by
  cases t with
  | builtin type span => simpa [DataType.layout] using type.dash_not_mem_fragments
  | _ => simp [DataType.layout]

theorem parted_expr {e : Expr} (hplain : ∀ name, e = .ident name → '-' ∉ name.val.toList)
    (hdash : (Node.expr e).mayWriteDash = false) : Parted false e.layout := by
  cases e with
  | literal value => cases hdash
  | unary op operand => cases hdash
  | ident name => simpa [Expr.layout] using hplain name rfl
  | compound parts => exact parted_objectName parts
  | isNull operand negated nullEnd => cases negated <;> simp [Expr.layout]
  | function name distinct args closeEnd window =>
    cases window <;> simp [Expr.layout, whenSome]
  | caseWhen span operand branches otherwise =>
    have hbranches : ∀ b : Bool, Parted b (branches.toList.flatMap fun branch : Expr × Expr =>
        [.word "WHEN ", .child (.expr branch.1), .word " THEN ", .child (.expr branch.2),
          .word " "]) := fun b => parted_flatMap _ (by simp)
    cases operand <;> cases otherwise <;> simp [Expr.layout, whenSome, hbranches]
  | existsQuery notStart existsStart query closeEnd =>
    cases notStart <;> simp [Expr.layout, whenSome]
  | _ => simp [Expr.layout]

theorem parted_windowSpec (w : WindowSpec) : Parted false w.layout := by
  obtain ⟨span, partitionBy, orderBy, frame⟩ := w
  -- Which blanks are written hangs on which of the parts are there.
  cases partitionBy <;> cases orderBy <;> cases frame <;> simp [WindowSpec.layout, whenSome]

theorem parted_windowFrame (f : WindowFrame) : Parted false f.layout := by
  obtain ⟨units, unitsStart, lower, upper⟩ := f
  cases upper <;> simp [WindowFrame.layout]

theorem parted_sortKey (k : SortKey) : Parted false k.layout := by
  obtain ⟨expr, direction⟩ := k
  cases direction <;> simp [SortKey.layout, whenSome]

theorem parted_query (q : Query) : Parted false q.layout := by
  obtain ⟨withClause, body, orderBy, limit⟩ := q
  cases withClause <;> cases limit <;> simp [Query.layout, whenSome]

theorem parted_setExpr (s : SetExpr) : Parted false s.layout := by
  cases s with
  | select body =>
    obtain ⟨selectStart, distinct, projection, tables, selection, groupBy, having⟩ := body
    cases selection <;> cases having <;> simp [SetExpr.layout, whenSome]
  | _ => simp [SetExpr.layout]

theorem parted_selectItem (i : SelectItem) : Parted false i.layout := by
  cases i <;> simp [SelectItem.layout]

theorem parted_limit (l : Limit) : Parted false l.layout := by
  obtain ⟨limitStart, value, offset⟩ := l
  cases value <;> cases offset <;> simp [Limit.layout, whenSome]

theorem parted_alias {b : Bool} (aliasName : Option Ident) : Parted b (aliasLayout aliasName) :=
  parted_whenSome aliasName (by simp)

theorem parted_tableReference (t : TableReference) : Parted false t.layout := by
  cases t with
  | table name args aliasName hints =>
    cases args <;> cases hints <;> simp [TableReference.layout, whenSome, parted_alias]
  | derived lateralStart openStart query closeEnd aliasName =>
    cases lateralStart <;> simp [TableReference.layout, whenSome, parted_alias]
  | _ => simp [TableReference.layout, parted_columnList]

theorem parted_joinSpec (s : JoinSpec) : Parted false s.layout := by
  cases s <;> simp [JoinSpec.layout, parted_columnList]

theorem parted_insertSource (s : InsertSource) : Parted false s.layout := by
  cases s <;> simp [InsertSource.layout]

theorem parted_selection {b : Bool} (selection : Option Expr) :
    Parted b (selectionLayout selection) :=
  parted_whenSome selection (by simp)

theorem parted_cascade {b : Bool} (cascadeEnd : Option Position) :
    Parted b (cascadeLayout cascadeEnd) :=
  parted_whenSome cascadeEnd (by simp)

theorem parted_constraint (name : Option ConstraintName) (rule : Node) :
    Parted false (ConstraintName.layout? name ++ [.child rule]) := by
  cases name <;> simp [ConstraintName.layout?, whenSome]

theorem parted_tableElement (e : TableElement) : Parted false e.layout := by
  cases e with
  | column c =>
    obtain ⟨name, type, default, constraints⟩ := c
    have hconstraints : ∀ b : Bool, Parted b (constraints.flatMap fun constraint =>
        [.word " ", .child (.columnConstraint constraint)]) := fun b => parted_flatMap _ (by simp)
    cases default <;> simp [TableElement.layout, whenSome, hconstraints]
  | constraint c => exact parted_constraint c.name (.tableRule c.rule)

theorem parted_columnRule (r : ColumnRule) : Parted false r.layout := by
  cases r with
  | unique primaryKey span => cases primaryKey <;> simp [ColumnRule.layout]
  | references key =>
    obtain ⟨referencesStart, table, columns⟩ := key
    cases columns <;> simp [ColumnRule.layout, ReferenceKey.layout, whenSome, parted_columnList]
  | _ => simp [ColumnRule.layout]

theorem parted_tableRule (r : TableRule) : Parted false r.layout := by
  cases r with
  | unique primaryKey keywordStart columns =>
    cases primaryKey <;> simp [TableRule.layout, parted_columnList]
  | _ => simp [TableRule.layout, parted_columnList]

theorem parted_columnChange (c : ColumnChange) : Parted false c.layout := by
  cases c <;> simp [ColumnChange.layout]

theorem parted_tableChange (c : TableChange) : Parted false c.layout := by
  cases c <;> simp [TableChange.layout, parted_cascade]

theorem parted_statement (s : Statement) : Parted false s.layout := by
  cases s with
  | query q => exact parted_query q
  | insert s =>
    obtain ⟨_, _, columns, _, _⟩ := s
    cases columns <;> simp [Statement.layout]
  | createTable s =>
    obtain ⟨_, _, _, _, _, external⟩ := s
    cases external <;> simp [Statement.layout, whenSome]
  | createIndex s =>
    obtain ⟨_, _, name, _, method, _, _⟩ := s
    cases name <;> cases method <;>
      simp [Statement.layout, whenSome, parted_columnList, parted_selection]
  | _ => simp [Statement.layout, parted_selection, parted_cascade]

theorem parted_script (s : Script) : Parted false s.layout := by
  have htail : ∀ b : Bool, Parted b (s.statements.tail.flatMap fun statement =>
      [.word "\n", .child (.statement statement), .word ";"]) := fun b => parted_flatMap _ (by simp)
  simp [Script.layout, htail]

/-! ## All nodes -/

namespace Node

/-- The text in a node that is free: a name, a string or a comment. -/
def spelling? : Node → Option String
  | expr (.ident name) => some name.val
  | expr (.literal value) => value.val.spelling?
  | comment c => some c.val
  | _ => none

/-- The children of a node are kept apart, and no dash is written between them. -/
theorem parted_layout {n : Node} (h : ∀ text, n.spelling? = some text → '-' ∉ text.toList)
    (hdash : n.mayWriteDash = false) : Parted false n.layout := by
  cases n with
  | expr e => exact parted_expr (fun name he => h name.val (he ▸ rfl)) hdash
  | objectName name => exact parted_objectName name
  | operator op => cases hdash
  | dataType t => exact parted_dataType t
  | windowSpec w => exact parted_windowSpec w
  | windowFrame f => exact parted_windowFrame f
  | statement s => exact parted_statement s
  | setExpr s => exact parted_setExpr s
  | selectItem i => exact parted_selectItem i
  | sortKey k => exact parted_sortKey k
  | limit l => exact parted_limit l
  | tableReference t => exact parted_tableReference t
  | joinSpec s => exact parted_joinSpec s
  | insertSource s => exact parted_insertSource s
  | tableElement e => exact parted_tableElement e
  | columnConstraint c => exact parted_constraint c.name (.columnRule c.rule)
  | columnRule r => exact parted_columnRule r
  | tableRule r => exact parted_tableRule r
  | tableChange c => exact parted_tableChange c
  | columnChange c => exact parted_columnChange c
  | script s => exact parted_script s
  | comment c => simpa [layout] using h c.val rfl
  | _ => simp [layout, With.layout, Cte.layout, Assignment.layout, Row.layout]

end Node

end SqlScript
