import SqlScript.Proofs.Node.Extent
import SqlScript.Proofs.Node.Skeleton

/-!
# Every recorded position is in a node's extent

A node records positions of its own, and so does every node below it. The layout puts each of them
in its place, and leaves out none:

* `Node.marks_layout`: the positions in a skeleton are those that the node records itself, in the
  order of its fields;
* `Node.positions_perm`: all positions of a node are its own and those of its children;
* `Node.extent_exact`: the first of them is where the node starts, the last is where it stops.
-/

namespace SqlScript

/-! ## Positions of skeletons and of data -/

namespace Slot

/-- The positions in a skeleton. -/
def marks (ss : List Slot) : List Position :=
  ss.filterMap fun
    | .mark p => some p
    | _ => none

@[simp] theorem marks_nil : marks [] = [] := rfl

@[simp] theorem marks_word (text : String) (ss : List Slot) :
    marks (.word text :: ss) = marks ss := rfl

@[simp] theorem marks_mark (p : Position) (ss : List Slot) :
    marks (.mark p :: ss) = p :: marks ss := rfl

@[simp] theorem marks_child (ss : List Slot) : marks (.child :: ss) = marks ss := rfl

@[simp] theorem marks_append (ss ts : List Slot) : marks (ss ++ ts) = marks ss ++ marks ts := by
  simp [marks]

@[simp] theorem marks_ite {c : Prop} [Decidable c] (ss ts : List Slot) :
    marks (if c then ss else ts) = if c then marks ss else marks ts := by
  split <;> rfl

@[simp] theorem marks_words (texts : List String) : marks (texts.map .word) = [] := by
  induction texts with
  | nil => rfl
  | cons t ts ih => simp [ih]

@[simp] theorem marks_places (separator : String) (k : Nat) :
    marks (Layout.places separator k) = [] := by
  unfold Layout.places
  induction k with
  | zero => rfl
  | succ k ih =>
    cases k with
    | zero => rfl
    | succ k => simpa [List.replicate_succ, List.intersperse] using ih

@[simp] theorem marks_flatten_replicate (k : Nat) (ss : List Slot) :
    marks (List.replicate k ss).flatten = (List.replicate k (marks ss)).flatten := by
  induction k with
  | zero => rfl
  | succ k ih => simp [List.replicate_succ, ih]

end Slot

namespace Attribute

/-- The position that a datum is, if it is one. -/
def position? : Attribute → Option Position
  | position p => some p
  | _ => none

@[simp] theorem position?_position (p : Position) : (position p).position? = some p := rfl

@[simp] theorem position?_of_ne {a : Attribute} (h : ∀ p, a ≠ position p) :
    a.position? = none := by
  cases a with
  | position p => exact absurd rfl (h p)
  | _ => rfl

@[simp] theorem position?_ofList (l : List α) : (ofList l).position? = none := rfl

@[simp] theorem position?_ofOption (o : Option α) : (ofOption o).position? = none := rfl

/-- The positions among the data of a node. -/
def positions (as : List Attribute) : List Position :=
  as.filterMap position?

@[simp] theorem positions_nil : positions [] = [] := rfl

@[simp] theorem positions_cons (a : Attribute) (as : List Attribute) :
    positions (a :: as) = a.position?.toList ++ positions as := by
  cases h : a.position? <;> simp [positions, h]

@[simp] theorem positions_append (as bs : List Attribute) :
    positions (as ++ bs) = positions as ++ positions bs := by
  simp [positions]

@[simp] theorem positions_ofSpan (span : Span) :
    positions (ofSpan span) = [span.start, span.stop] := rfl

@[simp] theorem positions_ofPosition? (o : Option Position) :
    positions (ofPosition? o) = o.toList := by
  cases o <;> rfl

end Attribute

open Layout Slot Attribute

/-! ## What nodes record themselves -/

theorem marks_windowFrame (f : WindowFrame) :
    marks (slots id f.layout) = positions f.attributes := by
  obtain ⟨_, _, _, upper⟩ := f
  cases upper <;> simp [WindowFrame.layout, WindowFrame.attributes]

theorem marks_sortKey (k : SortKey) : marks (slots id k.layout) = positions k.attributes := by
  obtain ⟨_, direction⟩ := k
  cases direction <;> simp [SortKey.layout, SortKey.attributes]

theorem marks_limit (l : Limit) : marks (slots id l.layout) = positions l.attributes := by
  obtain ⟨_, value, _⟩ := l
  cases value <;> simp [Limit.layout, Limit.attributes, slots_whenSome]

theorem marks_tableReference (t : TableReference) :
    marks (slots id t.layout) = positions t.attributes := by
  cases t with
  | table name args aliasName hints =>
    cases args <;> cases hints <;>
      simp [TableReference.layout, TableReference.attributes, TableArgs.attributes?,
        TableHints.attributes?, aliasLayout, slots_whenSome]
  | derived lateralStart openStart query closeEnd aliasName =>
    cases lateralStart <;>
      simp [TableReference.layout, TableReference.attributes, aliasLayout, slots_whenSome]
  | _ =>
    simp [TableReference.layout, TableReference.attributes, ColumnList.layout,
      ColumnList.attributes]

theorem marks_constraintName (name : Option ConstraintName) :
    marks (slots id (ConstraintName.layout? name)) =
      positions (ConstraintName.attributes? name) := by
  cases name <;> simp [ConstraintName.layout?, ConstraintName.attributes?]

theorem marks_tableElement (e : TableElement) :
    marks (slots id e.layout) = positions e.attributes := by
  cases e with
  | column c => simp [TableElement.layout, TableElement.attributes, slots_whenSome, slots_flatMap]
  | constraint c => simp [TableElement.layout, TableElement.attributes, marks_constraintName]

theorem marks_columnRule (r : ColumnRule) :
    marks (slots id r.layout) = positions r.attributes := by
  cases r with
  | references key =>
    obtain ⟨_, _, columns⟩ := key
    cases columns <;>
      simp [ColumnRule.layout, ReferenceKey.layout, ColumnRule.attributes, ColumnList.layout,
        ColumnList.attributes]
  | _ => simp [ColumnRule.layout, ColumnRule.attributes]

theorem marks_cascade (p : Option Position) :
    marks (slots id (cascadeLayout p)) = p.toList := by
  cases p <;> simp [cascadeLayout]

theorem marks_statement (s : Statement) : marks (slots id s.layout) = positions s.attributes := by
  cases s with
  | createTable s =>
    obtain ⟨_, _, _, _, _, external⟩ := s
    cases external <;> simp [Statement.layout, Statement.attributes]
  | _ =>
    simp [Statement.layout, Statement.attributes, Query.layout, Query.attributes,
      ColumnList.layout, ColumnList.attributes, selectionLayout, slots_whenSome, marks_cascade]

theorem marks_script (s : Script) : marks (slots id s.layout) = [] := by
  simp [Script.layout, slots_flatMap]

namespace Node

/-- The positions that a node records for tokens of its own. They are the positions that it holds,
but for wildcards and for types that are written by way of another part: a star also records where
it stops, one column on, and such a type at most where its closing bracket stops. -/
def ownPositions : Node → List Position
  | expr (.wildcard star) => [star, star.advance 1]
  | selectItem (.wildcard star) => [star, star.advance 1]
  | dataType (.array _ span) => [span.stop]
  | dataType (.custom _ _) => []
  | n => Attribute.positions n.attributes

/-- A node's skeleton has the positions that the node records itself. -/
theorem marks_layout (n : Node) : marks (slots id n.layout) = n.ownPositions := by
  cases n with
  | expr e =>
    cases e with
    | existsQuery notStart existsStart query closeEnd =>
      cases notStart <;> simp [layout, Expr.layout, ownPositions, attributes, Expr.attributes]
    | _ =>
      simp [layout, Expr.layout, ownPositions, attributes, Expr.attributes, slots_whenSome,
        slots_flatMap]
  | dataType t =>
    cases t <;> simp [layout, DataType.layout, ownPositions, attributes, DataType.attributes]
  | windowSpec w =>
    simp [layout, WindowSpec.layout, ownPositions, attributes, WindowSpec.attributes,
      slots_whenSome]
  | windowFrame f => exact marks_windowFrame f
  | statement s => exact marks_statement s
  | setExpr s =>
    cases s <;>
      simp [layout, SetExpr.layout, ownPositions, attributes, SetExpr.attributes, slots_whenSome]
  | selectItem i =>
    cases i <;> simp [layout, SelectItem.layout, ownPositions, attributes, SelectItem.attributes]
  | sortKey k => exact marks_sortKey k
  | limit l => exact marks_limit l
  | tableReference t => exact marks_tableReference t
  | joinSpec s =>
    cases s <;>
      simp [layout, JoinSpec.layout, ownPositions, attributes, JoinSpec.attributes,
        ColumnList.layout, ColumnList.attributes]
  | insertSource s =>
    cases s <;> simp [layout, InsertSource.layout, ownPositions, attributes,
      InsertSource.attributes]
  | tableElement e => exact marks_tableElement e
  | columnConstraint c =>
    simp [layout, ColumnConstraint.layout, ownPositions, attributes, marks_constraintName]
  | columnRule r => exact marks_columnRule r
  | tableRule r =>
    cases r <;>
      simp [layout, TableRule.layout, ownPositions, attributes, TableRule.attributes,
        ColumnList.layout, ColumnList.attributes]
  | tableChange c =>
    cases c <;>
      simp [layout, TableChange.layout, ownPositions, attributes, TableChange.attributes,
        marks_cascade]
  | columnChange c =>
    cases c <;>
      simp [layout, ColumnChange.layout, ownPositions, attributes, ColumnChange.attributes]
  | script s => simp [layout, ownPositions, attributes, marks_script]
  | _ =>
    simp [layout, ownPositions, attributes, ObjectName.layout, With.layout, Cte.layout,
      Assignment.layout, Row.layout]

/-! ## All positions of a node -/

/-- The positions of a layout are its own and those of its children. -/
theorem flatMap_positions_perm (pieces : List Piece) :
    (pieces.flatMap Piece.positions).Perm
      (marks (slots id pieces) ++ (childNodes pieces).flatMap positions) := by
  induction pieces with
  | nil => exact .refl _
  | cons piece pieces ih =>
    cases piece with
    | word text => exact ih
    | mark p => exact ih.cons p
    | child c =>
      have hswap : (c.positions ++ pieces.flatMap Piece.positions).Perm
          (c.positions ++ (marks (slots id pieces) ++ (childNodes pieces).flatMap positions)) :=
        ih.append_left c.positions
      refine hswap.trans ?_
      simp only [slots_child, marks_child, childNodes_child, List.flatMap_cons,
        ← List.append_assoc]
      exact List.perm_append_comm.append_right _

/-- The positions of a node are its own and those of its children. -/
theorem positions_perm (n : Node) :
    n.positions.Perm (n.ownPositions ++ n.children.flatMap positions) := by
  rw [positions_eq, ← marks_layout, ← childNodes_layout]
  exact flatMap_positions_perm n.layout

theorem isScript_eq_false {n : Node} (h : n.kind ≠ .script) : n.isScript = false := by
  cases n with
  | script s => exact absurd rfl h
  | _ => rfl

/-- Every node but a script starts with the first position recorded in it and stops with the last,
in whatever order these are; and what is recorded in it are the positions of its own tokens and,
again, of its children's. -/
theorem extent_exact {n : Node} (h : n.kind ≠ .script) :
    n.positions.head? = some n.start ∧ n.positions.getLast? = some n.stop ∧
      n.positions.Perm (n.ownPositions ++ n.children.flatMap positions) :=
  ⟨head?_positions (isScript_eq_false h), getLast?_positions (isScript_eq_false h),
    n.positions_perm⟩

/-- A star at the last column, sorted by an expression that stands before it, in a direction that
stands before that. -/
def starSorted : Node :=
  query ⟨none, .select ⟨⟨9, 9⟩, false, ⟨.wildcard ⟨5, maxWord⟩, []⟩, [], none, [], none⟩,
    [⟨.ident ⟨"a", ⟨⟨3, 1⟩, ⟨3, 2⟩⟩⟩, some ⟨.descending, ⟨1, 1⟩⟩⟩], none⟩

/-- It starts with the first keyword and stops with the last, though this comes first of all. -/
theorem extent_starSorted :
    starSorted.kind ≠ .script ∧ starSorted.positions.head? = some ⟨9, 9⟩ ∧
      starSorted.positions.getLast? = some ⟨1, 1⟩ := by
  have hkind : starSorted.kind ≠ .script := by decide
  obtain ⟨hstart, hstop, -⟩ := extent_exact hkind
  exact ⟨hkind, hstart, hstop⟩

end Node

end SqlScript
