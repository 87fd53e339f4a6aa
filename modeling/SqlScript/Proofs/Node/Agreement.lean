import SqlScript.Proofs.Node.Anatomy
import SqlScript.Proofs.Node.Moving
import SqlScript.Proofs.Node.Separators
import SqlScript.Proofs.Tree.Literal

/-!
# Equal nodes

Equality of nodes takes floating-point numbers by their value and time stamps by their instant, and
everything else as it is. So it is no identity: the two zeros are equal, a time stamp equals itself
in other time zones, and what is no number equals nothing. All of this happens at literals, which
may stand anywhere in a tree:

* `Node.corresponds_symm`, `Node.corresponds_trans`, `NodeRef.corresponds_self_iff`: a relation on
  data gives nodes its symmetry and transitivity, and reflexivity where all data have it;
* `Node.span_eq_of_agrees`, `NodeRef.forall₂_preorder_of_agrees`: equal nodes have the same extents
  throughout;
* `NodeRef.node_eq_of_agrees`: equal nodes without zeros and time stamps are the same;
* `Node.agrees_congruence`: all of these.
-/

namespace SqlScript

/-! ## Constants -/

namespace Binary64

variable {x y z : Binary64}

theorem agrees_iff :
    x.agrees y = true ↔ x.isNaN = false ∧ y.isNaN = false ∧
      (x = y ∨ x.isZero = true ∧ y.isZero = true) := by
  simp [agrees, and_assoc]

theorem agrees_self_iff : x.agrees x = true ↔ x.isNaN = false := by
  simp [agrees]

theorem agrees_symm (h : x.agrees y = true) : y.agrees x = true := by
  obtain ⟨hx, hy, hxy⟩ := agrees_iff.mp h
  exact agrees_iff.mpr ⟨hy, hx, hxy.imp Eq.symm And.symm⟩

theorem agrees_trans (hxy : x.agrees y = true) (hyz : y.agrees z = true) : x.agrees z = true := by
  obtain ⟨hx, -, hxy⟩ := agrees_iff.mp hxy
  obtain ⟨-, hz, hyz⟩ := agrees_iff.mp hyz
  refine agrees_iff.mpr ⟨hx, hz, ?_⟩
  rcases hxy with rfl | hzero
  · exact hyz
  · rcases hyz with rfl | hzero'
    · exact .inr hzero
    · exact .inr ⟨hzero.1, hzero'.2⟩

theorem eq_of_agrees (h : x.agrees y = true) (hx : x.isZero = false) : x = y := by
  obtain ⟨-, -, heq | hzero⟩ := agrees_iff.mp h
  · exact heq
  · rw [hx] at hzero
    cases hzero.1

end Binary64

namespace LiteralValue

variable {u v w : LiteralValue}

/-- Whether a constant is compared as it is. -/
def isExact : LiteralValue → Bool
  | float _ | timestamp _ => false
  | _ => true

theorem agrees_self_of_isExact (h : v.isExact = true) : v.agrees v = true := by
  cases v <;> first | exact beq_self_eq_true _ | cases h

/-- How two constants can be equal. -/
theorem agrees_cases (h : v.agrees w = true) :
    (∃ x y, v = .float x ∧ w = .float y ∧ x.agrees y = true) ∨
      (∃ s t, v = .timestamp s ∧ w = .timestamp t ∧ s.instant = t.instant) ∨
        v = w ∧ v.isExact = true := by
  unfold agrees at h
  split at h
  · exact .inl ⟨_, _, rfl, rfl, h⟩
  · exact .inr (.inl ⟨_, _, rfl, rfl, beq_iff_eq.mp h⟩)
  · rename_i hfloat htimestamp
    obtain rfl := beq_iff_eq.mp h
    refine .inr (.inr ⟨rfl, ?_⟩)
    cases v with
    | float x => exact absurd rfl (hfloat x x rfl)
    | timestamp t => exact absurd rfl (htimestamp t t rfl)
    | _ => rfl

theorem agrees_symm (h : v.agrees w = true) : w.agrees v = true := by
  rcases agrees_cases h with ⟨x, y, rfl, rfl, hxy⟩ | ⟨s, t, rfl, rfl, hst⟩ | ⟨rfl, -⟩
  · exact Binary64.agrees_symm hxy
  · exact beq_iff_eq.mpr hst.symm
  · exact h

theorem agrees_trans (huv : u.agrees v = true) (hvw : v.agrees w = true) :
    u.agrees w = true := by
  rcases agrees_cases huv with ⟨x, y, rfl, rfl, hxy⟩ | ⟨s, t, rfl, rfl, hst⟩ | ⟨rfl, -⟩
  · rcases agrees_cases hvw with ⟨_, z, ⟨⟩, rfl, hyz⟩ | ⟨_, _, ⟨⟩, _⟩ | ⟨_, hexact⟩
    · exact Binary64.agrees_trans hxy hyz
    · cases hexact
  · rcases agrees_cases hvw with ⟨_, _, ⟨⟩, _⟩ | ⟨_, z, ⟨⟩, rfl, htz⟩ | ⟨_, hexact⟩
    · exact beq_iff_eq.mpr (hst.trans htz)
    · cases hexact
  · exact hvw

theorem agrees_self_iff : v.agrees v = true ↔ ∀ x, v = .float x → x.isNaN = false := by
  constructor
  · rintro h x rfl
    exact Binary64.agrees_self_iff.mp h
  · intro h
    cases v with
    | float x => exact Binary64.agrees_self_iff.mpr (h x rfl)
    | timestamp t => exact beq_self_eq_true _
    | _ => exact agrees_self_of_isExact rfl

/-- A constant that is no zero and no time stamp equals itself only. -/
theorem eq_of_agrees (h : v.agrees w = true) (hf : ∀ x, v = .float x → x.isZero = false)
    (ht : ∀ t, v ≠ .timestamp t) : v = w := by
  rcases agrees_cases h with ⟨x, y, rfl, rfl, hxy⟩ | ⟨s, t, rfl, -⟩ | ⟨rfl, -⟩
  · rw [Binary64.eq_of_agrees hxy (hf x rfl)]
  · exact absurd rfl (ht s)
  · rfl

end LiteralValue

namespace Attribute

variable {x y z : Attribute}

/-- How two data can be equal. -/
theorem agrees_cases (h : x.agrees y = true) :
    (∃ v w, x = .literal v ∧ y = .literal w ∧ v.agrees w = true) ∨
      x = y ∧ ∀ v, x ≠ .literal v := by
  unfold agrees at h
  split at h
  · exact .inl ⟨_, _, rfl, rfl, h⟩
  · rename_i hliteral
    obtain rfl := beq_iff_eq.mp h
    exact .inr ⟨rfl, fun v hv => hliteral v v hv hv⟩

theorem agrees_symm (h : x.agrees y = true) : y.agrees x = true := by
  rcases agrees_cases h with ⟨v, w, rfl, rfl, hvw⟩ | ⟨rfl, -⟩
  · exact LiteralValue.agrees_symm hvw
  · exact h

theorem agrees_trans (hxy : x.agrees y = true) (hyz : y.agrees z = true) : x.agrees z = true := by
  rcases agrees_cases hxy with ⟨v, w, rfl, rfl, hvw⟩ | ⟨rfl, -⟩
  · rcases agrees_cases hyz with ⟨_, u, ⟨⟩, rfl, hwu⟩ | ⟨rfl, -⟩
    · exact LiteralValue.agrees_trans hvw hwu
    · exact hvw
  · exact hyz

theorem agrees_self_iff :
    x.agrees x = true ↔ ∀ v, x = .literal v → v.agrees v = true := by
  constructor
  · rintro h v rfl
    exact h
  · intro h
    cases x with
    | literal v => exact h v rfl
    | _ => exact beq_self_eq_true _

/-- Equal data are the same, unless they are constants that have other equals. -/
theorem eq_of_agrees (h : x.agrees y = true)
    (hx : ∀ v w, x = .literal v → v.agrees w = true → v = w) : x = y := by
  rcases agrees_cases h with ⟨v, w, rfl, rfl, hvw⟩ | ⟨rfl, -⟩
  · rw [hx v w rfl hvw]
  · rfl

end Attribute

/-! ## Relations on data and on nodes -/

/-- Two relations of lists in pairs give one of their ends. -/
theorem forall₂_comp {R : α → β → Prop} {S : β → γ → Prop} {T : α → γ → Prop} {xs : List α}
    {ys : List β} {zs : List γ} (hxy : List.Forall₂ R xs ys) (hyz : List.Forall₂ S ys zs)
    (hT : ∀ x ∈ xs, ∀ y z, R x y → S y z → T x z) : List.Forall₂ T xs zs := by
  induction hxy generalizing zs with
  | nil =>
    cases hyz
    exact .nil
  | cons hx _ ih =>
    cases hyz with
    | cons hz hrest =>
      exact .cons (hT _ List.mem_cons_self _ _ hx hz)
        (ih hrest fun x hmem => hT x (List.mem_cons_of_mem _ hmem))

namespace Node

variable {rel : Attribute → Attribute → Bool}

theorem corresponds_iff_forall₂ {a b : Node} :
    a.corresponds rel b = true ↔ a.kind = b.kind ∧
      List.Forall₂ (fun x y => rel x y = true) a.attributes b.attributes ∧
      List.Forall₂ (fun c d => c.corresponds rel d = true) a.children b.children := by
  rw [corresponds_iff, pairwise_iff_forall₂, pairwise_iff_forall₂]

theorem corresponds_symm {a b : Node} (hrel : ∀ x y, rel x y = true → rel y x = true)
    (h : a.corresponds rel b = true) : b.corresponds rel a = true := by
  obtain ⟨hk, hd, hc⟩ := corresponds_iff_forall₂.mp h
  have hchildren : List.Forall₂ (fun c d => d.corresponds rel c = true) a.children b.children :=
    forall₂_of_mem hc fun c hmem d hcd => corresponds_symm hrel hcd
  exact corresponds_iff_forall₂.mpr ⟨hk.symm, (hd.imp hrel).flip, hchildren.flip⟩
termination_by a.weight
decreasing_by exact weight_lt_of_mem_children hmem

theorem corresponds_trans {a b c : Node}
    (hrel : ∀ x y z, rel x y = true → rel y z = true → rel x z = true)
    (hab : a.corresponds rel b = true) (hbc : b.corresponds rel c = true) :
    a.corresponds rel c = true := by
  obtain ⟨hk, hd, hc⟩ := corresponds_iff_forall₂.mp hab
  obtain ⟨hk', hd', hc'⟩ := corresponds_iff_forall₂.mp hbc
  exact corresponds_iff_forall₂.mpr ⟨hk.trans hk', forall₂_comp hd hd' fun x _ y z => hrel x y z,
    forall₂_comp hc hc' fun d hmem e f hde hef => corresponds_trans hrel hde hef⟩
termination_by a.weight
decreasing_by exact weight_lt_of_mem_children hmem

end Node

namespace NodeRef

/-- A node corresponds to itself if all data in it and below it are related to themselves. -/
theorem corresponds_self_iff {rel : Attribute → Attribute → Bool} (r : NodeRef) :
    r.node.corresponds rel r.node = true ↔
      ∀ m ∈ r.preorder, ∀ x ∈ m.node.attributes, rel x x = true := by
  induction r using NodeRef.induction with
  | step r ih =>
    have hchildren : (∀ c ∈ r.node.children, c.corresponds rel c = true) ↔
        ∀ c ∈ r.children, ∀ m ∈ c.preorder, ∀ x ∈ m.node.attributes, rel x x = true := by
      rw [← map_node_children, List.forall_mem_map]
      exact forall₂_congr ih
    rw [Node.corresponds_iff_forall₂, List.forall₂_same, List.forall₂_same, hchildren, preorder_eq,
      List.forall_mem_cons, List.forall_mem_flatMap]
    exact and_iff_right rfl

end NodeRef

/-! ## Literals in a tree -/

namespace Node

open Attribute

/-- The constant of a literal. -/
def literal? : Node → Option LiteralValue
  | expr (.literal value) => some value.val
  | _ => none

theorem exists_literal_of_literal? {n : Node} {v : LiteralValue} (h : n.literal? = some v) :
    ∃ span, n = literal ⟨v, span⟩ := by
  cases n with
  | expr e =>
    cases e with
    | literal l => exact ⟨l.span, by rw [← Option.some.inj h, literal]⟩
    | _ => cases h
  | _ => cases h

theorem exists_literal_of_kind {n : Node} (h : n.kind = .literal) : ∃ l, n = literal l :=
  Family.exists_of_kind (f := literal) (x := ⟨.null, default⟩) h

theorem literal_not_mem_of_noValue {as : List Attribute} (h : NoValue as) (v : LiteralValue) :
    Attribute.literal v ∉ as := by
  intro hmem
  cases h _ hmem

/-- Only a literal holds a constant. -/
theorem literal_not_mem_attributes {n : Node} (h : n.literal? = none) (v : LiteralValue) :
    Attribute.literal v ∉ n.attributes := by
  cases n with
  | expr e =>
    cases e with
    | literal l => cases h
    | existsQuery notStart _ _ _ =>
      cases notStart <;> simp [attributes, Expr.attributes, ofPosition?]
    | _ => simp [attributes, Expr.attributes, ofSpan, ofList, ofOption]
  | dataType t => cases t <;> simp [attributes, DataType.attributes, ofSpan]
  | windowSpec w => simp [attributes, WindowSpec.attributes, ofSpan, ofList, ofOption]
  | windowFrame w => simp [attributes, WindowFrame.attributes, ofOption]
  | statement s => exact literal_not_mem_of_noValue (noValue_statement s) v
  | setExpr s => cases s <;> simp [attributes, SetExpr.attributes, ofSpan, ofList, ofOption]
  | selectItem i => cases i <;> simp [attributes, SelectItem.attributes]
  | sortKey k =>
    obtain ⟨_, direction⟩ := k
    cases direction <;> simp [attributes, SortKey.attributes]
  | limit l =>
    obtain ⟨_, value, _⟩ := l
    cases value <;> simp [attributes, Limit.attributes, ofPosition?, ofOption]
  | tableReference t => exact literal_not_mem_of_noValue (noValue_tableReference t) v
  | joinSpec s =>
    cases s <;> simp [attributes, JoinSpec.attributes, ColumnList.attributes, ofList]
  | insertSource s => cases s <;> simp [attributes, InsertSource.attributes, ofList]
  | tableElement e =>
    cases e with
    | column c => simp [attributes, TableElement.attributes, ofList, ofOption]
    | constraint c => exact literal_not_mem_of_noValue (noValue_constraintName c.name) v
  | columnConstraint c => exact literal_not_mem_of_noValue (noValue_constraintName c.name) v
  | columnRule r => exact literal_not_mem_of_noValue (noValue_columnRule r) v
  | tableRule r =>
    cases r <;> simp [attributes, TableRule.attributes, ColumnList.attributes, ofSpan, ofList]
  | tableChange c =>
    cases c with
    | dropConstraint _ _ cascadeEnd | dropColumn _ _ cascadeEnd =>
      cases cascadeEnd <;> simp [attributes, TableChange.attributes, ofPosition?]
    | _ => simp [attributes, TableChange.attributes]
  | columnChange c => cases c <;> simp [attributes, ColumnChange.attributes, ofSpan]
  | _ => simp [attributes, ofSpan, ofList]

theorem literal_mem_attributes_iff {n : Node} {v : LiteralValue} :
    Attribute.literal v ∈ n.attributes ↔ n.literal? = some v := by
  cases h : n.literal? with
  | none => simpa using literal_not_mem_attributes h v
  | some w =>
    obtain ⟨span, rfl⟩ := exists_literal_of_literal? h
    simp [literal, attributes, Expr.attributes, ofSpan, eq_comm]

end Node

namespace NodeRef

/-- The constants of a node and everything below it. -/
def literals (r : NodeRef) : List LiteralValue :=
  r.preorder.filterMap (·.node.literal?)

theorem mem_literals_iff {r : NodeRef} {v : LiteralValue} :
    v ∈ r.literals ↔ ∃ m ∈ r.preorder, m.node.literal? = some v :=
  List.mem_filterMap

theorem literals_subset_of_mem_children {c r : NodeRef} (h : c ∈ r.children) :
    c.literals ⊆ r.literals :=
  List.filterMap_subset _ (preorder_subset_of_mem_children h)

/-- A node equals itself unless something in it is no number. -/
theorem agrees_self_iff (r : NodeRef) :
    r.node.agrees r.node = true ↔ ∀ x, .float x ∈ r.literals → x.isNaN = false := by
  rw [Node.agrees, corresponds_self_iff]
  constructor
  · intro h x hx
    obtain ⟨m, hm, hv⟩ := mem_literals_iff.mp hx
    have hself : LiteralValue.agrees (.float x) (.float x) = true :=
      h m hm _ (Node.literal_mem_attributes_iff.mpr hv)
    exact LiteralValue.agrees_self_iff.mp hself x rfl
  · intro h m hm x hx
    rw [Attribute.agrees_self_iff]
    rintro v rfl
    rw [LiteralValue.agrees_self_iff]
    rintro y rfl
    exact h y (mem_literals_iff.mpr ⟨m, hm, Node.literal_mem_attributes_iff.mp hx⟩)

end NodeRef

/-! ## Extents -/

/-- What has an extent in a layout shows in its skeleton, and in the extents of its children. -/
theorem Layout.outline_eq_of_slots {ps qs : List Piece} (hs : slots id ps = slots id qs)
    (hc : (childNodes ps).map Node.span = (childNodes qs).map Node.span) :
    outline ps = outline qs := by
  induction ps generalizing qs with
  | nil =>
    cases qs with
    | nil => rfl
    | cons q qs => cases hs
  | cons p ps ih =>
    cases qs with
    | nil => cases hs
    | cons q qs =>
      cases p <;> cases q <;>
        simp only [slots_word, slots_mark, slots_child, List.cons.injEq, reduceCtorEq, false_and,
          Slot.mark.injEq, id, true_and, childNodes_word, childNodes_mark, childNodes_child,
          List.map_cons] at hs hc
      case word.word => rw [outline_word, outline_word, ih hs.2 hc]
      case mark.mark => rw [outline_mark, outline_mark, hs.1, ih hs.2 hc]
      case child.child => rw [outline_child, outline_child, hc.1, ih hs hc.2]

namespace Node

open Layout

theorem children_of_agrees {a b : Node} (h : a.agrees b = true) :
    List.Forall₂ (fun c d => c.agrees d = true) a.children b.children :=
  (corresponds_iff_forall₂.mp h).2.2

/-- Equal nodes hold the same data, unless they are literals. -/
theorem attributes_eq_of_agrees {a b : Node} (h : a.agrees b = true)
    (ha : ∀ v w, a.literal? = some v → v.agrees w = true → v = w) :
    a.attributes = b.attributes := by
  obtain ⟨-, hd, -⟩ := corresponds_iff_forall₂.mp h
  rw [← List.forall₂_eq_eq_eq]
  refine forall₂_of_mem hd fun x hx y hxy => Attribute.eq_of_agrees hxy fun v w hv => ?_
  exact ha v w (literal_mem_attributes_iff.mp (hv ▸ hx))

theorem span_eq_of_agrees_literal {l m : Literal} (h : (literal l).agrees (literal m) = true) :
    (literal l).span = (literal m).span := by
  obtain ⟨-, hd, -⟩ := corresponds_iff_forall₂.mp h
  obtain ⟨-, hstart, hstop⟩ : l.val.agrees m.val = true ∧ l.span.start = m.span.start ∧
      l.span.stop = m.span.stop := by
    simpa [literal, attributes, Expr.attributes, Attribute.ofSpan, Attribute.agrees] using hd
  show (⟨l.span.start, l.span.stop⟩ : Span) = ⟨m.span.start, m.span.stop⟩
  rw [hstart, hstop]

/-- A script runs from where its statements and comments do, so scripts with equal comments and
statements in the same places have one extent. -/
theorem span_script_eq {s t : Script} (hc : s.comments = t.comments)
    (hs : (s.statements.toList.map fun u => (statement u).span) =
      t.statements.toList.map fun u => (statement u).span) :
    (script s).span = (script t).span := by
  have hfirst : (statement s.statements.head).span = (statement t.statements.head).span := by
    have hhead := congrArg List.head? hs
    simpa using hhead
  have hlast : (statement s.statements.last).span = (statement t.statements.last).span := by
    have hend := congrArg List.getLast? hs
    simpa [List.getLast?_map, NonEmptyList.getLast?_toList] using hend
  have hstart : s.statements.head.start = t.statements.head.start := congrArg Span.start hfirst
  have hstop : s.statements.last.stop = t.statements.last.stop := congrArg Span.stop hlast
  show (⟨s.start, s.stop⟩ : Span) = ⟨t.start, t.stop⟩
  simp only [Script.start, Script.stop, hc, hstart, hstop]

theorem exists_script_of_isScript {n : Node} (h : n.isScript = true) : ∃ s, n = script s := by
  cases n <;> simp [isScript] at h ⊢

/-- Nodes other than scripts have one extent, if they have one form and their children are in the
same places. -/
theorem span_eq_of_form {a b : Node} (hform : a.form id = b.form id) (ha : a.isScript = false)
    (hc : a.children.map span = b.children.map span) : a.span = b.span := by
  have hb : b.isScript = false := (isScript_eq_of_kind (congrArg Form.kind hform)).symm.trans ha
  have hstep : InStep id id := fun _ _ h => congrArg (Position.advance · 1) h
  have houtline : outline a.layout = outline b.layout := by
    refine outline_eq_of_slots (slots_layout hstep hform) ?_
    rw [childNodes_layout, childNodes_layout, hc]
  have hstart := (frames_layout ha).first
  have hstop := (frames_layout ha).last
  rw [houtline, (frames_layout hb).first] at hstart
  rw [houtline, (frames_layout hb).last] at hstop
  show (⟨a.start, a.stop⟩ : Span) = ⟨b.start, b.stop⟩
  rw [Option.some.inj hstart, Option.some.inj hstop]

theorem unaryOperator?_eq_of_agrees {a b : Node} (h : a.agrees b = true) :
    a.unaryOperator? = b.unaryOperator? := by
  refine unaryOperator?_eq_of_corresponds (fun k l hkl => ?_) h
  exact Attribute.operator.inj (Attribute.eq_of_agrees hkl fun _ _ hv => by cases hv)

/-- Equal nodes have the same extent. -/
theorem span_eq_of_agrees {a b : Node} (h : a.agrees b = true) : a.span = b.span := by
  obtain ⟨hkind, -, hc⟩ := corresponds_iff.mp h
  have hchildren : a.children.map span = b.children.map span :=
    map_eq_map_of_pairwise (fun c hmem d _ hcd => span_eq_of_agrees hcd) hc
  cases hl : a.literal? with
  | some v =>
    obtain ⟨place, rfl⟩ := exists_literal_of_literal? hl
    obtain ⟨m, rfl⟩ := exists_literal_of_kind hkind.symm
    exact span_eq_of_agrees_literal h
  | none =>
    have hd : a.attributes = b.attributes :=
      attributes_eq_of_agrees h fun v w hv => by rw [hl] at hv; cases hv
    cases hs : a.isScript with
    | true =>
      obtain ⟨s, rfl⟩ := exists_script_of_isScript hs
      obtain ⟨t, rfl⟩ := exists_script_of_isScript ((isScript_eq_of_kind hkind).symm.trans hs)
      simp only [attributes, List.cons.injEq, Attribute.comments.injEq] at hd
      rw [children, children, List.map_map, List.map_map] at hchildren
      exact span_script_eq hd.2.1 hchildren
    | false =>
      refine span_eq_of_form ?_ hs hchildren
      rw [form, form, hkind, hd, unaryOperator?_eq_of_agrees h]
termination_by a.weight
decreasing_by exact weight_lt_of_mem_children hmem

end Node

namespace NodeRef

/-- Two nodes are of one kind and run from the same position to the same. -/
structure Coextensive (r r' : NodeRef) : Prop where
  kind : r.kind = r'.kind
  start : r.start = r'.start
  stop : r.stop = r'.stop

theorem forall₂_children_of_agrees {r r' : NodeRef} (h : r.node.agrees r'.node = true) :
    List.Forall₂ (fun c c' => c.node.agrees c'.node = true) r.children r'.children :=
  forall₂_mapIdx (Node.children_of_agrees h) fun _ _ _ _ hc => hc

/-- The pre-orders of equal nodes have nodes of the same kinds in the same places of the source, one
by one. -/
theorem forall₂_preorder_of_agrees {r r' : NodeRef} (h : r.node.agrees r'.node = true) :
    List.Forall₂ Coextensive r.preorder r'.preorder := by
  have hpairs := forall₂_preorder (R := fun m m' => m.node.agrees m'.node = true)
    (fun _ _ => forall₂_children_of_agrees) h
  refine hpairs.imp fun m m' hm => ?_
  have hspan := Node.span_eq_of_agrees hm
  exact ⟨(Node.corresponds_iff.mp hm).1, congrArg Span.start hspan, congrArg Span.stop hspan⟩

/-! ## Where equal nodes are the same -/

/-- Equal nodes are the same, if there are no zeros and no time stamps in one of them. -/
theorem node_eq_of_agrees {r r' : NodeRef} (h : r.node.agrees r'.node = true)
    (hf : ∀ x, .float x ∈ r.literals → x.isZero = false)
    (ht : ∀ t, .timestamp t ∉ r.literals) : r.node = r'.node := by
  induction r using NodeRef.induction generalizing r' with
  | step r ih =>
    have hattributes : r.node.attributes = r'.node.attributes := by
      refine Node.attributes_eq_of_agrees h fun v w hv hvw => ?_
      have hmem : v ∈ r.literals := mem_literals_iff.mpr ⟨r, r.mem_preorder_self, hv⟩
      refine LiteralValue.eq_of_agrees hvw ?_ ?_
      · rintro x rfl
        exact hf x hmem
      · rintro t rfl
        exact ht t hmem
    have hchildren : r.children.map (·.node) = r'.children.map (·.node) := by
      rw [← List.forall₂_eq_eq_eq, List.forall₂_map_left_iff, List.forall₂_map_right_iff]
      refine forall₂_of_mem (forall₂_children_of_agrees h) fun c hc c' hcc' => ?_
      have hsub := literals_subset_of_mem_children hc
      exact ih c hc hcc' (fun x hx => hf x (hsub hx)) fun t htc => ht t (hsub htc)
    rw [map_node_children, map_node_children] at hchildren
    exact Node.eq_of_parts (Node.corresponds_iff.mp h).1 hattributes hchildren

end NodeRef

namespace Node

/-- Equality of nodes is symmetric and transitive, and a node equals itself exactly if nothing in it
is no number. Equal nodes have nodes of the same kinds at the same places, one by one in pre-order;
and if there are no zeros and no time stamps in one of them, they are the same and so are their
texts. -/
theorem agrees_congruence :
    (∀ a b : Node, a.agrees b = true → b.agrees a = true) ∧
    (∀ a b c : Node, a.agrees b = true → b.agrees c = true → a.agrees c = true) ∧
    (∀ r : NodeRef, r.node.agrees r.node = true ↔
      ∀ x, .float x ∈ r.literals → x.isNaN = false) ∧
    ∀ r r' : NodeRef, r.node.agrees r'.node = true →
      List.Forall₂ NodeRef.Coextensive r.preorder r'.preorder ∧
      ((∀ x, .float x ∈ r.literals → x.isZero = false) → (∀ t, .timestamp t ∉ r.literals) →
        r.node = r'.node ∧ r.node.toSql = r'.node.toSql) := by
  refine ⟨fun a b => corresponds_symm fun _ _ => Attribute.agrees_symm,
    fun a b c => corresponds_trans fun _ _ _ => Attribute.agrees_trans,
    NodeRef.agrees_self_iff, fun r r' h => ⟨NodeRef.forall₂_preorder_of_agrees h, ?_⟩⟩
  intro hf ht
  have hnode := NodeRef.node_eq_of_agrees h hf ht
  exact ⟨hnode, congrArg toSql hnode⟩

/-- A floating-point number on the first line of the source, by its bits. -/
def floatOnLine (bits : UInt64) : Node :=
  literal ⟨.float ⟨bits⟩, ⟨⟨1, 1⟩, ⟨1, 4⟩⟩⟩

theorem literals_floatOnLine (bits : UInt64) :
    (NodeRef.root 0 (floatOnLine bits)).literals = [.float ⟨bits⟩] := by
  rw [NodeRef.literals, NodeRef.preorder_eq]
  rfl

/-- The two zeros are equal and stand in the same place, but are written differently; what is no
number does not equal itself. -/
theorem agrees_congruence_zeros :
    (floatOnLine 0).agrees (floatOnLine 0x8000000000000000) = true ∧
      List.Forall₂ NodeRef.Coextensive (NodeRef.root 0 (floatOnLine 0)).preorder
        (NodeRef.root 0 (floatOnLine 0x8000000000000000)).preorder ∧
      (floatOnLine 0).toSql ≠ (floatOnLine 0x8000000000000000).toSql ∧
      (floatOnLine 0x7ff8000000000000).agrees (floatOnLine 0x7ff8000000000000) = false := by
  obtain ⟨-, -, hself, hequal⟩ := agrees_congruence
  have hzeros : (floatOnLine 0).agrees (floatOnLine 0x8000000000000000) = true := by
    rw [agrees, corresponds_eq]
    rfl
  refine ⟨hzeros, (hequal (.root 0 _) (.root 0 _) hzeros).1, ?_, ?_⟩
  · rw [floatOnLine, floatOnLine, toSql_literal, toSql_literal]
    decide
  · rw [← Bool.not_eq_true]
    intro h
    have hnumber := (hself (.root 0 (floatOnLine 0x7ff8000000000000))).mp h ⟨0x7ff8000000000000⟩
    rw [literals_floatOnLine] at hnumber
    exact absurd (hnumber List.mem_cons_self) (by decide)

end Node

end SqlScript
