import SqlScript.Proofs.Node.Anatomy

/-!
# Exchanging the children of a node

The children of a node are independent of each other and of the rest of the node. Each of them can
be exchanged for any node of the same kind, and nothing else changes:

* `Node.Accepts`: some node is like a given one, but with given children;
* `Node.accepts_of_sameKinds`: a node accepts all children of the kinds of its own.
-/

namespace SqlScript

namespace Node

/-- Two lists of nodes have the same kinds, one by one. -/
def SameKinds (cs ds : List Node) : Prop :=
  cs.map kind = ds.map kind

/-- Some node of the same kind and with the same data has these children. -/
def Accepts (n : Node) (cs : List Node) : Prop :=
  ∃ m : Node, m.kind = n.kind ∧ m.attributes = n.attributes ∧ m.children = cs

/-! ## Lists of given kinds

A list that has the kinds of a list of children falls into the parts that this is made up of. -/

namespace SameKinds

variable {α β γ : Type} {f : α → Node} {g : β → Node} {k : γ → Node} [Family f] [Family g]
  [Family k] {cs ds es : List Node}

theorem eq_nil (h : SameKinds cs []) : cs = [] :=
  List.map_eq_nil_iff.mp h

theorem append (h : SameKinds cs (ds ++ es)) :
    ∃ as bs, cs = as ++ bs ∧ SameKinds as ds ∧ SameKinds bs es := by
  rw [SameKinds, List.map_append] at h
  exact List.map_eq_append_iff.mp h

theorem cons {x : α} (h : SameKinds cs (f x :: ds)) :
    ∃ (y : α) (as : List Node), cs = f y :: as ∧ SameKinds as ds := by
  rw [SameKinds, List.map_cons] at h
  obtain ⟨c, as, rfl, hc, has⟩ := List.map_eq_cons_iff.mp h
  obtain ⟨y, rfl⟩ := Family.exists_of_kind hc
  exact ⟨y, as, rfl, has⟩

theorem one {x : α} (h : SameKinds cs [f x]) : ∃ y : α, cs = [f y] := by
  obtain ⟨y, as, rfl, has⟩ := h.cons
  obtain rfl := has.eq_nil
  exact ⟨y, rfl⟩

theorem two {x : α} {y : β} (h : SameKinds cs [f x, g y]) :
    ∃ (x' : α) (y' : β), cs = [f x', g y'] := by
  obtain ⟨x', as, rfl, has⟩ := h.cons
  obtain ⟨y', rfl⟩ := has.one
  exact ⟨x', y', rfl⟩

theorem three {x : α} {y : β} {z : γ} (h : SameKinds cs [f x, g y, k z]) :
    ∃ (x' : α) (y' : β) (z' : γ), cs = [f x', g y', k z'] := by
  obtain ⟨x', as, rfl, has⟩ := h.cons
  obtain ⟨y', z', rfl⟩ := has.two
  exact ⟨x', y', z', rfl⟩

/-- A node in a list can be exchanged for another one of its kind. -/
theorem ofSet {c d : Node} {i : Nat} (hc : cs[i]? = some c) (hd : d.kind = c.kind) :
    SameKinds (cs.set i d) cs := by
  obtain ⟨hi, rfl⟩ := List.getElem?_eq_some_iff.mp hc
  rw [SameKinds, List.map_set, hd, ← List.map_set, List.set_getElem_self]

theorem ofMap {xs : List α} (h : SameKinds cs (xs.map f)) :
    ∃ ys : List α, cs = ys.map f ∧ ys.length = xs.length := by
  induction xs generalizing cs with
  | nil => exact ⟨[], h.eq_nil, rfl⟩
  | cons x xs ih =>
    obtain ⟨y, as, rfl, has⟩ := cons (x := x) h
    obtain ⟨ys, rfl, hlength⟩ := ih has
    exact ⟨y :: ys, rfl, by rw [List.length_cons, List.length_cons, hlength]⟩

theorem ofOption {o : Option α} (h : SameKinds cs (o.toList.map f)) :
    ∃ o' : Option α, cs = o'.toList.map f ∧ o'.isSome = o.isSome := by
  cases o with
  | none => exact ⟨none, h.eq_nil, rfl⟩
  | some x =>
    obtain ⟨x', rfl⟩ := one (x := x) h
    exact ⟨some x', rfl, rfl⟩

theorem ofNonEmpty {xs : NonEmptyList α} (h : SameKinds cs (xs.toList.map f)) :
    ∃ ys : NonEmptyList α, cs = ys.toList.map f ∧ ys.length = xs.length := by
  obtain ⟨ys, rfl, hlength⟩ := h.ofMap
  cases ys with
  | nil => cases hlength
  | cons y ys => exact ⟨⟨y, ys⟩, rfl, hlength⟩

theorem ofBranches {bs : List (Expr × Expr)}
    (h : SameKinds cs (bs.flatMap fun b => [expr b.1, expr b.2])) :
    ∃ bs' : List (Expr × Expr),
      cs = bs'.flatMap (fun b => [expr b.1, expr b.2]) ∧ bs'.length = bs.length := by
  induction bs generalizing cs with
  | nil => exact ⟨[], h.eq_nil, rfl⟩
  | cons b bs ih =>
    obtain ⟨x, as, rfl, has⟩ := cons (f := expr) h
    obtain ⟨y, as, rfl, hbranches⟩ := cons (f := expr) has
    obtain ⟨bs', rfl, hlength⟩ := ih hbranches
    exact ⟨(x, y) :: bs', rfl, by rw [List.length_cons, List.length_cons, hlength]⟩

theorem ofNonEmptyBranches {bs : NonEmptyList (Expr × Expr)}
    (h : SameKinds cs (bs.toList.flatMap fun b => [expr b.1, expr b.2])) :
    ∃ bs' : NonEmptyList (Expr × Expr),
      cs = bs'.toList.flatMap (fun b => [expr b.1, expr b.2]) ∧ bs'.length = bs.length := by
  obtain ⟨bs', rfl, hlength⟩ := h.ofBranches
  cases bs' with
  | nil => cases hlength
  | cons b bs' => exact ⟨⟨b, bs'⟩, rfl, hlength⟩

end SameKinds

/-- A node without children accepts no others. -/
theorem accepts_of_leaf {n : Node} {cs : List Node} (hn : n.children = [])
    (h : SameKinds cs n.children) : n.Accepts cs := by
  rw [hn] at h
  obtain rfl := h.eq_nil
  exact ⟨n, rfl, rfl, hn⟩

end Node

open Node (SameKinds accepts_of_leaf)

variable {cs : List Node}

/-! ## Expressions and queries -/

theorem Expr.accepts (e : Expr) (h : SameKinds cs e.children) : (Node.expr e).Accepts cs := by
  cases e with
  | compound parts =>
    obtain ⟨parts', rfl, hlength⟩ := SameKinds.ofNonEmpty h
    exact ⟨.expr (.compound parts'), rfl, by simp [Node.attributes, attributes, hlength], rfl⟩
  | qualifiedWildcard qualifier starEnd =>
    obtain ⟨qualifier', rfl⟩ := SameKinds.one h
    exact ⟨.expr (.qualifiedWildcard qualifier' starEnd), rfl, rfl, rfl⟩
  | binary left op right =>
    obtain ⟨left', op', right', rfl⟩ := SameKinds.three h
    exact ⟨.expr (.binary left' op' right'), rfl, rfl, rfl⟩
  | unary op operand =>
    obtain ⟨op', operand', rfl⟩ := SameKinds.two h
    exact ⟨.expr (.unary op' operand'), rfl, rfl, rfl⟩
  | isNull operand negated nullEnd =>
    obtain ⟨operand', rfl⟩ := SameKinds.one h
    exact ⟨.expr (.isNull operand' negated nullEnd), rfl, rfl, rfl⟩
  | inList operand items negated closeEnd =>
    obtain ⟨operand', _, rfl, hitems⟩ := SameKinds.cons h
    obtain ⟨items', rfl, hlength⟩ := hitems.ofNonEmpty
    exact ⟨.expr (.inList operand' items' negated closeEnd), rfl,
      by simp [Node.attributes, attributes, hlength], rfl⟩
  | inSubquery operand query negated closeEnd =>
    obtain ⟨operand', query', rfl⟩ := SameKinds.two h
    exact ⟨.expr (.inSubquery operand' query' negated closeEnd), rfl, rfl, rfl⟩
  | between operand negated low high =>
    obtain ⟨operand', low', high', rfl⟩ := SameKinds.three h
    exact ⟨.expr (.between operand' negated low' high'), rfl, rfl, rfl⟩
  | cast span operand type =>
    obtain ⟨operand', type', rfl⟩ := SameKinds.two h
    exact ⟨.expr (.cast span operand' type'), rfl, rfl, rfl⟩
  | nested span inner =>
    obtain ⟨inner', rfl⟩ := SameKinds.one h
    exact ⟨.expr (.nested span inner'), rfl, rfl, rfl⟩
  | function name distinct args closeEnd window =>
    obtain ⟨name', _, rfl, hrest⟩ := SameKinds.cons h
    obtain ⟨_, _, rfl, hargs, hwindow⟩ := hrest.append
    obtain ⟨args', rfl, hargs'⟩ := hargs.ofMap
    obtain ⟨window', rfl, hwindow'⟩ := hwindow.ofOption
    exact ⟨.expr (.function name' distinct args' closeEnd window'), rfl,
      by simp [Node.attributes, attributes, hargs', hwindow'], rfl⟩
  | caseWhen span operand branches otherwise =>
    obtain ⟨_, _, rfl, hfront, hotherwise⟩ := SameKinds.append h
    obtain ⟨_, _, rfl, hoperand, hbranches⟩ := hfront.append
    obtain ⟨operand', rfl, hoperand'⟩ := hoperand.ofOption
    obtain ⟨branches', rfl, hbranches'⟩ := hbranches.ofNonEmptyBranches
    obtain ⟨otherwise', rfl, hotherwise'⟩ := hotherwise.ofOption
    exact ⟨.expr (.caseWhen span operand' branches' otherwise'), rfl,
      by simp [Node.attributes, attributes, hoperand', hbranches', hotherwise'], rfl⟩
  | existsQuery notStart existsStart query closeEnd =>
    obtain ⟨query', rfl⟩ := SameKinds.one h
    exact ⟨.expr (.existsQuery notStart existsStart query' closeEnd), rfl, rfl, rfl⟩
  | subquery span query =>
    obtain ⟨query', rfl⟩ := SameKinds.one h
    exact ⟨.expr (.subquery span query'), rfl, rfl, rfl⟩
  | ident _ | wildcard _ | literal _ => exact accepts_of_leaf rfl h

theorem DataType.accepts (t : DataType) (h : SameKinds cs t.children) :
    (Node.dataType t).Accepts cs := by
  cases t with
  | builtin _ _ => exact accepts_of_leaf rfl h
  | array element span =>
    obtain ⟨element', rfl⟩ := SameKinds.one h
    exact ⟨.dataType (.array element' span), rfl, rfl, rfl⟩
  | custom name span =>
    obtain ⟨name', rfl⟩ := SameKinds.one h
    exact ⟨.dataType (.custom name' span), rfl, rfl, rfl⟩

theorem WindowSpec.accepts (w : WindowSpec) (h : SameKinds cs w.children) :
    (Node.windowSpec w).Accepts cs := by
  obtain ⟨_, _, rfl, hfront, hframe⟩ := h.append
  obtain ⟨_, _, rfl, hpartition, horder⟩ := hfront.append
  obtain ⟨partitionBy', rfl, hpartition'⟩ := hpartition.ofMap
  obtain ⟨orderBy', rfl, horder'⟩ := horder.ofMap
  obtain ⟨frame', rfl, hframe'⟩ := hframe.ofOption
  exact ⟨.windowSpec ⟨w.span, partitionBy', orderBy', frame'⟩, rfl,
    by simp [Node.attributes, attributes, hpartition', horder', hframe'], rfl⟩

theorem WindowFrame.accepts (f : WindowFrame) (h : SameKinds cs f.children) :
    (Node.windowFrame f).Accepts cs := by
  obtain ⟨lower', _, rfl, hupper⟩ := SameKinds.cons h
  obtain ⟨upper', rfl, hupper'⟩ := hupper.ofOption
  exact ⟨.windowFrame ⟨f.units, f.unitsStart, lower', upper'⟩, rfl,
    by simp [Node.attributes, attributes, hupper'], rfl⟩

theorem Query.accepts (q : Query) (h : SameKinds cs q.children) : (Node.query q).Accepts cs := by
  obtain ⟨_, _, rfl, hfront, hlimit⟩ := h.append
  obtain ⟨_, _, rfl, hwith, hrest⟩ := hfront.append
  obtain ⟨withClause', rfl, hwith'⟩ := hwith.ofOption
  obtain ⟨body', _, rfl, horder⟩ := hrest.cons
  obtain ⟨orderBy', rfl, horder'⟩ := horder.ofMap
  obtain ⟨limit', rfl, hlimit'⟩ := hlimit.ofOption
  exact ⟨.query ⟨withClause', body', orderBy', limit'⟩, rfl,
    by simp [Node.query, Node.attributes, Statement.attributes, attributes, hwith', horder',
      hlimit'], rfl⟩

theorem SetExpr.accepts (body : SetExpr) (h : SameKinds cs body.children) :
    (Node.setExpr body).Accepts cs := by
  cases body with
  | select body =>
    obtain ⟨_, _, rfl, hfront, hhaving⟩ := SameKinds.append h
    obtain ⟨_, _, rfl, hfront', hgroup⟩ := hfront.append
    obtain ⟨_, _, rfl, hfront'', hselection⟩ := hfront'.append
    obtain ⟨_, _, rfl, hprojection, htables⟩ := hfront''.append
    obtain ⟨projection', rfl, hprojection'⟩ := hprojection.ofNonEmpty
    obtain ⟨tables', rfl, htables'⟩ := htables.ofMap
    obtain ⟨selection', rfl, hselection'⟩ := hselection.ofOption
    obtain ⟨groupBy', rfl, hgroup'⟩ := hgroup.ofMap
    obtain ⟨having', rfl, hhaving'⟩ := hhaving.ofOption
    exact ⟨.setExpr (.select ⟨body.selectStart, body.distinct, projection', tables', selection',
      groupBy', having'⟩), rfl,
      by simp [Node.attributes, attributes, hprojection', htables', hselection', hgroup',
        hhaving'], rfl⟩
  | parenthesized span query =>
    obtain ⟨query', rfl⟩ := SameKinds.one h
    exact ⟨.setExpr (.parenthesized span query'), rfl, rfl, rfl⟩
  | setOperation left op all right =>
    obtain ⟨left', right', rfl⟩ := SameKinds.two h
    exact ⟨.setExpr (.setOperation left' op all right'), rfl, rfl, rfl⟩

theorem SelectItem.accepts (item : SelectItem) (h : SameKinds cs item.children) :
    (Node.selectItem item).Accepts cs := by
  cases item with
  | unnamed expr =>
    obtain ⟨expr', rfl⟩ := SameKinds.one h
    exact ⟨.selectItem (.unnamed expr'), rfl, rfl, rfl⟩
  | aliased expr aliasName =>
    obtain ⟨expr', aliasName', rfl⟩ := SameKinds.two h
    exact ⟨.selectItem (.aliased expr' aliasName'), rfl, rfl, rfl⟩
  | qualifiedWildcard qualifier starEnd =>
    obtain ⟨qualifier', rfl⟩ := SameKinds.one h
    exact ⟨.selectItem (.qualifiedWildcard qualifier' starEnd), rfl, rfl, rfl⟩
  | wildcard _ => exact accepts_of_leaf rfl h

theorem Limit.accepts (l : Limit) (h : SameKinds cs l.children) : (Node.limit l).Accepts cs := by
  obtain ⟨limitStart, value, offset⟩ := l
  obtain ⟨_, _, rfl, hvalue, hoffset⟩ := SameKinds.append h
  obtain ⟨offset', rfl, hoffset'⟩ := hoffset.ofOption
  cases value with
  | all allEnd =>
    obtain rfl := hvalue.eq_nil
    exact ⟨.limit ⟨limitStart, .all allEnd, offset'⟩, rfl,
      by simp [Node.attributes, attributes, hoffset'], rfl⟩
  | count n =>
    obtain ⟨n', rfl⟩ := hvalue.one
    exact ⟨.limit ⟨limitStart, .count n', offset'⟩, rfl,
      by simp [Node.attributes, attributes, hoffset'], rfl⟩

/-- A column list can have other columns, as many as it has. -/
theorem ColumnList.exists_of_sameKinds (l : ColumnList) (h : SameKinds cs l.children) :
    ∃ l' : ColumnList, cs = l'.children ∧ l'.attributes = l.attributes := by
  obtain ⟨columns', rfl, hlength⟩ := SameKinds.ofNonEmpty h
  exact ⟨⟨columns', l.closeEnd⟩, rfl, by simp [attributes, hlength]⟩

/-- A table can have other arguments, as many as it has. -/
theorem TableArgs.exists_of_sameKinds (o : Option TableArgs) (h : SameKinds cs (children? o)) :
    ∃ o' : Option TableArgs, cs = children? o' ∧ attributes? o' = attributes? o := by
  cases o with
  | none => exact ⟨none, SameKinds.eq_nil h, rfl⟩
  | some args =>
    obtain ⟨args', rfl, hlength⟩ := SameKinds.ofMap h
    exact ⟨some ⟨args', args.closeEnd⟩, rfl, by simp [attributes?, hlength]⟩

/-- A table can have other hints, as many as it has. -/
theorem TableHints.exists_of_sameKinds (o : Option TableHints) (h : SameKinds cs (children? o)) :
    ∃ o' : Option TableHints, cs = children? o' ∧ attributes? o' = attributes? o := by
  cases o with
  | none => exact ⟨none, SameKinds.eq_nil h, rfl⟩
  | some hints =>
    obtain ⟨hints', rfl, hlength⟩ := SameKinds.ofNonEmpty h
    exact ⟨some ⟨hints.withStart, hints', hints.closeEnd⟩, rfl, by simp [attributes?, hlength]⟩

theorem TableReference.accepts (table : TableReference) (h : SameKinds cs table.children) :
    (Node.tableReference table).Accepts cs := by
  cases table with
  | table name args aliasName hints =>
    obtain ⟨name', _, rfl, hrest⟩ := SameKinds.cons h
    obtain ⟨_, _, rfl, hfront, hhints⟩ := hrest.append
    obtain ⟨_, _, rfl, hargs, halias⟩ := hfront.append
    obtain ⟨args', rfl, hargs'⟩ := TableArgs.exists_of_sameKinds args hargs
    obtain ⟨aliasName', rfl, halias'⟩ := halias.ofOption
    obtain ⟨hints', rfl, hhints'⟩ := TableHints.exists_of_sameKinds hints hhints
    exact ⟨.tableReference (.table name' args' aliasName' hints'), rfl,
      by simp [Node.attributes, attributes, hargs', halias', hhints'], rfl⟩
  | derived lateralStart openStart query closeEnd aliasName =>
    obtain ⟨query', _, rfl, halias⟩ := SameKinds.cons h
    obtain ⟨aliasName', rfl, halias'⟩ := halias.ofOption
    exact ⟨.tableReference (.derived lateralStart openStart query' closeEnd aliasName'), rfl,
      by simp [Node.attributes, attributes, halias'], rfl⟩
  | crossJoin left right =>
    obtain ⟨left', right', rfl⟩ := SameKinds.two h
    exact ⟨.tableReference (.crossJoin left' right'), rfl, rfl, rfl⟩
  | qualifiedJoin left type right spec =>
    obtain ⟨left', _, rfl, hrest⟩ := SameKinds.cons h
    obtain ⟨type', right', spec', rfl⟩ := hrest.three
    exact ⟨.tableReference (.qualifiedJoin left' type' right' spec'), rfl, rfl, rfl⟩
  | naturalJoin left naturalStart type right =>
    obtain ⟨left', type', right', rfl⟩ := SameKinds.three h
    exact ⟨.tableReference (.naturalJoin left' naturalStart type' right'), rfl, rfl, rfl⟩
  | partitioned source partitionStart columns =>
    obtain ⟨source', _, rfl, hcolumns⟩ := SameKinds.cons h
    obtain ⟨columns', rfl, hcolumns'⟩ := columns.exists_of_sameKinds hcolumns
    exact ⟨.tableReference (.partitioned source' partitionStart columns'), rfl,
      by simp [Node.attributes, attributes, hcolumns'], rfl⟩

theorem JoinSpec.accepts (spec : JoinSpec) (h : SameKinds cs spec.children) :
    (Node.joinSpec spec).Accepts cs := by
  cases spec with
  | condition onStart expr =>
    obtain ⟨expr', rfl⟩ := SameKinds.one h
    exact ⟨.joinSpec (.condition onStart expr'), rfl, rfl, rfl⟩
  | sharedColumns usingStart columns =>
    obtain ⟨columns', rfl, hcolumns⟩ := columns.exists_of_sameKinds h
    exact ⟨.joinSpec (.sharedColumns usingStart columns'), rfl,
      by simp [Node.attributes, attributes, hcolumns], rfl⟩

/-! ## Statements -/

theorem InsertSource.accepts (source : InsertSource) (h : SameKinds cs source.children) :
    (Node.insertSource source).Accepts cs := by
  cases source with
  | values valuesStart rows =>
    obtain ⟨rows', rfl, hlength⟩ := SameKinds.ofNonEmpty h
    exact ⟨.insertSource (.values valuesStart rows'), rfl,
      by simp [Node.attributes, attributes, hlength], rfl⟩
  | query q =>
    obtain ⟨q', rfl⟩ := SameKinds.one h
    exact ⟨.insertSource (.query q'), rfl, rfl, rfl⟩

/-- A constraint that has a name can have another one. -/
theorem ConstraintName.exists_of_sameKinds (o : Option ConstraintName)
    (h : SameKinds cs (children? o)) :
    ∃ o' : Option ConstraintName, cs = children? o' ∧ attributes? o' = attributes? o := by
  cases o with
  | none => exact ⟨none, SameKinds.eq_nil h, rfl⟩
  | some name =>
    obtain ⟨name', rfl⟩ := SameKinds.one h
    exact ⟨some ⟨name.constraintStart, name'⟩, rfl, rfl⟩

theorem TableElement.accepts (element : TableElement) (h : SameKinds cs element.children) :
    (Node.tableElement element).Accepts cs := by
  cases element with
  | column c =>
    obtain ⟨name', _, rfl, hrest⟩ := SameKinds.cons h
    obtain ⟨type', _, rfl, hrest'⟩ := hrest.cons
    obtain ⟨_, _, rfl, hdefault, hconstraints⟩ := hrest'.append
    obtain ⟨default', rfl, hdefault'⟩ := hdefault.ofOption
    obtain ⟨constraints', rfl, hconstraints'⟩ := hconstraints.ofMap
    exact ⟨.tableElement (.column ⟨name', type', default', constraints'⟩), rfl,
      by simp [Node.attributes, attributes, hdefault', hconstraints'], rfl⟩
  | constraint c =>
    obtain ⟨_, _, rfl, hname, hrule⟩ := SameKinds.append h
    obtain ⟨name', rfl, hname'⟩ := ConstraintName.exists_of_sameKinds c.name hname
    obtain ⟨rule', rfl⟩ := hrule.one
    exact ⟨.tableElement (.constraint ⟨name', rule'⟩), rfl, hname', rfl⟩

theorem ColumnConstraint.accepts (c : ColumnConstraint)
    (h : SameKinds cs (Node.columnConstraint c).children) :
    (Node.columnConstraint c).Accepts cs := by
  obtain ⟨_, _, rfl, hname, hrule⟩ := SameKinds.append h
  obtain ⟨name', rfl, hname'⟩ := ConstraintName.exists_of_sameKinds c.name hname
  obtain ⟨rule', rfl⟩ := hrule.one
  exact ⟨.columnConstraint ⟨name', rule'⟩, rfl, hname', rfl⟩

theorem ReferenceKey.accepts (key : ReferenceKey) (h : SameKinds cs key.children) :
    (Node.referenceKey key).Accepts cs := by
  obtain ⟨referencesStart, table, columns⟩ := key
  obtain ⟨table', _, rfl, hcolumns⟩ := SameKinds.cons h
  cases columns with
  | none =>
    obtain rfl := hcolumns.eq_nil
    exact ⟨.referenceKey ⟨referencesStart, table', none⟩, rfl, rfl, rfl⟩
  | some columns =>
    obtain ⟨columns', rfl, hcolumns'⟩ := columns.exists_of_sameKinds hcolumns
    exact ⟨.referenceKey ⟨referencesStart, table', some columns'⟩, rfl,
      by simp [Node.referenceKey, Node.attributes, ColumnRule.attributes, hcolumns'], rfl⟩

theorem ColumnRule.accepts (rule : ColumnRule) (h : SameKinds cs rule.children) :
    (Node.columnRule rule).Accepts cs := by
  cases rule with
  | notNull _ | unique _ _ => exact accepts_of_leaf rfl h
  | references key => exact key.accepts h
  | check span expr =>
    obtain ⟨expr', rfl⟩ := SameKinds.one h
    exact ⟨.columnRule (.check span expr'), rfl, rfl, rfl⟩

theorem TableRule.accepts (rule : TableRule) (h : SameKinds cs rule.children) :
    (Node.tableRule rule).Accepts cs := by
  cases rule with
  | unique primaryKey keywordStart columns =>
    obtain ⟨columns', rfl, hcolumns⟩ := columns.exists_of_sameKinds h
    exact ⟨.tableRule (.unique primaryKey keywordStart columns'), rfl,
      by simp [Node.attributes, attributes, hcolumns], rfl⟩
  | foreignKey foreignStart columns key =>
    obtain ⟨_, _, rfl, hcolumns, hkey⟩ := SameKinds.append h
    obtain ⟨columns', rfl, hcolumns'⟩ := columns.exists_of_sameKinds hcolumns
    obtain ⟨key', rfl⟩ := hkey.one
    exact ⟨.tableRule (.foreignKey foreignStart columns' key'), rfl,
      by simp [Node.attributes, attributes, hcolumns'], rfl⟩
  | check span expr =>
    obtain ⟨expr', rfl⟩ := SameKinds.one h
    exact ⟨.tableRule (.check span expr'), rfl, rfl, rfl⟩

theorem TableChange.accepts (change : TableChange) (h : SameKinds cs change.children) :
    (Node.tableChange change).Accepts cs := by
  cases change with
  | addColumn addStart column =>
    obtain ⟨column', rfl⟩ := SameKinds.one (f := fun c => .tableElement (.column c)) h
    exact ⟨.tableChange (.addColumn addStart column'), rfl, rfl, rfl⟩
  | addConstraint addStart constraint =>
    obtain ⟨constraint', rfl⟩ := SameKinds.one (f := fun c => .tableElement (.constraint c)) h
    exact ⟨.tableChange (.addConstraint addStart constraint'), rfl, rfl, rfl⟩
  | dropConstraint dropStart name cascadeEnd =>
    obtain ⟨name', rfl⟩ := SameKinds.one h
    exact ⟨.tableChange (.dropConstraint dropStart name' cascadeEnd), rfl, rfl, rfl⟩
  | dropColumn dropStart name cascadeEnd =>
    obtain ⟨name', rfl⟩ := SameKinds.one h
    exact ⟨.tableChange (.dropColumn dropStart name' cascadeEnd), rfl, rfl, rfl⟩
  | alterColumn alterStart column change =>
    obtain ⟨column', change', rfl⟩ := SameKinds.two h
    exact ⟨.tableChange (.alterColumn alterStart column' change'), rfl, rfl, rfl⟩

theorem ColumnChange.accepts (change : ColumnChange) (h : SameKinds cs change.children) :
    (Node.columnChange change).Accepts cs := by
  cases change with
  | setDefault setStart value =>
    obtain ⟨value', rfl⟩ := SameKinds.one h
    exact ⟨.columnChange (.setDefault setStart value'), rfl, rfl, rfl⟩
  | setType typeStart type =>
    obtain ⟨type', rfl⟩ := SameKinds.one h
    exact ⟨.columnChange (.setType typeStart type'), rfl, rfl, rfl⟩
  | dropDefault _ | setNotNull _ | dropNotNull _ => exact accepts_of_leaf rfl h

theorem Insert.accepts (s : Insert) (h : SameKinds cs (Statement.insert s).children) :
    (Node.statement (.insert s)).Accepts cs := by
  obtain ⟨table', _, rfl, hrest⟩ := SameKinds.cons h
  obtain ⟨_, _, rfl, hcolumns, hrest'⟩ := hrest.append
  obtain ⟨columns', rfl, hcolumns'⟩ := hcolumns.ofMap
  obtain ⟨source', _, rfl, hupdates⟩ := hrest'.cons
  obtain ⟨updates', rfl, hupdates'⟩ := hupdates.ofMap
  exact ⟨.statement (.insert ⟨s.insertStart, table', columns', source', updates'⟩), rfl,
    by simp [Node.attributes, Statement.attributes, hcolumns', hupdates'], rfl⟩

theorem Update.accepts (s : Update) (h : SameKinds cs (Statement.update s).children) :
    (Node.statement (.update s)).Accepts cs := by
  obtain ⟨table', _, rfl, hrest⟩ := SameKinds.cons h
  obtain ⟨_, _, rfl, hassignments, hselection⟩ := hrest.append
  obtain ⟨assignments', rfl, hassignments'⟩ := hassignments.ofNonEmpty
  obtain ⟨selection', rfl, hselection'⟩ := hselection.ofOption
  exact ⟨.statement (.update ⟨s.updateStart, table', assignments', selection'⟩), rfl,
    by simp [Node.attributes, Statement.attributes, hassignments', hselection'], rfl⟩

theorem CreateTable.accepts (s : CreateTable)
    (h : SameKinds cs (Statement.createTable s).children) :
    (Node.statement (.createTable s)).Accepts cs := by
  obtain ⟨createStart, ifNotExists, name, elements, closeEnd, external⟩ := s
  obtain ⟨name', _, rfl, hrest⟩ := SameKinds.cons h
  obtain ⟨_, _, rfl, helements, hexternal⟩ := hrest.append
  obtain ⟨elements', rfl, helements'⟩ := helements.ofNonEmpty
  cases external with
  | none =>
    obtain rfl := hexternal.eq_nil
    exact ⟨.statement (.createTable ⟨createStart, ifNotExists, name', elements', closeEnd, none⟩),
      rfl, by simp [Node.attributes, Statement.attributes, helements'], rfl⟩
  | some external =>
    obtain ⟨location', rfl⟩ := hexternal.one
    exact ⟨.statement (.createTable ⟨createStart, ifNotExists, name', elements', closeEnd,
      some ⟨external.storedStart, external.format, location'⟩⟩), rfl,
      by simp [Node.attributes, Statement.attributes, helements'], rfl⟩

theorem CreateIndex.accepts (s : CreateIndex)
    (h : SameKinds cs (Statement.createIndex s).children) :
    (Node.statement (.createIndex s)).Accepts cs := by
  obtain ⟨_, _, rfl, hname, hrest⟩ := SameKinds.append h
  obtain ⟨name', rfl, hname'⟩ := hname.ofOption
  obtain ⟨table', _, rfl, hrest'⟩ := hrest.cons
  obtain ⟨_, _, rfl, hfront, hselection⟩ := hrest'.append
  obtain ⟨_, _, rfl, hmethod, hcolumns⟩ := hfront.append
  obtain ⟨method', rfl, hmethod'⟩ := hmethod.ofOption
  obtain ⟨columns', rfl, hcolumns'⟩ := s.columns.exists_of_sameKinds hcolumns
  obtain ⟨selection', rfl, hselection'⟩ := hselection.ofOption
  exact ⟨.statement (.createIndex ⟨s.createStart, s.unique, name', table', method', columns',
    selection'⟩), rfl,
    by simp [Node.attributes, Statement.attributes, hname', hmethod', hcolumns', hselection'], rfl⟩

theorem Statement.accepts (s : Statement) (h : SameKinds cs s.children) :
    (Node.statement s).Accepts cs := by
  cases s with
  | query q => exact q.accepts h
  | insert s => exact s.accepts h
  | update s => exact s.accepts h
  | delete s =>
    obtain ⟨table', _, rfl, hselection⟩ := SameKinds.cons h
    obtain ⟨selection', rfl, hselection'⟩ := hselection.ofOption
    exact ⟨.statement (.delete ⟨s.deleteStart, table', selection'⟩), rfl,
      by simp [Node.attributes, attributes, hselection'], rfl⟩
  | createView s =>
    obtain ⟨name', query', rfl⟩ := SameKinds.two h
    exact ⟨.statement (.createView ⟨s.createStart, s.materialized, name', query'⟩), rfl, rfl, rfl⟩
  | createTable s => exact s.accepts h
  | alterTable s =>
    obtain ⟨table', change', rfl⟩ := SameKinds.two h
    exact ⟨.statement (.alterTable ⟨s.alterStart, table', change'⟩), rfl, rfl, rfl⟩
  | dropTable s =>
    obtain ⟨tables', rfl, hlength⟩ := SameKinds.ofNonEmpty h
    exact ⟨.statement (.dropTable ⟨s.dropStart, s.ifExists, tables', s.cascadeEnd⟩), rfl,
      by simp [Node.attributes, attributes, hlength], rfl⟩
  | createIndex s => exact s.accepts h
  | dropIndex s =>
    obtain ⟨names', rfl, hlength⟩ := SameKinds.ofNonEmpty h
    exact ⟨.statement (.dropIndex ⟨s.dropStart, names'⟩), rfl,
      by simp [Node.attributes, attributes, hlength], rfl⟩
  | explain explainStart statement =>
    obtain ⟨statement', rfl⟩ := SameKinds.one h
    exact ⟨.statement (.explain explainStart statement'), rfl, rfl, rfl⟩

/-! ## All nodes -/

/-- A node accepts all children of the kinds of its own. -/
theorem Node.accepts_of_sameKinds (n : Node) (h : SameKinds cs n.children) : n.Accepts cs := by
  cases n with
  | expr e => exact e.accepts h
  | dataType type => exact type.accepts h
  | windowSpec window => exact window.accepts h
  | windowFrame frame => exact frame.accepts h
  | statement s => exact s.accepts h
  | setExpr body => exact body.accepts h
  | selectItem item => exact item.accepts h
  | limit l => exact l.accepts h
  | tableReference table => exact table.accepts h
  | joinSpec spec => exact spec.accepts h
  | insertSource source => exact source.accepts h
  | tableElement element => exact element.accepts h
  | columnConstraint constraint => exact constraint.accepts h
  | columnRule rule => exact rule.accepts h
  | tableRule rule => exact rule.accepts h
  | tableChange change => exact change.accepts h
  | columnChange change => exact change.accepts h
  | objectName name =>
    obtain ⟨name', rfl, hlength⟩ := SameKinds.ofNonEmpty h
    exact ⟨objectName name', rfl, by simp [attributes, hlength], rfl⟩
  | withClause clause =>
    obtain ⟨tables', rfl, hlength⟩ := SameKinds.ofNonEmpty h
    exact ⟨withClause ⟨clause.withStart, tables'⟩, rfl, by simp [attributes, hlength], rfl⟩
  | cte table =>
    obtain ⟨aliasName', query', rfl⟩ := SameKinds.two h
    exact ⟨cte ⟨aliasName', query', table.closeEnd⟩, rfl, rfl, rfl⟩
  | sortKey key =>
    obtain ⟨expr', rfl⟩ := SameKinds.one h
    exact ⟨sortKey ⟨expr', key.direction⟩, rfl, rfl, rfl⟩
  | assignment a =>
    obtain ⟨column', value', rfl⟩ := SameKinds.two h
    exact ⟨assignment ⟨column', value'⟩, rfl, rfl, rfl⟩
  | row r =>
    obtain ⟨values', rfl, hlength⟩ := SameKinds.ofNonEmpty h
    exact ⟨row ⟨r.span, values'⟩, rfl, by simp [attributes, hlength], rfl⟩
  | script s =>
    obtain ⟨statements', rfl, hlength⟩ := SameKinds.ofNonEmpty h
    exact ⟨script ⟨statements', s.comments, s.comments_ordered⟩, rfl,
      by simp [attributes, hlength], rfl⟩
  | commentGroup g =>
    obtain ⟨comments', rfl, hlength⟩ := SameKinds.ofNonEmpty h
    exact ⟨commentGroup ⟨comments'⟩, rfl, by simp [attributes, hlength], rfl⟩
  | operator _ | frameBound _ | joinType _ | comment _ => exact accepts_of_leaf rfl h

end SqlScript
