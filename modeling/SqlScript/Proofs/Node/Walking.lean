import Mathlib.Data.List.Nodup
import Mathlib.Data.List.Perm.Basic
import SqlScript.Node.Walk
import SqlScript.Proofs.Node.Preorder

/-!
# The calls of a walk

What a visitor answers may depend on every call before, and decides which calls follow. A visitor
that also keeps a record of its calls is led through a tree in the same way, so that the record
tells which calls the visitor itself gets:

* `NodeRef.reached`: the nodes that a walk gets to, if it stops at some nodes;
* `NodeRef.walk_invariant`: what no call breaks, no walk does;
* `NodeRef.visits_cases`: a walk enters its root, and either that is all, or it goes through the
  children and then leaves the root;
* `NodeRef.walk_protocol`: which nodes are entered and left, and in what order, for every visitor.
-/

namespace SqlScript

/-! ## Nodes above others -/

namespace NodeRef

variable {a c d m r : NodeRef}

/-- Whether a node is a proper ancestor of another one. -/
def isAbove (a m : NodeRef) : Bool :=
  a.children.any (·.covers m)

theorem isAbove_iff : a.isAbove m = true ↔ ∃ c ∈ a.children, c.covers m = true :=
  List.any_eq_true

theorem isAbove_of_mem (hc : c ∈ r.children) (hm : m ∈ c.preorder) : r.isAbove m = true :=
  isAbove_iff.mpr ⟨c, hc, covers_of_mem hm⟩

/-- A tree covers what any of its nodes is above. -/
theorem covers_of_isAbove (ha : a ∈ r.preorder) (h : a.isAbove m = true) : r.covers m = true := by
  obtain ⟨c, hc, hm⟩ := isAbove_iff.mp h
  have hmem : c ∈ a.preorder := preorder_subset_of_mem_children hc c.mem_preorder_self
  exact covers_of_covers (preorder_subset_of_mem_preorder ha hmem) hm

theorem covers_parent (hc : c ∈ r.children) : c.covers r = false := by
  rw [Bool.eq_false_iff]
  intro h
  obtain ⟨n, hn, he⟩ := covers_iff.mp h
  exact address_ne_of_mem_preorder_child hc hn he

/-- No node is above the root of its tree. -/
theorem isAbove_root (ha : a ∈ r.preorder) : a.isAbove r = false := by
  rw [Bool.eq_false_iff]
  intro h
  rcases mem_preorder_iff.mp ha with rfl | ⟨c, hc, hac⟩
  · obtain ⟨c, hc, hcovers⟩ := isAbove_iff.mp h
    rw [covers_parent hc] at hcovers
    cases hcovers
  · have hcovers := covers_of_isAbove hac h
    rw [covers_parent hc] at hcovers
    cases hcovers

/-- No two children cover one node. -/
theorem child_eq_of_covers (hc : c ∈ r.children) (hd : d ∈ r.children) (h : c.covers m = true)
    (h' : d.covers m = true) : c = d := by
  obtain ⟨i, hi⟩ := List.mem_iff_getElem?.mp hc
  obtain ⟨j, hj⟩ := List.mem_iff_getElem?.mp hd
  obtain ⟨n, hn, he⟩ := covers_iff.mp h
  obtain ⟨n', hn', he'⟩ := covers_iff.mp h'
  obtain rfl := child_eq_of_mem_preorder hi hj hn hn' (he.trans he'.symm)
  exact Option.some.inj (hi.symm.trans hj)

/-- A node and what is above it are in the tree of one child. -/
theorem child_eq_of_isAbove (hc : c ∈ r.children) (hd : d ∈ r.children) (hm : m ∈ c.preorder)
    (ha : a ∈ d.preorder) (h : a.isAbove m = true) : c = d :=
  child_eq_of_covers hc hd (covers_of_mem hm) (covers_of_isAbove ha h)

theorem nodup_children (r : NodeRef) : r.children.Nodup := by
  refine r.pairwise_disjoint_children.imp ?_
  rintro c _ hdisjoint rfl
  have hmem := List.mem_map_of_mem (f := (·.address)) c.mem_preorder_self
  exact hdisjoint hmem hmem

/-- Whether the way from the root of a tree to a node is open: no node above it is a stop. -/
def isOpen (stops : NodeRef → Bool) (r m : NodeRef) : Bool :=
  r.preorder.all fun a => !a.isAbove m || !stops a

/-- The nodes of a tree to which the way is open, in pre-order. -/
def reached (stops : NodeRef → Bool) (r : NodeRef) : List NodeRef :=
  r.preorder.filter (r.isOpen stops)

variable {stops stops' : NodeRef → Bool}

theorem isOpen_iff :
    r.isOpen stops m = true ↔ ∀ a ∈ r.preorder, a.isAbove m = true → stops a = false := by
  simp [isOpen, or_iff_not_imp_left]

theorem isOpen_root (stops : NodeRef → Bool) (r : NodeRef) : r.isOpen stops r = true := by
  rw [isOpen_iff]
  intro a ha habove
  rw [isAbove_root ha] at habove
  cases habove

/-- A way below a child is open if it is from that child on, and the root is no stop. -/
theorem isOpen_child (hc : c ∈ r.children) (hm : m ∈ c.preorder) :
    r.isOpen stops m = (!stops r && c.isOpen stops m) := by
  rw [Bool.eq_iff_iff, Bool.and_eq_true, Bool.not_eq_true', isOpen_iff, isOpen_iff]
  constructor
  · intro h
    exact ⟨h r r.mem_preorder_self (isAbove_of_mem hc hm),
      fun a ha => h a (preorder_subset_of_mem_children hc ha)⟩
  · rintro ⟨hr, h⟩ a ha habove
    rcases mem_preorder_iff.mp ha with rfl | ⟨d, hd, had⟩
    · exact hr
    · obtain rfl := child_eq_of_isAbove hc hd hm had habove
      exact h a had habove

theorem reached_congr (h : ∀ a ∈ r.preorder, stops a = stops' a) :
    r.reached stops = r.reached stops' := by
  refine List.filter_congr fun m _ => ?_
  rw [Bool.eq_iff_iff, isOpen_iff, isOpen_iff]
  exact forall₂_congr fun a ha => by rw [h a ha]

/-- The root is always reached; whatever else is reached, is so from a child. -/
theorem reached_eq (stops : NodeRef → Bool) (r : NodeRef) :
    r.reached stops = r :: if stops r then [] else r.children.flatMap (reached stops) := by
  have hchildren : (r.children.flatMap preorder).filter (r.isOpen stops) =
      r.children.flatMap fun c => c.preorder.filter fun m => !stops r && c.isOpen stops m := by
    rw [List.filter_flatMap]
    exact List.flatMap_congr fun c hc => List.filter_congr fun m hm => isOpen_child hc hm
  rw [reached, preorder_eq, List.filter_cons_of_pos (isOpen_root stops r), hchildren]
  cases hstop : stops r with
  | true => simp
  | false =>
    simp only [Bool.not_false, Bool.true_and, Bool.false_eq_true, if_false]
    rfl

end NodeRef

/-! ## Records -/

/-- A call to a visitor, with its answer if a node is entered. -/
inductive Visit where
  | enter (r : NodeRef) (answer : Descent)
  | leave (r : NodeRef)

namespace Visit

/-- The node that a call is about. -/
def node : Visit → NodeRef
  | enter r _ => r
  | leave r => r

@[simp] theorem node_enter (r : NodeRef) (answer : Descent) : (enter r answer).node = r := rfl

@[simp] theorem node_leave (r : NodeRef) : (leave r).node = r := rfl

/-- The calls about nodes below some node, in order. -/
def below (m : NodeRef) (calls : List Visit) : List Visit :=
  calls.filter fun call => m.isAbove call.node

@[simp] theorem below_nil {m : NodeRef} : below m [] = [] := rfl

@[simp] theorem below_cons {m : NodeRef} {call : Visit} {calls : List Visit} :
    below m (call :: calls) =
      if m.isAbove call.node then call :: below m calls else below m calls :=
  List.filter_cons

@[simp] theorem below_append {m : NodeRef} {calls rest : List Visit} :
    below m (calls ++ rest) = below m calls ++ below m rest :=
  List.filter_append _ _

/-- The nodes entered, in order. -/
def entered (calls : List Visit) : List NodeRef :=
  calls.filterMap fun
    | enter r _ => some r
    | leave _ => none

/-- The nodes for which the visitor gave some answer, in order. -/
def answered (answer : Descent) (calls : List Visit) : List NodeRef :=
  calls.filterMap fun
    | enter r given => if given = answer then some r else none
    | leave _ => none

/-- The nodes left, in order. -/
def left (calls : List Visit) : List NodeRef :=
  calls.filterMap fun
    | enter _ _ => none
    | leave r => some r

theorem mem_answered {answer : Descent} {calls : List Visit} {r : NodeRef} :
    r ∈ answered answer calls ↔ enter r answer ∈ calls := by
  rw [answered, List.mem_filterMap]
  constructor
  · rintro ⟨call, hcall, h⟩
    cases call with
    | enter m given =>
      obtain ⟨rfl, hm⟩ := Option.ite_none_right_eq_some.mp h
      cases hm
      exact hcall
    | leave m => cases h
  · intro h
    exact ⟨_, h, if_pos rfl⟩

/-- Every node that is entered gets one of the two answers. -/
theorem entered_perm (calls : List Visit) :
    (entered calls).Perm (answered .skip calls ++ answered .children calls) := by
  induction calls with
  | nil => rfl
  | cons call calls ih =>
    cases call with
    | enter r answer =>
      cases answer with
      | children => exact (ih.cons r).trans List.perm_middle.symm
      | skip => exact ih.cons r
    | leave r => exact ih

end Visit

/-- The visitor, with a record of its calls. -/
def Visitor.recorded (v : Visitor σ) : Visitor (σ × List Visit) where
  enter r s := ((v.enter r s.1).1, (v.enter r s.1).2, s.2 ++ [.enter r (v.enter r s.1).1])
  leave r s := (v.leave r s.1, s.2 ++ [.leave r])

theorem Visitor.recorded_enter {v : Visitor σ} {r : NodeRef} {s t : σ} {answer : Descent}
    (h : v.enter r s = (answer, t)) (log : List Visit) :
    v.recorded.enter r (s, log) = (answer, t, log ++ [.enter r answer]) := by
  simp [recorded, h]

theorem Visitor.recorded_leave {v : Visitor σ} {r : NodeRef} {s : σ} {log : List Visit} :
    v.recorded.leave r (s, log) = (v.leave r s, log ++ [.leave r]) := rfl

/-- The state after a call, if the visitor answers as recorded. -/
def Visitor.replay (v : Visitor σ) (s : σ) : Visit → Option σ
  | .enter r answer => if (v.enter r s).1 = answer then some (v.enter r s).2 else none
  | .leave r => some (v.leave r s)

namespace NodeRef

open Visit

variable {σ : Type u} {v : Visitor σ} {s t : σ}

theorem walk_of_skip {r : NodeRef} (h : v.enter r s = (.skip, t)) : r.walk v s = t := by
  rw [walk_eq, h]

theorem walk_of_children {r : NodeRef} (h : v.enter r s = (.children, t)) :
    r.walk v s = v.leave r (r.children.foldl (fun s c => c.walk v s) t) := by
  rw [walk_eq, h]

/-- What no call to a visitor breaks, no walk breaks. -/
theorem walk_invariant {P : σ → Prop} (henter : ∀ r s, P s → P (v.enter r s).2)
    (hleave : ∀ r s, P s → P (v.leave r s)) (r : NodeRef) (h : P s) : P (r.walk v s) := by
  induction r using NodeRef.induction generalizing s with
  | step r ih =>
    have hentered := henter r s h
    cases hanswer : v.enter r s with
    | mk answer t =>
      rw [hanswer] at hentered
      cases answer with
      | skip => rwa [walk_of_skip hanswer]
      | children =>
        rw [walk_of_children hanswer]
        exact hleave r _ (List.foldlRecOn _ _ hentered fun t ht c hc => ih c hc ht)

/-- The calls that a visitor gets on a walk. -/
def visits (v : Visitor σ) (r : NodeRef) (s : σ) : List Visit :=
  (r.walk v.recorded (s, [])).2

/-- Children that are led through by a visitor with a record add their calls to it, each those of
the state in which the walk comes to it. -/
theorem foldl_walk_recorded (v : Visitor σ) {cs : List NodeRef} (hcs : cs.Nodup)
    (h : ∀ c ∈ cs, ∀ s log, c.walk v.recorded (s, log) = (c.walk v s, log ++ c.visits v s))
    (s : σ) :
    ∃ f : NodeRef → σ, ∀ log,
      cs.foldl (fun s c => c.walk v.recorded s) (s, log) =
        (cs.foldl (fun s c => c.walk v s) s, log ++ cs.flatMap fun c => c.visits v (f c)) := by
  classical
  -- No child comes twice, so that each has one state in which the walk comes to it.
  induction cs generalizing s with
  | nil => exact ⟨fun _ => s, by simp⟩
  | cons c cs ih =>
    obtain ⟨hc, hcs⟩ := List.nodup_cons.mp hcs
    rw [List.forall_mem_cons] at h
    obtain ⟨f, hf⟩ := ih hcs h.2 (c.walk v s)
    refine ⟨Function.update f c s, fun log => ?_⟩
    have hrest : (cs.flatMap fun d => d.visits v (Function.update f c s d)) =
        cs.flatMap fun d => d.visits v (f d) :=
      List.flatMap_congr fun d hd => by
        rw [Function.update_of_ne (ne_of_mem_of_not_mem hd hc)]
    rw [List.foldl_cons, List.foldl_cons, h.1, hf, List.flatMap_cons, Function.update_self, hrest,
      List.append_assoc]

/-- Keeping a record changes nothing else. -/
theorem walk_recorded (v : Visitor σ) (r : NodeRef) (s : σ) (log : List Visit) :
    r.walk v.recorded (s, log) = (r.walk v s, log ++ r.visits v s) := by
  induction r using NodeRef.induction generalizing s log with
  | step r ih =>
    cases hanswer : v.enter r s with
    | mk answer t =>
      have henter := Visitor.recorded_enter hanswer
      cases answer with
      | skip => simp [visits, walk_of_skip (henter _), walk_of_skip hanswer]
      | children =>
        obtain ⟨f, hf⟩ := foldl_walk_recorded v r.nodup_children ih t
        simp [visits, walk_of_children (henter _), walk_of_children hanswer, hf,
          Visitor.recorded_leave]

/-- A walk enters its root. Either that is all, or it goes through the children, in the states in
which it comes to them, and then leaves the root. -/
theorem visits_cases (v : Visitor σ) (r : NodeRef) (s : σ) :
    r.visits v s = [.enter r .skip] ∨
      ∃ f : NodeRef → σ, r.visits v s =
        .enter r .children :: (r.children.flatMap (fun c => c.visits v (f c)) ++ [.leave r]) := by
  cases hanswer : v.enter r s with
  | mk answer t =>
    have henter := Visitor.recorded_enter hanswer
    cases answer with
    | skip => exact .inl (by simp [visits, walk_of_skip (henter _)])
    | children =>
      obtain ⟨f, hf⟩ :=
        foldl_walk_recorded v r.nodup_children (fun c _ => c.walk_recorded v) t
      exact .inr ⟨f, by simp [visits, walk_of_children (henter _), hf, Visitor.recorded_leave]⟩

/-- The visitor itself gets the recorded calls, one after the other, and answers as recorded. -/
theorem foldlM_replay_visits (v : Visitor σ) (r : NodeRef) (s : σ) :
    (r.visits v s).foldlM v.replay s = some (r.walk v s) := by
  have hreplay : (r.walk v.recorded (s, [])).2.foldlM v.replay s =
      some (r.walk v.recorded (s, [])).1 := by
    refine walk_invariant (P := fun t : σ × List Visit => t.2.foldlM v.replay s = some t.1)
      ?_ ?_ r rfl
    · intro m t ht
      simp [Visitor.recorded, ht, Visitor.replay]
    · intro m t ht
      simp [Visitor.recorded, ht, Visitor.replay]
  rwa [walk_recorded] at hreplay

/-! ## What is called, and when -/

/-- All calls are about nodes of the tree. -/
theorem node_mem_of_mem_visits {r : NodeRef} {call : Visit} (h : call ∈ r.visits v s) :
    call.node ∈ r.preorder := by
  induction r using NodeRef.induction generalizing s with
  | step r ih =>
    rcases visits_cases v r s with hskip | ⟨f, hcalls⟩
    · rw [hskip, List.mem_singleton] at h
      subst h
      exact r.mem_preorder_self
    · rw [hcalls, List.mem_cons, List.mem_append, List.mem_flatMap, List.mem_singleton] at h
      rcases h with rfl | ⟨c, hc, hcall⟩ | rfl
      · exact r.mem_preorder_self
      · exact preorder_subset_of_mem_children hc (ih c hc hcall)
      · exact r.mem_preorder_self

theorem mem_preorder_of_answered {m r : NodeRef} {answer : Descent}
    (h : m ∈ answered answer (r.visits v s)) : m ∈ r.preorder :=
  node_mem_of_mem_visits (mem_answered.mp h)

/-- No answer is about the parent while the walk is below its children. -/
theorem any_answered_root (r : NodeRef) (answer : Descent) (f : NodeRef → σ) :
    (r.children.flatMap fun c => answered answer (c.visits v (f c))).any r.same = false := by
  rw [List.any_eq_false]
  intro m hm
  obtain ⟨c, hc, hm⟩ := List.mem_flatMap.mp hm
  rw [same_iff]
  exact (address_ne_of_mem_preorder_child hc (mem_preorder_of_answered hm)).symm

/-- The answer about a node below a child is given while the walk is below that child. -/
theorem any_answered_child {c m r : NodeRef} (answer : Descent) (f : NodeRef → σ)
    (hc : c ∈ r.children) (hm : m ∈ c.preorder) :
    (answered answer (c.visits v (f c))).any m.same =
      (r.children.flatMap fun d => answered answer (d.visits v (f d))).any m.same := by
  rw [Bool.eq_iff_iff, List.any_eq_true, List.any_eq_true]
  constructor
  · rintro ⟨n, hn, hsame⟩
    exact ⟨n, List.mem_flatMap.mpr ⟨c, hc, hn⟩, hsame⟩
  · rintro ⟨n, hn, hsame⟩
    obtain ⟨d, hd, hn⟩ := List.mem_flatMap.mp hn
    have hcovers : d.covers m = true :=
      covers_iff.mpr ⟨n, mem_preorder_of_answered hn, (same_iff.mp hsame).symm⟩
    obtain rfl := child_eq_of_covers hc hd (covers_of_mem hm) hcovers
    exact ⟨n, hn, hsame⟩

/-- Nodes are entered in pre-order, those below skipped nodes apart. -/
theorem entered_visits (v : Visitor σ) (r : NodeRef) (s : σ) :
    entered (r.visits v s) = r.reached fun a => (answered .skip (r.visits v s)).any a.same := by
  induction r using NodeRef.induction generalizing s with
  | step r ih =>
    rcases visits_cases v r s with hskip | ⟨f, hcalls⟩
    · rw [reached_eq, hskip]
      simp [entered, answered, same]
    · have hentered : entered (r.visits v s) =
          r :: r.children.flatMap fun c => entered (c.visits v (f c)) := by
        simp [entered, hcalls, List.filterMap_flatMap]
      have hskipped : answered .skip (r.visits v s) =
          r.children.flatMap fun c => answered .skip (c.visits v (f c)) := by
        simp [answered, hcalls, List.filterMap_flatMap]
      rw [hentered, hskipped, reached_eq, any_answered_root, if_neg Bool.false_ne_true]
      congr 1
      refine List.flatMap_congr fun c hc => ?_
      rw [ih c hc]
      exact reached_congr fun a ha => any_answered_child .skip f hc ha

theorem nodup_entered_visits (v : Visitor σ) (r : NodeRef) (s : σ) :
    ((entered (r.visits v s)).map (·.address)).Nodup := by
  rw [entered_visits]
  exact r.nodup_address_preorder.sublist (List.filter_sublist.map _)

/-- The nodes that are left are those with the answer to go on to their children. -/
theorem left_visits_perm (v : Visitor σ) (r : NodeRef) (s : σ) :
    (left (r.visits v s)).Perm (answered .children (r.visits v s)) := by
  induction r using NodeRef.induction generalizing s with
  | step r ih =>
    rcases visits_cases v r s with hskip | ⟨f, hcalls⟩
    · rw [hskip]
      exact .refl []
    · have hchildren : (r.children.flatMap fun c => left (c.visits v (f c))).Perm
          (r.children.flatMap fun c => answered .children (c.visits v (f c))) :=
        List.Perm.flatMap_left _ fun c hc => ih c hc (f c)
      rw [hcalls]
      simpa [left, answered, List.filterMap_flatMap] using
        (List.perm_append_singleton r _).trans (hchildren.cons r)

/-- All calls on the walk through the children of a node are about nodes below it. -/
theorem below_visits_children (r : NodeRef) (f : NodeRef → σ) :
    below r (r.children.flatMap fun c => c.visits v (f c)) =
      r.children.flatMap fun c => c.visits v (f c) := by
  rw [below, List.filter_eq_self]
  intro call hcall
  obtain ⟨c, hc, hcall⟩ := List.mem_flatMap.mp hcall
  exact isAbove_of_mem hc (node_mem_of_mem_visits hcall)

/-- No call on the walk through other children is about a node below a node of a child. -/
theorem below_visits_others {c m r : NodeRef} {cs : List NodeRef} (f : NodeRef → σ)
    (hc : c ∈ r.children) (hm : m ∈ c.preorder) (hcs : ∀ d ∈ cs, d ∈ r.children ∧ d ≠ c) :
    below m (cs.flatMap fun d => d.visits v (f d)) = [] := by
  rw [below, List.filter_eq_nil_iff]
  intro call hcall habove
  obtain ⟨d, hd, hcall⟩ := List.mem_flatMap.mp hcall
  obtain ⟨hd, hne⟩ := hcs d hd
  exact hne (child_eq_of_isAbove hd hc (node_mem_of_mem_visits hcall) hm habove)

/-- Between entering and leaving a node come all calls about nodes below it, and no others. -/
theorem visits_between {m r : NodeRef} (h : .enter m .children ∈ r.visits v s) :
    ∃ before after, r.visits v s =
      before ++ .enter m .children :: (below m (r.visits v s) ++ .leave m :: after) := by
  induction r using NodeRef.induction generalizing s with
  | step r ih =>
    rcases visits_cases v r s with hskip | ⟨f, hcalls⟩
    · rw [hskip] at h
      simp at h
    · have hroot : m.isAbove r = false := isAbove_root (node_mem_of_mem_visits h)
      rw [hcalls, List.mem_cons, List.mem_append, List.mem_flatMap] at h
      rcases h with heq | ⟨c, hc, hmc⟩ | hleave
      · cases heq
        exact ⟨[], [], by simp [hcalls, below_visits_children, hroot]⟩
      · -- Only the walk below the child with `m` has calls about nodes below `m`.
        obtain ⟨before, after, hpart⟩ := ih c hc hmc
        obtain ⟨cs, ds, hsplit⟩ := List.append_of_mem hc
        have hnodup := r.nodup_children
        rw [hsplit, List.nodup_middle, List.nodup_cons] at hnodup
        have hothers : ∀ d ∈ cs ++ ds, d ∈ r.children ∧ d ≠ c := by
          intro d hd
          refine ⟨?_, ne_of_mem_of_not_mem hd hnodup.1⟩
          rw [hsplit, List.mem_append, List.mem_cons]
          rcases List.mem_append.mp hd with hd | hd
          · exact .inl hd
          · exact .inr (.inr hd)
        have hmc : m ∈ c.preorder := node_mem_of_mem_visits hmc
        have hcs : below m (cs.flatMap fun d => d.visits v (f d)) = [] :=
          below_visits_others f hc hmc fun d hd => hothers d (List.mem_append_left _ hd)
        have hds : below m (ds.flatMap fun d => d.visits v (f d)) = [] :=
          below_visits_others f hc hmc fun d hd => hothers d (List.mem_append_right _ hd)
        have hbelow : below m (r.visits v s) = below m (c.visits v (f c)) := by
          simp [hcalls, hsplit, hroot, hcs, hds]
        refine ⟨.enter r .children :: cs.flatMap (fun d => d.visits v (f d)) ++ before,
          after ++ ds.flatMap (fun d => d.visits v (f d)) ++ [.leave r], ?_⟩
        rw [hbelow, hcalls, hsplit, List.flatMap_append, List.flatMap_cons]
        nth_rewrite 1 [hpart]
        simp only [List.append_assoc, List.cons_append]
      · simp at hleave

/-- A function whose answers depend on the node alone is led to the nodes above which it answers
`true`, in pre-order. -/
theorem inspect_eq_foldl_reached (p : NodeRef → Bool) (g : NodeRef → σ → σ) (r : NodeRef) (s : σ) :
    r.inspect (fun m t => (p m, g m t)) s =
      (r.reached fun m => !p m).foldl (fun t m => g m t) s := by
  induction r using NodeRef.induction generalizing s with
  | step r ih =>
    rw [reached_eq, List.foldl_cons, inspect]
    cases hp : p r with
    | false =>
      rw [walk_of_skip (by simp only [hp]; rfl)]
      rfl
    | true =>
      rw [walk_of_children (by simp only [hp]; rfl)]
      simp only [Bool.not_true, Bool.false_eq_true, if_false, List.foldl_flatMap]
      exact List.foldl_ext _ _ _ fun t c hc => ih c hc t

end NodeRef

/-- What a visitor can rely on, whatever it answers. -/
structure Visit.Protocol (r : NodeRef) (calls : List Visit) : Prop where
  /-- Nodes are entered in pre-order, except those with a skipped node above them. -/
  entered_eq : entered calls = r.reached fun a => (answered .skip calls).any a.same
  /-- No node is entered twice. -/
  entered_once : ((entered calls).map (·.address)).Nodup
  /-- The nodes left are those whose children were asked for. -/
  left_perm : (left calls).Perm (answered .children calls)
  /-- No node is left twice, and none that was skipped is left. -/
  left_once : ((answered .skip calls ++ left calls).map (·.address)).Nodup
  /-- The calls between entering and leaving a node are those about nodes below it. -/
  between : ∀ m ∈ answered .children calls, ∃ before after,
    calls = before ++ .enter m .children :: (below m calls ++ .leave m :: after)

namespace NodeRef

open Visit

theorem protocol_visits (v : Visitor σ) (r : NodeRef) (s : σ) : Protocol r (r.visits v s) where
  entered_eq := r.entered_visits v s
  entered_once := r.nodup_entered_visits v s
  left_perm := r.left_visits_perm v s
  left_once := by
    have hperm : (entered (r.visits v s)).Perm
        (answered .skip (r.visits v s) ++ left (r.visits v s)) :=
      (entered_perm _).trans ((r.left_visits_perm v s).symm.append_left _)
    exact (hperm.map _).nodup_iff.mp (r.nodup_entered_visits v s)
  between m hm := visits_between (mem_answered.mp hm)

/-- Every visitor is led through a tree by the same rules, whatever its answers depend on, and so is
a function on nodes. -/
theorem walk_protocol (v : Visitor σ) (r : NodeRef) (s : σ) :
    r.walk v.recorded (s, []) = (r.walk v s, r.visits v s) ∧
      (r.visits v s).foldlM v.replay s = some (r.walk v s) ∧
      Protocol r (r.visits v s) ∧
      ∀ (p : NodeRef → Bool) (g : NodeRef → σ → σ),
        r.inspect (fun m t => (p m, g m t)) s =
          (r.reached fun m => !p m).foldl (fun t m => g m t) s :=
  ⟨r.walk_recorded v s [], r.foldlM_replay_visits v s, r.protocol_visits v s,
    fun p g => r.inspect_eq_foldl_reached p g s⟩

end NodeRef

end SqlScript
