import SqlScript.Proofs.Tree.DataType
import SqlScript.Proofs.Tree.Dashes
import SqlScript.Proofs.Tree.Timestamp

/-!
# Blanks and parentheses

A text is in good form if it has blanks only between other characters, never two in a row, and if
every parenthesis in it has its counterpart. Whether it is can be told in one pass, which remembers
the last character and the number of open parentheses:

* `WellFormed`: the texts in good form;
* `TextState.scan`: the pass;
* `Tidy.wellFormed`: what the pass accepts is in good form;
* `Tidy.scan`: what the pass accepts may stand in for one character that is no blank;
* `LiteralValue.tidy_text`, `BuiltinType.tidy_fragments`, …: the tokens of SQL are accepted, if the
  names and strings among them have neither blanks nor parentheses.
-/

namespace SqlScript

open Decimal

/-- A text in good form: blanks stand alone and between other characters, and parentheses match. -/
structure WellFormed (cs : List Char) : Prop where
  ne_nil : cs ≠ []
  head?_ne : cs.head? ≠ some ' '
  getLast?_ne : cs.getLast? ≠ some ' '
  blanks_apart : ¬ [' ', ' '] <:+: cs
  closed_opened : ∀ front, front <+: cs → front.count ')' ≤ front.count '('
  opened_closed : cs.count '(' = cs.count ')'

/-! ## Reading a text -/

/-- What is remembered of a text up to some place. -/
structure TextState where
  /-- Whether a blank may not follow: the last character is one, or there is none. -/
  atBlank : Bool
  /-- The number of parentheses that are still open. -/
  depth : Nat
  deriving DecidableEq, Repr

namespace TextState

/-- In front of a text. -/
def start : TextState := ⟨true, 0⟩

/-- Behind a text in good form. -/
def done : TextState := ⟨false, 0⟩

/-- Reads one more character, unless it is a blank too many or a parenthesis that was not opened. -/
def step (s : TextState) (c : Char) : Option TextState :=
  if c = ' ' then if s.atBlank then none else some ⟨true, s.depth⟩
  else if c = '(' then some ⟨false, s.depth + 1⟩
  else if c = ')' then if s.depth = 0 then none else some ⟨false, s.depth - 1⟩
  else some ⟨false, s.depth⟩

/-- Reads a text. -/
def scan (s : TextState) (cs : List Char) : Option TextState :=
  cs.foldlM step s

variable {s t : TextState} {c : Char} {cs ds : List Char}

@[simp] theorem scan_nil : s.scan [] = some s := rfl

@[simp] theorem scan_cons : s.scan (c :: cs) = (s.step c).bind (·.scan cs) := rfl

@[simp] theorem scan_append : s.scan (cs ++ ds) = (s.scan cs).bind (·.scan ds) :=
  List.foldlM_append

/-- Where a text can be read, so can its beginning. -/
theorem exists_scan_of_append (h : s.scan (cs ++ ds) = some t) :
    ∃ u, s.scan cs = some u ∧ u.scan ds = some t := by
  rw [scan_append] at h
  exact Option.bind_eq_some_iff.mp h

/-- The parentheses that are open behind a character are those that were open in front of it, with
it counted. -/
theorem depth_step (h : s.step c = some t) :
    t.depth + [c].count ')' = s.depth + [c].count '(' := by
  unfold step at h
  by_cases hblank : c = ' '
  · subst hblank
    rw [if_pos rfl, Option.ite_none_left_eq_some] at h
    cases h.2
    rfl
  · by_cases hopen : c = '('
    · subst hopen
      cases h
      rfl
    · by_cases hclose : c = ')'
      · subst hclose
        rw [if_neg (by decide), if_neg (by decide), if_pos rfl, Option.ite_none_left_eq_some] at h
        obtain ⟨hdepth, h⟩ := h
        cases h
        show s.depth - 1 + 1 = s.depth + 0
        omega
      · rw [if_neg hblank, if_neg hopen, if_neg hclose] at h
        cases h
        simp [hopen, hclose]

/-- So it is with a whole text. -/
theorem depth_scan (h : s.scan cs = some t) : t.depth + cs.count ')' = s.depth + cs.count '(' := by
  induction cs generalizing s with
  | nil =>
    cases h
    rfl
  | cons c cs ih =>
    obtain ⟨u, hu, ht⟩ := Option.bind_eq_some_iff.mp h
    have hhead := depth_step hu
    have htail := ih ht
    rw [← List.singleton_append, List.count_append, List.count_append]
    omega

/-- Behind a blank comes no other. -/
theorem step_blank (h : s.step ' ' = some t) : s.atBlank = false ∧ t.atBlank = true := by
  simp only [step, if_true, Option.ite_none_left_eq_some, Option.some.injEq] at h
  obtain ⟨hs, rfl⟩ := h
  exact ⟨by simpa using hs, rfl⟩

end TextState

open TextState

/-- A text that can be read from its front to its end, with nothing left open. -/
def Tidy (cs : List Char) : Prop :=
  start.scan cs = some done

instance (cs : List Char) : Decidable (Tidy cs) :=
  inferInstanceAs (Decidable (_ = _))

namespace Tidy

variable {cs : List Char}

theorem ne_nil (h : Tidy cs) : cs ≠ [] := by
  rintro rfl
  cases h

theorem wellFormed (h : Tidy cs) : WellFormed cs where
  ne_nil := h.ne_nil
  head?_ne := by
    intro hhead
    obtain ⟨rest, rfl⟩ := List.head?_eq_some_iff.mp hhead
    cases h
  getLast?_ne := by
    intro hlast
    obtain ⟨front, rfl⟩ := List.getLast?_eq_some_iff.mp hlast
    obtain ⟨u, -, hu⟩ := exists_scan_of_append h
    obtain ⟨v, hv, hdone⟩ := Option.bind_eq_some_iff.mp hu
    cases hdone
    cases (step_blank hv).2
  blanks_apart := by
    rintro ⟨front, back, rfl⟩
    obtain ⟨u, hu, -⟩ := exists_scan_of_append h
    obtain ⟨v, -, hv⟩ := exists_scan_of_append hu
    obtain ⟨w, hfirst, hw⟩ := Option.bind_eq_some_iff.mp hv
    obtain ⟨x, hsecond, -⟩ := Option.bind_eq_some_iff.mp hw
    have hone := (step_blank hfirst).2
    rw [(step_blank hsecond).1] at hone
    cases hone
  closed_opened := by
    rintro front ⟨back, rfl⟩
    obtain ⟨u, hu, -⟩ := exists_scan_of_append h
    have hdepth := depth_scan hu
    simp only [start] at hdepth
    omega
  opened_closed := by
    have hdepth := depth_scan h
    simp only [start, done] at hdepth
    omega

end Tidy

namespace TextState

variable {s t : TextState} {c : Char} {cs : List Char}

/-! ## Texts inside of texts -/

/-- What can be read at some depth can be read deeper down. -/
theorem scan_add (k : Nat) (h : s.scan cs = some t) :
    scan ⟨s.atBlank, s.depth + k⟩ cs = some ⟨t.atBlank, t.depth + k⟩ := by
  induction cs generalizing s with
  | nil =>
    cases h
    rfl
  | cons c cs ih =>
    obtain ⟨u, hu, ht⟩ := Option.bind_eq_some_iff.mp h
    rw [scan_cons, Option.bind_eq_some_iff]
    refine ⟨_, ?_, ih ht⟩
    unfold step at hu ⊢
    grind

/-- What can be read at the front of a text can be read behind any character. -/
theorem step_of_atBlank (h : step ⟨true, s.depth⟩ c = some t) : s.step c = some t := by
  unfold step at h ⊢
  grind

end TextState

/-- A tidy text may stand wherever a character may that is no blank, and changes as little. -/
theorem Tidy.scan {cs : List Char} (h : Tidy cs) (s : TextState) :
    s.scan cs = some ⟨false, s.depth⟩ := by
  have hdeep := scan_add s.depth h
  simp only [start, done, Nat.zero_add] at hdeep
  obtain ⟨c, cs, rfl⟩ := List.exists_cons_of_ne_nil h.ne_nil
  obtain ⟨u, hu, hrest⟩ := Option.bind_eq_some_iff.mp hdeep
  rw [scan_cons, step_of_atBlank hu]
  exact hrest

/-! ## Plain texts -/

/-- A text without blanks and parentheses. -/
def Unspaced (cs : List Char) : Prop :=
  ∀ c ∈ cs, c ≠ ' ' ∧ c ≠ '(' ∧ c ≠ ')'

theorem Unspaced.scan {cs : List Char} (h : Unspaced cs) (s : TextState) :
    s.scan cs = some (if cs = [] then s else ⟨false, s.depth⟩) := by
  induction cs generalizing s with
  | nil => rfl
  | cons c cs ih =>
    obtain ⟨hblank, hopen, hclose⟩ := h c List.mem_cons_self
    have hstep : s.step c = some ⟨false, s.depth⟩ := by simp [step, hblank, hopen, hclose]
    rw [scan_cons, hstep, Option.bind_some, ih fun d hd => h d (List.mem_cons_of_mem _ hd)]
    simp

theorem Unspaced.tidy {cs : List Char} (h : Unspaced cs) (hne : cs ≠ []) : Tidy cs := by
  rw [Tidy, h.scan, if_neg hne]
  rfl

/-- Behind a character that is no blank, a plain text changes nothing. -/
theorem Unspaced.scan_false {cs : List Char} (h : Unspaced cs) (d : Nat) :
    TextState.scan ⟨false, d⟩ cs = some ⟨false, d⟩ := by
  rw [h.scan]
  split <;> rfl

theorem Unspaced.of_forall {p : Char → Prop} {cs : List Char} (h : ∀ c ∈ cs, p c)
    (hp : ¬ p ' ' ∧ ¬ p '(' ∧ ¬ p ')') : Unspaced cs := fun c hc =>
  ⟨fun e => hp.1 (e ▸ h c hc), fun e => hp.2.1 (e ▸ h c hc), fun e => hp.2.2 (e ▸ h c hc)⟩

theorem unspaced_digits (n : Nat) : Unspaced (digits n) :=
  .of_forall (fun _ => isDigit_of_mem_digits) (by decide)

/-! ## Keywords and types -/

@[simp] theorem FrameUnits.scan_text (u : FrameUnits) (s : TextState) :
    s.scan u.text.toList = some ⟨false, s.depth⟩ :=
  Tidy.scan (by cases u <;> decide) s

@[simp] theorem SetOperator.scan_text (op : SetOperator) (s : TextState) :
    s.scan op.text.toList = some ⟨false, s.depth⟩ :=
  Tidy.scan (by cases op <;> decide) s

@[simp] theorem SortDirection.scan_text (d : SortDirection) (s : TextState) :
    s.scan d.text.toList = some ⟨false, s.depth⟩ :=
  Tidy.scan (by cases d <;> decide) s

@[simp] theorem JoinKind.scan_text (k : JoinKind) (s : TextState) :
    s.scan k.text.toList = some ⟨false, s.depth⟩ :=
  Tidy.scan (by cases k <;> decide) s

@[simp] theorem FileFormat.scan_text (f : FileFormat) (s : TextState) :
    s.scan f.text.toList = some ⟨false, s.depth⟩ :=
  Tidy.scan (by cases f <;> decide) s

@[simp] theorem OperatorKind.scan_text (op : OperatorKind) (s : TextState) :
    s.scan op.text.toList = some ⟨false, s.depth⟩ :=
  Tidy.scan (by cases op <;> decide) s

/-- A number may stand in front of a word. -/
theorem tidy_ofNat_append (n : Nat) {word : String}
    (h : TextState.scan ⟨false, 0⟩ word.toList = some done) : Tidy (ofNat n ++ word).toList := by
  rw [Tidy, String.toList_append, scan_append, toList_ofNat, (unspaced_digits n).scan,
    if_neg (digits_ne_nil n)]
  exact h

theorem FrameBoundKind.tidy_text (b : FrameBoundKind) : Tidy b.text.toList := by
  match b with
  | currentRow | preceding none | following none => decide
  | preceding (some n) | following (some n) => exact tidy_ofNat_append n.toNat (by decide)

@[simp] theorem FrameBoundKind.scan_text (b : FrameBoundKind) (s : TextState) :
    s.scan b.text.toList = some ⟨false, s.depth⟩ :=
  b.tidy_text.scan s

namespace BuiltinType

theorem scan_argsRest (ns : List UInt32) (d : Nat) :
    TextState.scan ⟨false, d + 1⟩ (argsRest ns) = some ⟨false, d⟩ := by
  induction ns with
  | nil => rfl
  | cons n ns ih =>
    rw [argsRest, scan_cons, show step ⟨false, d + 1⟩ ',' = some ⟨false, d + 1⟩ from rfl,
      Option.bind_some, scan_append, (unspaced_digits n.toNat).scan_false]
    exact ih

theorem scan_argsText (ns : List UInt32) (d : Nat) :
    TextState.scan ⟨false, d⟩ (argsText ns) = some ⟨false, d⟩ := by
  cases ns with
  | nil => rfl
  | cons n ns =>
    rw [argsText, scan_cons, show step ⟨false, d⟩ '(' = some ⟨false, d + 1⟩ from rfl,
      Option.bind_some, scan_append, (unspaced_digits n.toNat).scan_false]
    exact scan_argsRest ns d

theorem tidy_fragments (type : BuiltinType) : Tidy (type.fragments.flatMap String.toList) := by
  have hnames : ∀ n ∈ names, Tidy n.toList := by decide
  have hname := (hnames type.name type.name_mem_names).scan start
  rw [Tidy, toList_fragments, scan_append, hname]
  exact scan_argsText type.args 0

end BuiltinType

/-! ## Literals -/

theorem Date.unspaced_text (d : Date) : Unspaced d.text.toList :=
  .of_forall (fun _ => mem_text) (by decide)

theorem TimeOfDay.unspaced_text (t : TimeOfDay) : Unspaced t.text.toList :=
  .of_forall (fun _ => mem_text) (by decide)

theorem Timestamp.unspaced_offsetText (offset : Int) : Unspaced (offsetText offset).toList := by
  have hmem : ∀ c ∈ (offsetText offset).toList,
      c.isDigit = true ∨ c = '-' ∨ c = '+' ∨ c = ':' := by
    intro c hc
    rw [toList_offsetText] at hc
    simp only [List.mem_cons, List.mem_append] at hc
    rcases hc with rfl | hc | rfl | hc
    · split <;> simp
    · exact .inl (isDigit_of_mem_paddedDigits hc)
    · simp
    · exact .inl (isDigit_of_mem_paddedDigits hc)
  exact .of_forall hmem (by decide)

/-- The only blank of a date-time has a day in front and a time behind it. -/
theorem DateTime.scan_text (dt : DateTime) (d : Nat) :
    TextState.scan ⟨false, d⟩ dt.text.toList = some ⟨false, d⟩ := by
  have htime : dt.time.text.toList ≠ [] := by simp [TimeOfDay.toList_text]
  rw [toList_text, scan_append, dt.date.unspaced_text.scan_false, Option.bind_some, scan_cons,
    show step ⟨false, d⟩ ' ' = some ⟨true, d⟩ from rfl, Option.bind_some,
    dt.time.unspaced_text.scan, if_neg htime]

theorem Timestamp.scan_text (ts : Timestamp) (d : Nat) :
    TextState.scan ⟨false, d⟩ ts.text.toList = some ⟨false, d⟩ := by
  rw [text, String.toList_append, scan_append, ts.clock.scan_text, Option.bind_some,
    (unspaced_offsetText ts.offset).scan_false]

namespace LiteralValue

/-- The word in front of a literal's quoted part, with the opening quote, and what is quoted. -/
def quoted? : LiteralValue → Option (String × String)
  | string s => some ("'", s)
  | nationalString s => some ("N'", s)
  | date d => some ("DATE '", d.text)
  | time t => some ("TIME '", t.text)
  | dateTime dt => some ("TIMESTAMP '", dt.text)
  | timestamp ts => some ("TIMESTAMP WITH TIME ZONE '", ts.text)
  | _ => none

theorem toList_text_of_quoted {v : LiteralValue} {word inner : String}
    (h : v.quoted? = some (word, inner)) :
    v.text.toList = word.toList ++ (inner.toList ++ ['\'']) := by
  cases v <;> cases h <;> simp [text, fragments]

theorem tidy_of_quoted {v : LiteralValue} {word inner : String}
    (h : v.quoted? = some (word, inner)) (hword : start.scan word.toList = some done)
    (hinner : done.scan inner.toList = some done) : Tidy v.text.toList := by
  rw [toList_text_of_quoted h, Tidy, scan_append, hword, Option.bind_some, scan_append, hinner]
  rfl

/-- A literal is tidy if what is between its quotes has neither blanks nor parentheses. -/
theorem tidy_text {v : LiteralValue} (h : ∀ s, v.spelling? = some s → Unspaced s.toList) :
    Tidy v.text.toList := by
  cases v with
  | integer n =>
    have hdigits := unspaced_digits n.toInt.natAbs
    rw [text_integer, toList_ofInt]
    split
    · refine Unspaced.tidy ?_ (List.cons_ne_nil _ _)
      exact List.forall_mem_cons.mpr ⟨by decide, hdigits⟩
    · exact hdigits.tidy (digits_ne_nil _)
  | float x =>
    have hunsigned : Tidy x.unsigned := by
      cases hx : x.isFinite with
      | true =>
        exact (Unspaced.of_forall (fun _ => Binary64.mem_unsigned hx) (by decide)).tidy
          (List.ne_nil_of_mem (Binary64.point_mem_unsigned hx))
      | false =>
        rw [Binary64.unsigned, hx, if_neg Bool.false_ne_true]
        decide
    rw [text_float, Binary64.toList_text]
    split
    · decide
    · split
      · rw [Tidy, scan_cons, show start.step '-' = some done from rfl, Option.bind_some]
        exact hunsigned.scan done
      · exact hunsigned
  | string s => exact tidy_of_quoted rfl (by decide) ((h s rfl).scan_false 0)
  | nationalString s => exact tidy_of_quoted rfl (by decide) ((h s rfl).scan_false 0)
  | boolean b => cases b <;> decide
  | date d => exact tidy_of_quoted rfl (by decide) (d.unspaced_text.scan_false 0)
  | time t => exact tidy_of_quoted rfl (by decide) (t.unspaced_text.scan_false 0)
  | dateTime dt => exact tidy_of_quoted rfl (by decide) (dt.scan_text 0)
  | timestamp ts => exact tidy_of_quoted rfl (by decide) (ts.scan_text 0)
  | null => decide

end LiteralValue

end SqlScript
