import SqlScript.Proofs.Tree.Literal

/-!
# Dashes in tokens

Two dashes in a row open a comment that runs to the end of the line. A literal may have many dashes,
but never two in a row, unless a string has: behind each comes a digit or the name of an infinity.
Of the keywords and symbols, only the minus sign has a dash at all.

* `opensComment_append`: two texts in a row open a comment if one of them does, or if dashes meet;
* `BuiltinType.dash_not_mem_fragments`, `OperatorKind.dash_mem_text`: dashes in types and operators;
* `LiteralValue.not_opensComment_text`: no literal opens a comment, if no dash is in a string;
* `LiteralValue.head?_text`: a literal starts with a dash exactly if it is a negative number.
-/

namespace SqlScript

open Decimal

/-- Somewhere in a text two dashes stand in a row. -/
def OpensComment (cs : List Char) : Prop :=
  ['-', '-'] <:+: cs

theorem not_opensComment_of_not_mem {cs : List Char} (h : '-' ∉ cs) : ¬ OpensComment cs :=
  fun hcs => h (hcs.subset List.mem_cons_self)

theorem opensComment_cons {c : Char} {cs : List Char} :
    OpensComment (c :: cs) ↔ c = '-' ∧ cs.head? = some '-' ∨ OpensComment cs := by
  unfold OpensComment
  rw [List.infix_cons_iff, List.cons_prefix_cons]
  refine or_congr_left (and_congr eq_comm ?_)
  cases cs <;> simp [eq_comm]

theorem opensComment_cons_of_ne {c : Char} (h : c ≠ '-') (cs : List Char) :
    OpensComment (c :: cs) ↔ OpensComment cs := by
  simp [opensComment_cons, h]

theorem opensComment_append {xs ys : List Char} :
    OpensComment (xs ++ ys) ↔
      OpensComment xs ∨ OpensComment ys ∨ xs.getLast? = some '-' ∧ ys.head? = some '-' := by
  induction xs with
  | nil => simp [OpensComment]
  | cons x xs ih =>
    rw [List.cons_append, opensComment_cons, opensComment_cons, ih]
    cases xs with
    | nil =>
      have hnil := not_opensComment_of_not_mem (List.not_mem_nil (a := '-'))
      simp only [List.nil_append, List.head?_nil, List.getLast?_nil, List.getLast?_singleton,
        Option.some.injEq, reduceCtorEq, hnil]
      tauto
    | cons x' xs =>
      simp only [List.cons_append, List.head?_cons, List.getLast?_cons_cons]
      tauto

theorem head?_ne_dash {cs : List Char} (h : '-' ∉ cs) : cs.head? ≠ some '-' := fun hcs =>
  h (List.mem_of_mem_head? hcs)

/-- What has no dash in it does not matter in front of a text. -/
theorem opensComment_append_of_not_mem {xs : List Char} (h : '-' ∉ xs) (ys : List Char) :
    OpensComment (xs ++ ys) ↔ OpensComment ys := by
  have hlast : xs.getLast? ≠ some '-' := fun hl => h (List.mem_of_getLast? hl)
  simp [opensComment_append, not_opensComment_of_not_mem h, hlast]

/-! ## Numbers -/

theorem dash_not_mem_digits (n : Nat) : '-' ∉ digits n := fun h =>
  absurd (isDigit_of_mem_digits h) (by decide)

theorem dash_not_mem_paddedDigits (w n : Nat) : '-' ∉ paddedDigits w n := fun h =>
  absurd (isDigit_of_mem_paddedDigits h) (by decide)

theorem opensComment_paddedDigits (w n : Nat) (cs : List Char) :
    OpensComment (paddedDigits w n ++ cs) ↔ OpensComment cs :=
  opensComment_append_of_not_mem (dash_not_mem_paddedDigits w n) cs

/-- Between a dash and what comes behind a number stands a digit. -/
theorem opensComment_dash_paddedDigits (w n : Nat) (cs : List Char) :
    OpensComment ('-' :: (paddedDigits w n ++ cs)) ↔ OpensComment cs := by
  have hhead : (paddedDigits w n ++ cs).head? ≠ some '-' := by
    rw [List.head?_append_of_ne_nil _ (paddedDigits_ne_nil w n)]
    exact head?_ne_dash (dash_not_mem_paddedDigits w n)
  rw [opensComment_cons, opensComment_paddedDigits]
  simp only [hhead, and_false, false_or]

/-- A dash in front of a text without dashes opens nothing. -/
theorem not_opensComment_dash {cs : List Char} (h : '-' ∉ cs) : ¬ OpensComment ('-' :: cs) := by
  rw [opensComment_cons]
  rintro (⟨-, hhead⟩ | hcs)
  · exact head?_ne_dash h hhead
  · exact not_opensComment_of_not_mem h hcs

/-! ## Dates and times -/

/-- The dashes of a day have digits behind them. -/
theorem Date.opensComment_text (d : Date) (cs : List Char) :
    OpensComment (d.text.toList ++ cs) ↔ OpensComment cs := by
  have hplus := opensComment_cons_of_ne (c := '+') (by decide)
  rw [toList_text, toList_yearText]
  split
  · simp [opensComment_dash_paddedDigits]
  · split
    · simp [hplus, opensComment_paddedDigits, opensComment_dash_paddedDigits]
    · simp [opensComment_paddedDigits, opensComment_dash_paddedDigits]

theorem TimeOfDay.dash_not_mem_text (t : TimeOfDay) : '-' ∉ t.text.toList := fun h =>
  absurd (mem_text h) (by decide)

theorem DateTime.opensComment_text (dt : DateTime) (cs : List Char) :
    OpensComment (dt.text.toList ++ cs) ↔ OpensComment cs := by
  have htime : '-' ∉ ' ' :: dt.time.text.toList := by
    simp [dt.time.dash_not_mem_text]
  rw [toList_text, List.append_assoc, Date.opensComment_text,
    opensComment_append_of_not_mem htime]

theorem Timestamp.opensComment_offsetText (offset : Int) (cs : List Char) :
    OpensComment ((offsetText offset).toList ++ cs) ↔ OpensComment cs := by
  have hplus := opensComment_cons_of_ne (c := '+') (by decide)
  have hcolon := opensComment_cons_of_ne (c := ':') (by decide)
  unfold offsetText
  split <;>
    simp [toList_padded, hplus, hcolon, opensComment_paddedDigits, opensComment_dash_paddedDigits]

/-! ## Types and keywords -/

theorem dash_not_mem_ofNat (n : Nat) : '-' ∉ (ofNat n).toList := by
  rw [toList_ofNat]
  exact dash_not_mem_digits n

namespace BuiltinType

theorem dash_not_mem_sized {name : String} (h : '-' ∉ name.toList) (size : Option UInt32) :
    ∀ t ∈ sized name size, '-' ∉ t.toList := by
  cases size <;> simp [sized, h, dash_not_mem_ofNat]

theorem dash_not_mem_marked {name : String} (h : '-' ∉ name.toList) (isUnsigned : Bool) :
    ∀ t ∈ marked name isUnsigned, '-' ∉ t.toList := by
  cases isUnsigned <;> simp [marked, h]

theorem dash_not_mem_precisionText (precision scale : Option UInt32) :
    ∀ t ∈ precisionText precision scale, '-' ∉ t.toList := by
  cases precision <;> cases scale <;> simp [precisionText, dash_not_mem_ofNat]

theorem dash_not_mem_fragments (type : BuiltinType) : ∀ t ∈ type.fragments, '-' ∉ t.toList := by
  cases type with
  | character size varying =>
    cases varying <;> exact dash_not_mem_sized (by decide) size
  | decimal precision scale numeric =>
    have hprecision := dash_not_mem_precisionText precision scale
    cases numeric <;> simpa [fragments] using hprecision
  | timestamp withTimeZone => cases withTimeZone <;> simp [fragments]
  | clob size | binary size | varbinary size | blob size | float size =>
    exact dash_not_mem_sized (by decide) size
  | smallInt isUnsigned | int isUnsigned | bigInt isUnsigned =>
    exact dash_not_mem_marked (by decide) isUnsigned
  | _ => simp [fragments]

end BuiltinType

@[simp] theorem FrameBoundKind.dash_not_mem_text (b : FrameBoundKind) : '-' ∉ b.text.toList := by
  cases b with
  | currentRow => decide
  | preceding distance => cases distance <;> simp [text, dash_not_mem_ofNat]
  | following distance => cases distance <;> simp [text, dash_not_mem_ofNat]

@[simp] theorem FrameUnits.dash_not_mem_text (u : FrameUnits) : '-' ∉ u.text.toList := by
  cases u <;> decide

@[simp] theorem SetOperator.dash_not_mem_text (op : SetOperator) : '-' ∉ op.text.toList := by
  cases op <;> decide

@[simp] theorem SortDirection.dash_not_mem_text (d : SortDirection) : '-' ∉ d.text.toList := by
  cases d <;> decide

@[simp] theorem JoinKind.dash_not_mem_text (k : JoinKind) : '-' ∉ k.text.toList := by
  cases k <;> decide

@[simp] theorem FileFormat.dash_not_mem_text (f : FileFormat) : '-' ∉ f.text.toList := by
  cases f <;> decide

theorem OperatorKind.dash_mem_text {op : OperatorKind} :
    '-' ∈ op.text.toList ↔ op = .minus := by
  cases op <;> decide

/-! ## Literals -/

namespace LiteralValue

/-- The text that a string literal has between its quotes. -/
def spelling? : LiteralValue → Option String
  | string s => some s
  | nationalString s => some s
  | _ => none

/-- Whether a constant is a number with a sign in front. -/
def isNegative : LiteralValue → Bool
  | integer n => decide (n.toInt < 0)
  | float x => !x.isNaN && x.isNegative
  | _ => false

theorem not_opensComment_text {v : LiteralValue} (h : ∀ s, v.spelling? = some s → '-' ∉ s.toList) :
    ¬ OpensComment v.text.toList := by
  cases v with
  | integer n =>
    rw [text_integer, toList_ofInt]
    split
    · exact not_opensComment_dash (dash_not_mem_digits _)
    · exact not_opensComment_of_not_mem (dash_not_mem_digits _)
  | float x =>
    rw [text_float, Binary64.toList_text]
    split
    · exact not_opensComment_of_not_mem (by decide)
    · split
      · exact not_opensComment_dash x.dash_not_mem_unsigned
      · exact not_opensComment_of_not_mem x.dash_not_mem_unsigned
  | string s =>
    have hs := h s rfl
    exact not_opensComment_of_not_mem (by simp [text, fragments, hs])
  | nationalString s =>
    have hs := h s rfl
    exact not_opensComment_of_not_mem (by simp [text, fragments, hs])
  | boolean b => cases b <;> exact not_opensComment_of_not_mem (by decide)
  | date d =>
    have htext : (date d).text.toList = "DATE '".toList ++ (d.text.toList ++ ['\'']) := by
      simp [text, fragments]
    rw [htext, opensComment_append_of_not_mem (by decide), Date.opensComment_text]
    exact not_opensComment_of_not_mem (by decide)
  | time t =>
    have ht := t.dash_not_mem_text
    exact not_opensComment_of_not_mem (by simp [text, fragments, ht])
  | dateTime dt =>
    have htext : (dateTime dt).text.toList = "TIMESTAMP '".toList ++ (dt.text.toList ++ ['\'']) := by
      simp [text, fragments]
    rw [htext, opensComment_append_of_not_mem (by decide), DateTime.opensComment_text]
    exact not_opensComment_of_not_mem (by decide)
  | timestamp ts =>
    have htext : (timestamp ts).text.toList = "TIMESTAMP WITH TIME ZONE '".toList ++
        (ts.clock.text.toList ++ ((Timestamp.offsetText ts.offset).toList ++ ['\''])) := by
      simp [text, fragments, Timestamp.text]
    rw [htext, opensComment_append_of_not_mem (by decide), DateTime.opensComment_text,
      Timestamp.opensComment_offsetText]
    exact not_opensComment_of_not_mem (by decide)
  | null => exact not_opensComment_of_not_mem (by decide)

theorem head?_text (v : LiteralValue) :
    v.text.toList.head? = some '-' ↔ v.isNegative = true := by
  cases v with
  | integer n =>
    have hhead := head?_ne_dash (dash_not_mem_digits n.toInt.natAbs)
    rw [text_integer, toList_ofInt]
    split <;> simp_all [isNegative]
  | float x =>
    have hhead := head?_ne_dash x.dash_not_mem_unsigned
    rw [text_float, Binary64.toList_text]
    split
    · simp_all [isNegative]
    · split <;> simp_all [isNegative]
  | boolean b => cases b <;> decide
  | null => decide
  | _ => simp [text, fragments, isNegative]

end LiteralValue

end SqlScript
