import SqlScript.Proofs.Calendar.Reading
import SqlScript.Proofs.Decimal.Floating
import SqlScript.Proofs.Node.Characters

/-!
# What the text of a literal tells

The first characters of a literal tell its kind, and those of a number whether it is an integer.
Once the kind is known, what stands between the quotes is known, and so is the constant, but for one
case: a leap second is written as the second behind it, and unless it is at the end of a minute
there is such a second.

* `LiteralKind.ofText`: the kind of literal that a text is;
* `LiteralKind.ofText_text`: it is the kind of the literal that the text was written for;
* `LiteralValue.text_eq_iff`: unless they are floating-point numbers or time stamps, constants with
  one text are alike;
* `Node.literal_toSql_eq_iff`: so literals with one text are of one kind, and the same constant if
  leap seconds are at the end of a minute.
-/

namespace SqlScript

/-- The kinds of constants of SQL. -/
inductive LiteralKind where
  | integer
  | float
  | string
  | nationalString
  | boolean
  | date
  | time
  | dateTime
  | timestamp
  | null
  deriving DecidableEq, Repr

namespace LiteralValue

/-- The kind of a constant. -/
def kind : LiteralValue → LiteralKind
  | integer _ => .integer
  | float _ => .float
  | string _ => .string
  | nationalString _ => .nationalString
  | boolean _ => .boolean
  | date _ => .date
  | time _ => .time
  | dateTime _ => .dateTime
  | timestamp _ => .timestamp
  | null => .null

/-- The text of a constant. -/
def text (v : LiteralValue) : String :=
  String.join v.fragments

theorem text_integer (n : Int64) : (integer n).text = Decimal.ofInt n.toInt := by
  simp [text, fragments]

theorem text_float (x : Binary64) : (float x).text = x.text := by
  simp [text, fragments]

end LiteralValue

namespace LiteralKind

/-- The kind of literal that a text is. Only numbers start with a sign or a digit, and integers have
nothing else in them. -/
def ofText : List Char → LiteralKind
  | '\'' :: _ => .string
  | 'N' :: '\'' :: _ => .nationalString
  | 'N' :: 'U' :: _ => .null
  | 'T' :: 'R' :: _ => .boolean
  | 'F' :: _ => .boolean
  | 'D' :: _ => .date
  | 'T' :: 'I' :: 'M' :: 'E' :: ' ' :: _ => .time
  | 'T' :: 'I' :: 'M' :: 'E' :: 'S' :: 'T' :: 'A' :: 'M' :: 'P' :: ' ' :: '\'' :: _ => .dateTime
  | 'T' :: _ => .timestamp
  | cs => if cs.all fun c => c.isDigit || c == '-' then .integer else .float

/-- Whatever starts with a sign, a point or a digit is a number. -/
theorem ofText_of_number {c : Char} (hc : c = '-' ∨ c = '.' ∨ c.isDigit = true) (cs : List Char) :
    ofText (c :: cs) =
      if (c :: cs).all fun c => c.isDigit || c == '-' then .integer else .float := by
  unfold ofText
  split
  case h_10 => rfl
  -- No other kind of literal starts with such a character.
  all_goals
    rename_i heq
    cases heq
    exact absurd hc (by decide)

theorem ofText_ofInt (n : Int) : ofText (Decimal.ofInt n).toList = .integer := by
  have hall : ∀ c ∈ (Decimal.ofInt n).toList, c = '-' ∨ c.isDigit = true := by
    intro c hc
    rw [Decimal.toList_ofInt] at hc
    split at hc
    · exact (List.mem_cons.mp hc).imp id Decimal.isDigit_of_mem_digits
    · exact .inr (Decimal.isDigit_of_mem_digits hc)
  generalize (Decimal.ofInt n).toList = cs at hall
  cases cs with
  | nil => rfl
  | cons c cs =>
    rw [ofText_of_number ((hall c List.mem_cons_self).imp id .inr), if_pos]
    rw [List.all_eq_true]
    intro d hd
    rcases hall d hd with rfl | hd
    · rfl
    · rw [hd, Bool.true_or]

/-- A point is what tells other numbers from integers, where there is a number at all. -/
theorem ofText_of_point {c : Char} {cs : List Char} (hc : c = '-' ∨ c = '.' ∨ c.isDigit = true)
    (hp : '.' ∈ c :: cs) : ofText (c :: cs) = .float := by
  rw [ofText_of_number hc, if_neg]
  intro h
  exact absurd (List.all_eq_true.mp h _ hp) (by decide)

theorem ofText_binary64 (x : Binary64) : ofText x.text.toList = .float := by
  rw [Binary64.toList_text]
  split
  · rfl
  · cases hx : x.isFinite with
    | false =>
      have hinf : x.unsigned = ['i', 'n', 'f'] := by simp [Binary64.unsigned, hx]
      rw [hinf]
      split <;> rfl
    | true =>
      have hp := Binary64.point_mem_unsigned hx
      split
      · exact ofText_of_point (.inl rfl) (List.mem_cons_of_mem _ hp)
      · obtain ⟨c, cs, hcs⟩ := List.exists_cons_of_ne_nil (List.ne_nil_of_mem hp)
        have hc := Binary64.mem_unsigned hx (hcs ▸ List.mem_cons_self)
        rw [hcs] at hp ⊢
        exact ofText_of_point (.inr hc.symm) hp

/-- A text is of the kind of the constant that it was written for. -/
theorem ofText_text (v : LiteralValue) : ofText v.text.toList = v.kind := by
  cases v with
  | integer n =>
    rw [LiteralValue.text_integer]
    exact ofText_ofInt n.toInt
  | float x =>
    rw [LiteralValue.text_float]
    exact ofText_binary64 x
  | boolean b => cases b <;> rfl
  | null => rfl
  | _ => simp [LiteralValue.text, LiteralValue.fragments, ofText, LiteralValue.kind]

end LiteralKind

/-! ## Constants -/

namespace LiteralValue

theorem kind_eq_of_text_eq {v w : LiteralValue} (h : v.text = w.text) : v.kind = w.kind := by
  rw [← LiteralKind.ofText_text, h, LiteralKind.ofText_text]

/-- Two constants are the same, but that a leap second may be counted as the second behind it. -/
def Alike : LiteralValue → LiteralValue → Prop
  | time a, time b => a.Alike b
  | dateTime a, dateTime b => a.Alike b
  | v, w => v = w

/-- Whether a leap second, if the constant is in one, is at the end of a minute. -/
def isRegular : LiteralValue → Bool
  | time t => t.isRegular
  | dateTime dt => dt.time.isRegular
  | _ => true

theorem text_time_eq_iff {a b : TimeOfDay} : (time a).text = (time b).text ↔ a.Alike b := by
  rw [← TimeOfDay.text_eq_iff, ← String.toList_inj, ← String.toList_inj]
  simp [text, fragments]

theorem text_dateTime_eq_iff {a b : DateTime} :
    (dateTime a).text = (dateTime b).text ↔ a.Alike b := by
  rw [← DateTime.text_eq_iff, ← String.toList_inj, ← String.toList_inj]
  simp [text, fragments]

theorem text_eq_of_alike {v w : LiteralValue} (h : v.Alike w) : v.text = w.text := by
  unfold Alike at h
  split at h
  · exact text_time_eq_iff.mpr h
  · exact text_dateTime_eq_iff.mpr h
  · rw [h]

/-- Constants have one text exactly if they are alike, unless they are floating-point numbers or
time stamps. -/
theorem text_eq_iff {v w : LiteralValue} (hfloat : v.kind ≠ .float)
    (hstamp : v.kind ≠ .timestamp) : v.text = w.text ↔ v.Alike w := by
  refine ⟨fun h => ?_, text_eq_of_alike⟩
  have hk := kind_eq_of_text_eq h
  cases v <;> cases w <;> cases hk
  case integer m n =>
    rw [text_integer, text_integer, Decimal.ofInt_inj, Int64.toInt_inj] at h
    exact congrArg integer h
  case float => exact absurd rfl hfloat
  case timestamp => exact absurd rfl hstamp
  case time a b => exact text_time_eq_iff.mp h
  case dateTime a b => exact text_dateTime_eq_iff.mp h
  case null => rfl
  case boolean a b => cases a <;> cases b <;> first | rfl | exact absurd h (by decide)
  -- The others stand between words that depend on the kind alone.
  all_goals
    rw [← String.toList_inj] at h
    simp only [text, fragments, String.join_cons, String.join_nil, String.toList_append,
      List.append_assoc, List.append_cancel_left_eq, List.append_cancel_right_eq,
      String.toList_inj] at h
  case string s t => exact congrArg string h
  case nationalString s t => exact congrArg nationalString h
  case date a b => exact congrArg date (Date.text_inj h)

/-- If leap seconds are at the end of a minute, constants that are alike are the same. -/
theorem Alike.eq_of_isRegular {v w : LiteralValue} (h : v.Alike w) (hv : v.isRegular = true)
    (hw : w.isRegular = true) : v = w := by
  unfold Alike at h
  split at h
  · exact congrArg time (h.eq_of_isRegular hv hw)
  · exact congrArg dateTime (h.eq_of_isRegular hv hw)
  · exact h

end LiteralValue

namespace Node

theorem toSql_literal (l : Literal) : (literal l).toSql = l.val.text := by
  rw [← String.toList_inj, toList_toSql, LiteralValue.text, String.toList_join]
  simp [literal, layout, Expr.layout]

/-- The text of a literal tells its kind. Unless they are floating-point numbers or time stamps,
literals have one text exactly if they are the same constant, but that a leap second may be counted
as the second behind it; if leap seconds are at the end of a minute, they are the same. -/
theorem literal_toSql_eq_iff (a b : Literal) :
    ((literal a).toSql = (literal b).toSql → a.val.kind = b.val.kind) ∧
      (a.val.kind ≠ .float → a.val.kind ≠ .timestamp →
        ((literal a).toSql = (literal b).toSql ↔ a.val.Alike b.val) ∧
        ((literal a).toSql = (literal b).toSql → a.val.isRegular = true →
          b.val.isRegular = true → a.val = b.val)) := by
  rw [toSql_literal, toSql_literal]
  refine ⟨LiteralValue.kind_eq_of_text_eq, fun hfloat hstamp => ?_⟩
  have hiff := LiteralValue.text_eq_iff (w := b.val) hfloat hstamp
  exact ⟨hiff, fun h => (hiff.mp h).eq_of_isRegular⟩

end Node

/-- Noon. -/
def TimeOfDay.noon : TimeOfDay :=
  ⟨12, 0, 0, 0, by decide, by decide, by decide, by decide⟩

/-- One and a half seconds past noon. -/
def TimeOfDay.pastNoon : TimeOfDay :=
  { noon with second := 1, nano := 500000000, second_lt := by decide, nano_lt := by decide }

/-- The middle of a leap second behind the first second past noon. -/
def TimeOfDay.leapPastNoon : TimeOfDay :=
  { noon with nano := 1500000000, nano_lt := by decide }

/-- A leap second within a minute has the text of the second behind it. -/
theorem Node.literal_differs_leapPastNoon :
    (literal ⟨.time .leapPastNoon, ⟨⟨1, 1⟩, ⟨1, 20⟩⟩⟩).toSql = "TIME '12:00:01.500'" ∧
      (literal ⟨.time .pastNoon, ⟨⟨1, 1⟩, ⟨1, 20⟩⟩⟩).toSql = "TIME '12:00:01.500'" ∧
      LiteralValue.agrees (.time .leapPastNoon) (.time .pastNoon) = false := by
  have halike : TimeOfDay.Alike .leapPastNoon .pastNoon := .inr (.inl ⟨rfl, rfl, rfl, rfl⟩)
  obtain ⟨-, hother⟩ := literal_toSql_eq_iff ⟨.time .leapPastNoon, ⟨⟨1, 1⟩, ⟨1, 20⟩⟩⟩
    ⟨.time .pastNoon, ⟨⟨1, 1⟩, ⟨1, 20⟩⟩⟩
  have hone := (hother (by decide) (by decide)).1.mpr halike
  have hsecond : (literal ⟨.time .pastNoon, ⟨⟨1, 1⟩, ⟨1, 20⟩⟩⟩).toSql = "TIME '12:00:01.500'" := by
    rw [toSql_literal]
    decide +kernel
  exact ⟨hone.trans hsecond, hsecond, by decide⟩

end SqlScript
