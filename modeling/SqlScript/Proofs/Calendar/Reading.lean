import SqlScript.Calendar.Timestamp
import SqlScript.Proofs.Decimal.Reading

/-!
# Reading dates and times back

The parts of a date or a time have fixed widths, but for the year and the fraction of a second. The
year comes first in a date and the fraction last in a time, so each can be cut off from the rest:

* `Date.yearText_inj`: a year is told by its sign and its digits;
* `TimeOfDay.fractionText_inj`: a fraction is told by its digits and their number;
* `Date.text_inj`: equal texts are texts of equal days;
* `TimeOfDay.text_eq_iff`, `DateTime.text_eq_iff`: times with one text are the same, or one of them
  is in a leap second just before the second of the other;
* `TimeOfDay.Alike.eq_of_isRegular`: if leap seconds are at the end of a minute, times with one text
  are the same.
-/

namespace SqlScript

open Decimal

attribute [ext] TimeOfDay

theorem Decimal.length_paddedDigits_two {n : Nat} (h : n < 100) : (paddedDigits 2 n).length = 2 :=
  length_paddedDigits (by decide) h

namespace Date

/-! ## Days -/

theorem month_lt (d : Date) : d.month < 100 := by
  have h := d.day_bounds
  unfold Calendar.daysInMonth at h
  split at h <;> omega

theorem daysInMonth_le (year : Int) (month : Nat) : Calendar.daysInMonth year month ≤ 31 := by
  unfold Calendar.daysInMonth
  split
  case h_2 => split <;> decide
  all_goals decide

theorem day_lt (d : Date) : d.day < 100 := by
  have hday := d.day_bounds
  have hmonth := daysInMonth_le d.year d.month
  omega

theorem toList_yearText (year : Int) :
    (yearText year).toList =
      if year < 0 then '-' :: paddedDigits 4 year.natAbs
      else if 9999 < year then '+' :: paddedDigits 4 year.natAbs
      else paddedDigits 4 year.natAbs := by
  unfold yearText
  split
  · rw [String.toList_append, toList_padded]
    rfl
  · split
    · rw [String.toList_append, toList_padded]
      rfl
    · exact toList_padded _ _

/-- The digits of a year are those of its distance from zero. -/
theorem filter_isDigit_yearText (year : Int) :
    (yearText year).toList.filter Char.isDigit = paddedDigits 4 year.natAbs := by
  have hdigits : (paddedDigits 4 year.natAbs).filter Char.isDigit = paddedDigits 4 year.natAbs :=
    List.filter_eq_self.mpr fun c hc => isDigit_of_mem_paddedDigits hc
  rw [toList_yearText]
  split
  · rw [List.filter_cons_of_neg (by decide), hdigits]
  · split
    · rw [List.filter_cons_of_neg (by decide), hdigits]
    · exact hdigits

theorem head?_yearText (year : Int) : (yearText year).toList.head? = some '-' ↔ year < 0 := by
  rw [toList_yearText]
  split
  · simpa using ‹year < 0›
  · rename_i hyear
    have hdigits : (paddedDigits 4 year.natAbs).head? ≠ some '-' := fun h =>
      absurd (isDigit_of_mem_paddedDigits (List.mem_of_mem_head? h)) (by decide)
    split <;> simp [hyear, hdigits]

theorem yearText_inj {y z : Int} (h : yearText y = yearText z) : y = z := by
  have habs : y.natAbs = z.natAbs := by
    rw [← paddedDigits_inj (w := 4), ← filter_isDigit_yearText, h, filter_isDigit_yearText]
  have hsign : y < 0 ↔ z < 0 := by
    rw [← head?_yearText, h, head?_yearText]
  omega

theorem toList_text (d : Date) :
    d.text.toList =
      (yearText d.year).toList ++
        '-' :: (paddedDigits 2 d.month ++ '-' :: paddedDigits 2 d.day) := by
  simp [text, toList_padded]

theorem text_inj {a b : Date} (h : a.text = b.text) : a = b := by
  have hlist : a.text.toList = b.text.toList := congrArg String.toList h
  have hlength : ∀ d : Date,
      ('-' :: (paddedDigits 2 d.month ++ '-' :: paddedDigits 2 d.day)).length = 6 := fun d => by
    simp [length_paddedDigits_two d.month_lt, length_paddedDigits_two d.day_lt]
  rw [toList_text, toList_text] at hlist
  obtain ⟨hyear, hrest⟩ := List.append_inj' hlist (by rw [hlength, hlength])
  obtain ⟨hmonth, hday⟩ := List.append_inj (List.cons.inj hrest).2 (by
    rw [length_paddedDigits_two a.month_lt, length_paddedDigits_two b.month_lt])
  have hyear := yearText_inj (String.toList_inj.mp hyear)
  have hmonth := paddedDigits_inj.mp hmonth
  have hday := paddedDigits_inj.mp (List.cons.inj hday).2
  cases a
  cases b
  simp_all

/-- A day is written with digits and signs. -/
theorem mem_text {d : Date} {c : Char} (h : c ∈ d.text.toList) :
    c.isDigit = true ∨ c = '-' ∨ c = '+' := by
  have hyear : ∀ c ∈ (yearText d.year).toList, c.isDigit = true ∨ c = '-' ∨ c = '+' := by
    intro c hc
    rw [toList_yearText] at hc
    have hdigits : c ∈ paddedDigits 4 d.year.natAbs → c.isDigit = true :=
      isDigit_of_mem_paddedDigits
    split at hc
    · rcases List.mem_cons.mp hc with rfl | hc
      · exact .inr (.inl rfl)
      · exact .inl (hdigits hc)
    · split at hc
      · rcases List.mem_cons.mp hc with rfl | hc
        · exact .inr (.inr rfl)
        · exact .inl (hdigits hc)
      · exact .inl (hdigits hc)
  rw [toList_text] at h
  simp only [List.mem_append, List.mem_cons] at h
  rcases h with h | rfl | h | rfl | h
  · exact hyear c h
  · exact .inr (.inl rfl)
  · exact .inl (isDigit_of_mem_paddedDigits h)
  · exact .inr (.inl rfl)
  · exact .inl (isDigit_of_mem_paddedDigits h)

end Date

namespace TimeOfDay

/-! ## Times -/

theorem toList_fractionText (nano : Nat) :
    (fractionText nano).toList =
      if nano = 0 then []
      else if nano % 1000000 = 0 then '.' :: paddedDigits 3 (nano / 1000000)
      else if nano % 1000 = 0 then '.' :: paddedDigits 6 (nano / 1000)
      else '.' :: paddedDigits 9 nano := by
  unfold fractionText
  repeat' split
  all_goals simp [toList_padded]

/-- The nanoseconds that a fraction stands for: its digits, filled up with zeros to nine. -/
theorem value_fractionText {nano : Nat} (h : nano < 1000000000) :
    value ((fractionText nano).toList.drop 1) * 10 ^ (10 - (fractionText nano).toList.length) =
      nano := by
  rw [toList_fractionText]
  split
  · rename_i hzero
    rw [hzero]
    rfl
  · split
    · have hlength := length_paddedDigits (n := nano / 1000000) (w := 3) (by decide) (by omega)
      simp only [List.drop_one, List.tail_cons, value_paddedDigits, List.length_cons, hlength]
      omega
    · split
      · have hlength := length_paddedDigits (n := nano / 1000) (w := 6) (by decide) (by omega)
        simp only [List.drop_one, List.tail_cons, value_paddedDigits, List.length_cons, hlength]
        omega
      · have hlength := length_paddedDigits (n := nano) (w := 9) (by decide) (by omega)
        simp only [List.drop_one, List.tail_cons, value_paddedDigits, List.length_cons, hlength]
        omega

theorem fractionText_inj {m n : Nat} (hm : m < 1000000000) (hn : n < 1000000000)
    (h : fractionText m = fractionText n) : m = n := by
  rw [← value_fractionText hm, h, value_fractionText hn]

theorem writtenNano_lt (t : TimeOfDay) : t.writtenNano < 1000000000 := by
  have hnano := t.nano_lt
  unfold writtenNano
  split <;> omega

theorem writtenSecond_lt (t : TimeOfDay) : t.writtenSecond < 100 := by
  have hsecond := t.second_lt
  unfold writtenSecond
  split <;> omega

theorem isRegular_iff {t : TimeOfDay} :
    t.isRegular = true ↔ (1000000000 ≤ t.nano → t.second = 59) := by
  simp only [isRegular, Bool.or_eq_true, decide_eq_true_eq, beq_iff_eq]
  omega

/-- The first time is in a leap second just before the second of the other, and as far into it. -/
structure LeapBefore (a b : TimeOfDay) : Prop where
  hour : a.hour = b.hour
  minute : a.minute = b.minute
  second : a.second + 1 = b.second
  nano : a.nano = b.nano + 1000000000

/-- Two times are the same, but that a leap second may be counted as the second behind it. -/
def Alike (a b : TimeOfDay) : Prop :=
  a = b ∨ a.LeapBefore b ∨ b.LeapBefore a

theorem LeapBefore.written_eq {a b : TimeOfDay} (h : a.LeapBefore b) :
    a.writtenSecond = b.writtenSecond ∧ a.writtenNano = b.writtenNano := by
  have hle : ¬ a.nano < 1000000000 := by
    rw [h.nano]
    omega
  have hlt : b.nano < 1000000000 := by
    have ha := a.nano_lt
    rw [h.nano] at ha
    omega
  unfold writtenSecond writtenNano
  rw [if_neg hle, if_neg hle, if_pos hlt, if_pos hlt, h.second, h.nano, Nat.add_sub_cancel]
  exact ⟨rfl, rfl⟩

/-- Times are alike exactly if all that is written of them is the same. -/
theorem alike_iff {a b : TimeOfDay} :
    a.Alike b ↔ a.hour = b.hour ∧ a.minute = b.minute ∧ a.writtenSecond = b.writtenSecond ∧
      a.writtenNano = b.writtenNano := by
  constructor
  · rintro (rfl | h | h)
    · exact ⟨rfl, rfl, rfl, rfl⟩
    · exact ⟨h.hour, h.minute, h.written_eq.1, h.written_eq.2⟩
    · exact ⟨h.hour.symm, h.minute.symm, h.written_eq.1.symm, h.written_eq.2.symm⟩
  · rintro ⟨hhour, hminute, hsecond, hnano⟩
    unfold writtenSecond at hsecond
    unfold writtenNano at hnano
    -- Which of the two are in leap seconds decides how they are alike.
    by_cases ha : a.nano < 1000000000 <;> by_cases hb : b.nano < 1000000000 <;>
      simp only [ha, hb, if_true, if_false] at hsecond hnano
    · exact .inl (TimeOfDay.ext hhour hminute hsecond hnano)
    · exact .inr (.inr ⟨hhour.symm, hminute.symm, hsecond.symm, by omega⟩)
    · exact .inr (.inl ⟨hhour, hminute, hsecond, by omega⟩)
    · exact .inl (TimeOfDay.ext hhour hminute (by omega) (by omega))

/-- No second of a minute comes behind second 59. -/
theorem LeapBefore.isRegular_eq_false {a b : TimeOfDay} (h : a.LeapBefore b) :
    a.isRegular = false := by
  rw [Bool.eq_false_iff, ne_eq, isRegular_iff]
  intro hregular
  have ha := hregular (by rw [h.nano]; omega)
  have hb := b.second_lt
  rw [← h.second, ha] at hb
  omega

/-- If leap seconds are at the end of a minute, times that are alike are the same. -/
theorem Alike.eq_of_isRegular {a b : TimeOfDay} (h : a.Alike b) (ha : a.isRegular = true)
    (hb : b.isRegular = true) : a = b := by
  rcases h with rfl | h | h
  · rfl
  · rw [h.isRegular_eq_false] at ha
    cases ha
  · rw [h.isRegular_eq_false] at hb
    cases hb

/-- Times that are alike differ in how their nanoseconds are counted, if they differ. -/
theorem Alike.eq_of_nano_eq {a b : TimeOfDay} (h : a.Alike b) (hnano : a.nano = b.nano) :
    a = b := by
  rcases h with rfl | h | h
  · rfl
  · have hleap := h.nano
    omega
  · have hleap := h.nano
    omega

theorem LeapBefore.secondOfDay_eq {a b : TimeOfDay} (h : a.LeapBefore b) :
    a.secondOfDay + 1 = b.secondOfDay := by
  rw [secondOfDay, secondOfDay, h.hour, h.minute, ← h.second, Nat.add_assoc]

/-- Times that are alike are equally far from midnight. -/
theorem Alike.nanoseconds_eq {a b : TimeOfDay} (h : a.Alike b) :
    a.secondOfDay * 1000000000 + a.nano = b.secondOfDay * 1000000000 + b.nano := by
  rcases h with rfl | h | h
  · rfl
  · rw [← h.secondOfDay_eq, h.nano]
    omega
  · rw [← h.secondOfDay_eq, h.nano]
    omega

theorem toList_text (t : TimeOfDay) :
    t.text.toList =
      paddedDigits 2 t.hour ++ ':' :: (paddedDigits 2 t.minute ++
        ':' :: (paddedDigits 2 t.writtenSecond ++ (fractionText t.writtenNano).toList)) := by
  simp [text, toList_padded]

/-- Times have one text exactly if they are alike. -/
theorem text_eq_iff {a b : TimeOfDay} : a.text = b.text ↔ a.Alike b := by
  rw [alike_iff]
  constructor
  · intro h
    have hlist : a.text.toList = b.text.toList := congrArg String.toList h
    have hwidth : ∀ {m n : Nat}, m < 100 → n < 100 →
        (paddedDigits 2 m).length = (paddedDigits 2 n).length := fun hm hn => by
      rw [length_paddedDigits_two hm, length_paddedDigits_two hn]
    have hours := And.intro a.hour_lt b.hour_lt
    have minutes := And.intro a.minute_lt b.minute_lt
    rw [toList_text, toList_text] at hlist
    obtain ⟨hhour, hrest⟩ := List.append_inj hlist (hwidth (by omega) (by omega))
    obtain ⟨hminute, hrest⟩ :=
      List.append_inj (List.cons.inj hrest).2 (hwidth (by omega) (by omega))
    obtain ⟨hsecond, hfraction⟩ :=
      List.append_inj (List.cons.inj hrest).2 (hwidth a.writtenSecond_lt b.writtenSecond_lt)
    have hnano :=
      fractionText_inj a.writtenNano_lt b.writtenNano_lt (String.toList_inj.mp hfraction)
    exact ⟨paddedDigits_inj.mp hhour, paddedDigits_inj.mp hminute, paddedDigits_inj.mp hsecond,
      hnano⟩
  · rintro ⟨hhour, hminute, hsecond, hnano⟩
    rw [text, text, hhour, hminute, hsecond, hnano]

theorem mem_fractionText {nano : Nat} {c : Char} (h : c ∈ (fractionText nano).toList) :
    c.isDigit = true ∨ c = '.' := by
  have hcons : ∀ {w n : Nat}, c ∈ '.' :: paddedDigits w n → c.isDigit = true ∨ c = '.' :=
    fun hc => (List.mem_cons.mp hc).symm.imp isDigit_of_mem_paddedDigits id
  rw [toList_fractionText] at h
  split at h
  · cases h
  · split at h
    · exact hcons h
    · split at h <;> exact hcons h

/-- A time is written with digits, colons and a point. -/
theorem mem_text {t : TimeOfDay} {c : Char} (h : c ∈ t.text.toList) :
    c.isDigit = true ∨ c = ':' ∨ c = '.' := by
  rw [toList_text] at h
  simp only [List.mem_append, List.mem_cons] at h
  rcases h with h | rfl | h | rfl | h | h
  · exact .inl (isDigit_of_mem_paddedDigits h)
  · exact .inr (.inl rfl)
  · exact .inl (isDigit_of_mem_paddedDigits h)
  · exact .inr (.inl rfl)
  · exact .inl (isDigit_of_mem_paddedDigits h)
  · exact (mem_fractionText h).imp id .inr

end TimeOfDay

namespace DateTime

/-! ## Date-times -/

/-- Two date-times are of one day, and their times are alike. -/
structure Alike (a b : DateTime) : Prop where
  date : a.date = b.date
  time : a.time.Alike b.time

theorem Alike.refl (a : DateTime) : a.Alike a :=
  ⟨rfl, .inl rfl⟩

theorem toList_text (dt : DateTime) :
    dt.text.toList = dt.date.text.toList ++ ' ' :: dt.time.text.toList := by
  simp [text]

/-- Date-times have one text exactly if they are alike: their only blank stands between the day and
the time. -/
theorem text_eq_iff {a b : DateTime} : a.text = b.text ↔ a.Alike b := by
  have hdate : ' ' ∉ a.date.text.toList := fun hmem => absurd (Date.mem_text hmem) (by decide)
  have htime : ' ' ∉ a.time.text.toList := fun hmem => absurd (TimeOfDay.mem_text hmem) (by decide)
  constructor
  · intro h
    have hlist : a.text.toList = b.text.toList := congrArg String.toList h
    rw [toList_text, toList_text, List.append_cons_inj_of_notMem hdate htime] at hlist
    exact ⟨Date.text_inj (String.toList_inj.mp hlist.1),
      TimeOfDay.text_eq_iff.mp (String.toList_inj.mp hlist.2.2)⟩
  · rintro ⟨hday, halike⟩
    rw [text, text, hday, TimeOfDay.text_eq_iff.mpr halike]

theorem Alike.eq_of_time_eq {a b : DateTime} (h : a.Alike b) (ht : a.time = b.time) : a = b := by
  cases a
  cases b
  rw [mk.injEq]
  exact ⟨h.date, ht⟩

/-- If leap seconds are at the end of a minute, date-times that are alike are the same. -/
theorem Alike.eq_of_isRegular {a b : DateTime} (h : a.Alike b) (ha : a.time.isRegular = true)
    (hb : b.time.isRegular = true) : a = b :=
  h.eq_of_time_eq (h.time.eq_of_isRegular ha hb)

end DateTime

end SqlScript
