import SqlScript.Proofs.Tree.Literal

/-!
# What the text of a time stamp tells

A time stamp is written with all that the clocks show, and with its offset in whole minutes. So its
text tells the clock time, unless that is in a leap second within a minute, but the offset, and with
it the instant, only up to the seconds that rounding takes away:

* `Timestamp.offsetText_eq_iff`: offsets have one text if they have one sign and round to one
  minute;
* `Timestamp.text_eq_iff`: time stamps have one text if their clock times are alike and their
  offsets have one text;
* `Node.timestamp_agrees_iff`: of the time stamps with one text, those with one clock time and one
  offset are the same constant; all others are apart by as much as their offsets.
-/

namespace SqlScript

open Decimal

namespace Timestamp

/-! ## Offsets -/

/-- An offset without its sign, in minutes, rounded to the nearest minute. -/
def roundedMinutes (offset : Int) : Nat :=
  (offset.natAbs + 30) / 60

/-- Two offsets have the same sign and are rounded to the same minute. -/
def RoundAlike (a b : Int) : Prop :=
  (a < 0 ↔ b < 0) ∧ roundedMinutes a = roundedMinutes b

theorem roundedMinutes_le {offset : Int} (h : -86400 < offset ∧ offset < 86400) :
    roundedMinutes offset ≤ 1440 := by
  unfold roundedMinutes
  omega

theorem toList_offsetText (offset : Int) :
    (offsetText offset).toList =
      (if offset < 0 then '-' else '+') ::
        (paddedDigits 2 (roundedMinutes offset / 60) ++
          ':' :: paddedDigits 2 (roundedMinutes offset % 60)) := by
  unfold offsetText roundedMinutes
  split <;> simp [toList_padded]

/-- The text of an offset has six characters, up to `24:00` on either side. -/
theorem length_offsetText {offset : Int} (h : -86400 < offset ∧ offset < 86400) :
    (offsetText offset).toList.length = 6 := by
  have hle := roundedMinutes_le h
  have hhours := length_paddedDigits_two (n := roundedMinutes offset / 60) (by omega)
  have hminutes := length_paddedDigits_two (n := roundedMinutes offset % 60) (by omega)
  rw [toList_offsetText]
  simp only [List.length_cons, List.length_append, hhours, hminutes]

theorem head?_offsetText (offset : Int) :
    (offsetText offset).toList.head? = some '-' ↔ offset < 0 := by
  rw [toList_offsetText, List.head?_cons, Option.some.injEq]
  split
  · simpa using ‹offset < 0›
  · simpa using ‹¬ offset < 0›

theorem offsetText_eq_iff {a b : Int} (ha : -86400 < a ∧ a < 86400) (hb : -86400 < b ∧ b < 86400) :
    offsetText a = offsetText b ↔ RoundAlike a b := by
  constructor
  · intro h
    have hlist : (offsetText a).toList = (offsetText b).toList := congrArg String.toList h
    have hleA := roundedMinutes_le ha
    have hleB := roundedMinutes_le hb
    rw [toList_offsetText, toList_offsetText] at hlist
    obtain ⟨hhours, hminutes⟩ := List.append_inj (List.cons.inj hlist).2 (by
      rw [length_paddedDigits_two (by omega), length_paddedDigits_two (by omega)])
    have hhours := paddedDigits_inj.mp hhours
    have hminutes := paddedDigits_inj.mp (List.cons.inj hminutes).2
    refine ⟨?_, by omega⟩
    rw [← head?_offsetText, h, head?_offsetText]
  · rintro ⟨hsign, hminutes⟩
    rw [← String.toList_inj, toList_offsetText, toList_offsetText, hminutes]
    simp only [hsign]

/-- Rounding takes less than a minute away. -/
theorem RoundAlike.near {a b : Int} (h : RoundAlike a b) : (a - b).natAbs < 60 := by
  obtain ⟨hsign, hminutes⟩ := h
  unfold roundedMinutes at hminutes
  omega

/-- Nothing is lost of an offset in whole minutes. -/
theorem RoundAlike.eq_of_dvd {a b : Int} (h : RoundAlike a b) (ha : 60 ∣ a) (hb : 60 ∣ b) :
    a = b := by
  have hnear := h.near
  omega

/-! ## Time stamps -/

theorem text_eq_iff {a b : Timestamp} :
    a.text = b.text ↔ a.clock.Alike b.clock ∧ RoundAlike a.offset b.offset := by
  rw [← offsetText_eq_iff a.offset_bounds b.offset_bounds, ← DateTime.text_eq_iff]
  constructor
  · intro h
    have hlist : a.text.toList = b.text.toList := congrArg String.toList h
    rw [text, text, String.toList_append, String.toList_append] at hlist
    obtain ⟨hclock, hoffset⟩ := List.append_inj' hlist (by
      rw [length_offsetText a.offset_bounds, length_offsetText b.offset_bounds])
    exact ⟨String.toList_inj.mp hclock, String.toList_inj.mp hoffset⟩
  · rintro ⟨hclock, hoffset⟩
    rw [text, text, hclock, hoffset]

/-- Clocks that show the same are at one instant only if they count it alike and are equally far
ahead. -/
theorem instant_eq_iff {a b : Timestamp} (h : a.clock.Alike b.clock) :
    a.instant = b.instant ↔ a.clock = b.clock ∧ a.offset = b.offset := by
  unfold instant
  rw [Prod.mk.injEq]
  constructor
  · rintro ⟨hseconds, hnano⟩
    have hclock := h.eq_of_time_eq (h.time.eq_of_nano_eq hnano)
    rw [hclock] at hseconds
    exact ⟨hclock, by omega⟩
  · rintro ⟨hclock, hoffset⟩
    rw [hclock, hoffset]
    exact ⟨rfl, rfl⟩

/-- The nanoseconds of universal time up to a time stamp, those of the leap second it may be in
included. -/
def nanoseconds (ts : Timestamp) : Int :=
  ts.instant.1 * 1000000000 + ts.instant.2

/-- Where clocks show the same, the instants are apart by as much as the offsets. -/
theorem nanoseconds_sub {a b : Timestamp} (h : a.clock.Alike b.clock) :
    a.nanoseconds - b.nanoseconds = (b.offset - a.offset) * 1000000000 := by
  have htime := h.time.nanoseconds_eq
  simp only [nanoseconds, instant, DateTime.seconds, h.date]
  omega

end Timestamp

namespace Node

theorem toSql_timestamp_eq_iff {x y : Timestamp} {s t : Span} :
    (literal ⟨.timestamp x, s⟩).toSql = (literal ⟨.timestamp y, t⟩).toSql ↔
      x.text = y.text := by
  rw [toSql_literal, toSql_literal, ← String.toList_inj, ← String.toList_inj]
  simp [LiteralValue.text, LiteralValue.fragments]

/-- Time stamps have one text exactly if their clocks show the same and their offsets are written
alike. Of those with one text, the ones with one clock time and one offset are the same constant. If
leap seconds are at the end of a minute, it takes one offset only, and those whose offsets are whole
minutes have one. In any case the instants are as far apart as the offsets, less than a minute. -/
theorem timestamp_agrees_iff (x y : Timestamp) (s t : Span) :
    ((literal ⟨.timestamp x, s⟩).toSql = (literal ⟨.timestamp y, t⟩).toSql ↔
        x.clock.Alike y.clock ∧ Timestamp.RoundAlike x.offset y.offset) ∧
      ((literal ⟨.timestamp x, s⟩).toSql = (literal ⟨.timestamp y, t⟩).toSql →
        (LiteralValue.agrees (.timestamp x) (.timestamp y) = true ↔
          x.clock = y.clock ∧ x.offset = y.offset) ∧
        (x.clock.time.isRegular = true → y.clock.time.isRegular = true →
          (LiteralValue.agrees (.timestamp x) (.timestamp y) = true ↔ x.offset = y.offset) ∧
          (60 ∣ x.offset → 60 ∣ y.offset →
            LiteralValue.agrees (.timestamp x) (.timestamp y) = true)) ∧
        x.nanoseconds - y.nanoseconds = (y.offset - x.offset) * 1000000000 ∧
        (y.offset - x.offset).natAbs < 60) := by
  rw [toSql_timestamp_eq_iff, Timestamp.text_eq_iff]
  refine ⟨.rfl, ?_⟩
  rintro ⟨hclock, hround⟩
  have hagrees : LiteralValue.agrees (.timestamp x) (.timestamp y) = true ↔
      x.clock = y.clock ∧ x.offset = y.offset := by
    rw [← Timestamp.instant_eq_iff hclock]
    exact beq_iff_eq
  refine ⟨hagrees, fun hx hy => ?_, Timestamp.nanoseconds_sub hclock, ?_⟩
  · have hsame := hclock.eq_of_isRegular hx hy
    have hoffset : LiteralValue.agrees (.timestamp x) (.timestamp y) = true ↔
        x.offset = y.offset := hagrees.trans (and_iff_right hsame)
    exact ⟨hoffset, fun hdx hdy => hoffset.mpr (hround.eq_of_dvd hdx hdy)⟩
  · have hnear := hround.near
    omega

end Node

/-- Noon on the first day of a year. -/
def DateTime.noon : DateTime :=
  ⟨⟨2024, 1, 1, by decide, by decide⟩, .noon⟩

/-- Noon on clocks that are less than a minute ahead of universal time. -/
def Timestamp.noonAhead (offset : Int) (h : 0 ≤ offset ∧ offset < 60) : Timestamp where
  clock := .noon
  offset := offset
  offset_bounds := by omega
  universal_day := by
    have hday : (DateTime.noon.seconds - offset) / 86400 = 738886 := by
      rw [show DateTime.noon.seconds = 63839793600 by decide]
      omega
    rw [hday]
    decide

/-- Clocks that are 29 seconds ahead are written as if they were on time. -/
theorem Node.timestamp_differs_noonAhead :
    (literal ⟨.timestamp (.noonAhead 0 (by decide)), ⟨⟨1, 1⟩, ⟨1, 53⟩⟩⟩).toSql =
        "TIMESTAMP WITH TIME ZONE '2024-01-01 12:00:00+00:00'" ∧
      (literal ⟨.timestamp (.noonAhead 29 (by decide)), ⟨⟨1, 1⟩, ⟨1, 53⟩⟩⟩).toSql =
        "TIMESTAMP WITH TIME ZONE '2024-01-01 12:00:00+00:00'" ∧
      LiteralValue.agrees (.timestamp (.noonAhead 0 (by decide)))
        (.timestamp (.noonAhead 29 (by decide))) = false := by
  obtain ⟨htext, hagrees⟩ := timestamp_agrees_iff (.noonAhead 0 (by decide))
    (.noonAhead 29 (by decide)) ⟨⟨1, 1⟩, ⟨1, 53⟩⟩ ⟨⟨1, 1⟩, ⟨1, 53⟩⟩
  have hone := htext.mpr ⟨.refl _, by decide, by decide⟩
  have hfirst : (literal ⟨.timestamp (.noonAhead 0 (by decide)), ⟨⟨1, 1⟩, ⟨1, 53⟩⟩⟩).toSql =
      "TIMESTAMP WITH TIME ZONE '2024-01-01 12:00:00+00:00'" := by
    rw [toSql_literal]
    decide +kernel
  refine ⟨hfirst, hone ▸ hfirst, ?_⟩
  rw [Bool.eq_false_iff, ne_eq, ((hagrees hone).2.1 rfl rfl).1]
  decide

end SqlScript
