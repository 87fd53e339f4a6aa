import SqlScript.Source.Word
import SqlScript.Decimal.Digits

/-!
# Places in source text

A position is a line and a column, ordered by line first. `Position.infinity` lies behind every
other position and stands for the end of input:

* `le_infinity`: no position lies behind it;
* `le_trans`, `le_antisymm`, `le_total`: the order is linear;
* `lt_iff_not_le`: the strict order is its complement.
-/

namespace SqlScript

/-- A place in source text. -/
structure Position where
  line : UInt32
  column : UInt32
  deriving DecidableEq, Repr, Inhabited

namespace Position

/-- Earlier lines come first, and on one line earlier columns. -/
def Before (a b : Position) : Prop :=
  a.line < b.line ∨ a.line = b.line ∧ a.column < b.column

instance : LT Position := ⟨Before⟩

instance : LE Position := ⟨fun a b => Before a b ∨ a = b⟩

instance (a b : Position) : Decidable (a < b) :=
  inferInstanceAs (Decidable (a.line < b.line ∨ a.line = b.line ∧ a.column < b.column))

instance (a b : Position) : Decidable (a ≤ b) :=
  inferInstanceAs (Decidable (a < b ∨ a = b))

instance : Min Position := ⟨fun a b => if a ≤ b then a else b⟩

instance : Max Position := ⟨fun a b => if a ≤ b then b else a⟩

instance : Ord Position := ⟨fun a b => if a < b then .lt else if a = b then .eq else .gt⟩

/-- The position behind all others: the end of input. -/
def infinity : Position := ⟨maxWord, maxWord⟩

/-- The position some columns to the right; the column stops at the largest one. -/
def advance (p : Position) (columns : UInt32) : Position :=
  ⟨p.line, saturatingAdd p.column columns⟩

/-- The text of a position: line, colon, column. -/
def text (p : Position) : String :=
  Decimal.ofNat p.line.toNat ++ ":" ++ Decimal.ofNat p.column.toNat

/-! ## The order in numbers -/

theorem lt_iff (a b : Position) :
    a < b ↔ a.line.toNat < b.line.toNat ∨
      a.line.toNat = b.line.toNat ∧ a.column.toNat < b.column.toNat := by
  show a.line < b.line ∨ a.line = b.line ∧ a.column < b.column ↔ _
  rw [UInt32.lt_iff_toNat_lt, UInt32.lt_iff_toNat_lt, ← UInt32.toNat_inj]

theorem ext_toNat {a b : Position} (hl : a.line.toNat = b.line.toNat)
    (hc : a.column.toNat = b.column.toNat) : a = b := by
  cases a
  cases b
  simp only [mk.injEq]
  exact ⟨UInt32.toNat_inj.mp hl, UInt32.toNat_inj.mp hc⟩

theorem le_iff (a b : Position) :
    a ≤ b ↔ a.line.toNat < b.line.toNat ∨
      a.line.toNat = b.line.toNat ∧ a.column.toNat ≤ b.column.toNat := by
  constructor
  · rintro (h | rfl)
    · have := (lt_iff a b).mp h
      omega
    · omega
  · intro h
    by_cases hlt : a < b
    · exact Or.inl hlt
    · rw [lt_iff] at hlt
      exact Or.inr (ext_toNat (by omega) (by omega))

theorem le_refl (a : Position) : a ≤ a := Or.inr rfl

theorem le_trans {a b c : Position} (hab : a ≤ b) (hbc : b ≤ c) : a ≤ c := by
  rw [le_iff] at *
  omega

theorem le_antisymm {a b : Position} (hab : a ≤ b) (hba : b ≤ a) : a = b := by
  rw [le_iff] at *
  exact ext_toNat (by omega) (by omega)

theorem le_total (a b : Position) : a ≤ b ∨ b ≤ a := by
  rw [le_iff, le_iff]
  omega

theorem lt_iff_not_le {a b : Position} : a < b ↔ ¬ b ≤ a := by
  rw [lt_iff, le_iff]
  omega

theorem le_of_lt {a b : Position} (h : a < b) : a ≤ b := Or.inl h

theorem lt_of_lt_of_le {a b c : Position} (hab : a < b) (hbc : b ≤ c) : a < c := by
  rw [lt_iff] at *
  rw [le_iff] at hbc
  omega

theorem lt_of_le_of_lt {a b c : Position} (hab : a ≤ b) (hbc : b < c) : a < c := by
  rw [lt_iff] at *
  rw [le_iff] at hab
  omega

theorem le_infinity (p : Position) : p ≤ infinity := by
  have hl := p.line.toNat_lt
  have hc := p.column.toNat_lt
  rw [le_iff]
  simp only [infinity, toNat_maxWord]
  omega

end Position

end SqlScript
