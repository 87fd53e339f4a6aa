import Mathlib.Algebra.Group.Nat.Defs
import Mathlib.Data.List.Basic
import SqlScript.Decimal.Digits

/-!
# Reading decimal digits back

`Decimal.value` is the number that some digits stand for. What is written for a number has that
number as its value, with zeros in front or without, so the text determines the number:

* `value_digits`, `value_paddedDigits`: the value of what is written for a number;
* `isDigit_of_mem_paddedDigits`, `length_paddedDigits`: what is written are digits, and as many as
  asked for if the number is small enough;
* `digits_inj`, `paddedDigits_inj`, `ofInt_inj`: equal texts are texts of equal numbers.
-/

namespace SqlScript.Decimal

/-- The number that some digits stand for. -/
def value (cs : List Char) : Nat :=
  cs.foldl (fun v c => 10 * v + (c.toNat - '0'.toNat)) 0

theorem value_concat (cs : List Char) (c : Char) :
    value (cs ++ [c]) = 10 * value cs + (c.toNat - '0'.toNat) := by
  simp [value]

/-! ## Digits -/

theorem isDigit_digitChar {d : Nat} (h : d < 10) : (digitChar d).isDigit = true := by
  revert d
  decide

theorem value_digitChar {d : Nat} (h : d < 10) : value [digitChar d] = d := by
  revert d
  decide

theorem value_concat_digitChar (cs : List Char) {d : Nat} (h : d < 10) :
    value (cs ++ [digitChar d]) = 10 * value cs + d := by
  have hd := value_digitChar h
  rw [← List.nil_append [digitChar d], value_concat] at hd
  rw [value_concat]
  simpa [value] using hd

theorem value_digits (n : Nat) : value (digits n) = n := by
  fun_induction digits n with
  | case1 n h => exact value_digitChar h
  | case2 n h ih =>
    rw [value_concat_digitChar _ (Nat.mod_lt n (by decide)), ih]
    omega

theorem digits_inj {m n : Nat} : digits m = digits n ↔ m = n := by
  refine ⟨fun h => ?_, fun h => h ▸ rfl⟩
  rw [← value_digits m, h, value_digits]

theorem isDigit_of_mem_digits {n : Nat} {c : Char} (h : c ∈ digits n) : c.isDigit = true := by
  fun_induction digits n with
  | case1 n hn =>
    rw [List.mem_singleton.mp h]
    exact isDigit_digitChar hn
  | case2 n hn ih =>
    rcases List.mem_append.mp h with h | h
    · exact ih h
    · rw [List.mem_singleton.mp h]
      exact isDigit_digitChar (Nat.mod_lt n (by decide))

theorem digits_ne_nil (n : Nat) : digits n ≠ [] := by
  unfold digits
  split <;> simp

theorem length_digits_le {n w : Nat} (hw : 0 < w) (h : n < 10 ^ w) : (digits n).length ≤ w := by
  induction w generalizing n with
  | zero => cases hw
  | succ w ih =>
    unfold digits
    split
    · exact hw
    · rename_i hn
      have hw' : 0 < w := by
        rcases Nat.eq_zero_or_pos w with rfl | hpos
        · simp at h
          omega
        · exact hpos
      have hdiv : n / 10 < 10 ^ w := by
        rw [Nat.pow_succ] at h
        omega
      rw [List.length_append, List.length_singleton]
      exact Nat.succ_le_succ (ih hw' hdiv)

/-! ## Zeros in front -/

/-- Zeros in front do not change what digits stand for. -/
theorem value_replicate_append (k : Nat) (cs : List Char) :
    value (List.replicate k '0' ++ cs) = value cs := by
  induction k with
  | zero => rfl
  | succ k ih =>
    rw [← ih]
    rfl

theorem value_paddedDigits (w n : Nat) : value (paddedDigits w n) = n := by
  rw [paddedDigits, value_replicate_append, value_digits]

theorem isDigit_of_mem_paddedDigits {w n : Nat} {c : Char} (h : c ∈ paddedDigits w n) :
    c.isDigit = true := by
  rcases List.mem_append.mp h with h | h
  · rw [List.eq_of_mem_replicate h]
    rfl
  · exact isDigit_of_mem_digits h

theorem paddedDigits_ne_nil (w n : Nat) : paddedDigits w n ≠ [] :=
  List.append_ne_nil_of_right_ne_nil _ (digits_ne_nil n)

theorem length_paddedDigits {n w : Nat} (hw : 0 < w) (h : n < 10 ^ w) :
    (paddedDigits w n).length = w := by
  have hle := length_digits_le hw h
  rw [paddedDigits, List.length_append, List.length_replicate]
  omega

theorem paddedDigits_inj {w m n : Nat} : paddedDigits w m = paddedDigits w n ↔ m = n := by
  refine ⟨fun h => ?_, fun h => h ▸ rfl⟩
  rw [← value_paddedDigits w m, h, value_paddedDigits]

/-! ## Texts -/

theorem toList_ofNat (n : Nat) : (ofNat n).toList = digits n :=
  String.toList_ofList

theorem toList_padded (w n : Nat) : (padded w n).toList = paddedDigits w n :=
  String.toList_ofList

theorem digits_ne_cons {n : Nat} {c : Char} (hc : c.isDigit = false) (cs : List Char) :
    digits n ≠ c :: cs := by
  intro h
  rw [isDigit_of_mem_digits (h ▸ List.mem_cons_self)] at hc
  cases hc

theorem toList_ofInt (n : Int) :
    (ofInt n).toList = if n < 0 then '-' :: digits n.natAbs else digits n.natAbs := by
  unfold ofInt
  split
  · rw [String.toList_append, toList_ofNat]
    rfl
  · exact toList_ofNat _

theorem ofInt_inj {m n : Int} : ofInt m = ofInt n ↔ m = n := by
  refine ⟨fun h => ?_, fun h => h ▸ rfl⟩
  have hlist : (ofInt m).toList = (ofInt n).toList := congrArg String.toList h
  rw [toList_ofInt, toList_ofInt] at hlist
  split at hlist <;> split at hlist
  · have habs := digits_inj.mp (List.cons.inj hlist).2
    omega
  · exact absurd hlist.symm (digits_ne_cons rfl _)
  · exact absurd hlist (digits_ne_cons rfl _)
  · have habs := digits_inj.mp hlist
    omega

end SqlScript.Decimal
