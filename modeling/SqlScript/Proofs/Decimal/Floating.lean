import SqlScript.Binary64
import SqlScript.Proofs.Decimal.Reading

/-!
# What is written for a floating-point number

The text of a finite number is a sign, if the number is negative, and digits with a point among
them. Nothing else about the choice of the digits matters here:

* `Binary64.toList_text`: the sign and what follows it;
* `Binary64.mem_unsigned`, `Binary64.point_mem_unsigned`: what follows the sign of a finite number.
-/

namespace SqlScript

open Decimal

theorem Decimal.mem_positional {d : Nat} {e : Int} {c : Char} (h : c ∈ positional d e) :
    c.isDigit = true ∨ c = '.' := by
  unfold positional at h
  split at h
  · rcases List.mem_append.mp h with h | h
    · exact .inl (isDigit_of_mem_digits h)
    · rw [List.eq_of_mem_replicate h]
      exact .inl rfl
  · simp only [List.mem_append, List.mem_cons] at h
    rcases h with h | rfl | h
    · exact .inl (isDigit_of_mem_paddedDigits (List.mem_of_mem_take h))
    · exact .inr rfl
    · exact .inl (isDigit_of_mem_paddedDigits (List.mem_of_mem_drop h))

namespace Binary64

/-- What is written behind the sign of a number. -/
def unsigned (x : Binary64) : List Char :=
  if x.isFinite then withPoint x.magnitudeDigits else ['i', 'n', 'f']

theorem toList_text (x : Binary64) :
    x.text.toList =
      if x.isNaN then ['N', 'a', 'N']
      else if x.isNegative then '-' :: x.unsigned else x.unsigned := by
  unfold text unsigned
  split
  · rfl
  · split <;> split <;> simp

theorem mem_magnitudeDigits {x : Binary64} {c : Char} (h : c ∈ x.magnitudeDigits) :
    c.isDigit = true ∨ c = '.' := by
  unfold magnitudeDigits at h
  split at h
  · rw [List.mem_singleton.mp h]
    exact .inl rfl
  · exact mem_positional h

theorem mem_unsigned {x : Binary64} (hx : x.isFinite = true) {c : Char} (h : c ∈ x.unsigned) :
    c.isDigit = true ∨ c = '.' := by
  rw [unsigned, if_pos hx, withPoint] at h
  split at h
  · exact mem_magnitudeDigits h
  · simp only [List.mem_append, List.mem_cons, List.not_mem_nil, or_false] at h
    rcases h with h | rfl | rfl
    · exact mem_magnitudeDigits h
    · exact .inr rfl
    · exact .inl rfl

theorem point_mem_unsigned {x : Binary64} (hx : x.isFinite = true) : '.' ∈ x.unsigned := by
  rw [unsigned, if_pos hx, withPoint]
  split
  · rename_i h
    exact List.contains_iff_mem.mp h
  · simp

theorem dash_not_mem_unsigned (x : Binary64) : '-' ∉ x.unsigned := by
  intro h
  cases hx : x.isFinite with
  | true => exact absurd (mem_unsigned hx h) (by decide)
  | false =>
    simp [unsigned, hx] at h

end Binary64

end SqlScript
