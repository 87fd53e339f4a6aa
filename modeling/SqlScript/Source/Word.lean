/-!
# Counting in one machine word

Line and column numbers are 32-bit words. Sums that would leave the word stop at the largest one:

* `toNat_saturatingAdd`: the sum, or the largest word if the sum is larger.
-/

namespace SqlScript

/-- The largest 32-bit word. -/
def maxWord : UInt32 := 4294967295

/-- The sum of two words, or the largest word where the sum does not fit. -/
def saturatingAdd (a b : UInt32) : UInt32 :=
  if a.toNat + b.toNat < 4294967296 then a + b else maxWord

theorem toNat_maxWord : maxWord.toNat = 4294967295 := rfl

theorem toNat_saturatingAdd (a b : UInt32) :
    (saturatingAdd a b).toNat = min (a.toNat + b.toNat) 4294967295 := by
  unfold saturatingAdd
  split
  · rw [UInt32.toNat_add, Nat.mod_eq_of_lt (by omega)]
    omega
  · rw [toNat_maxWord]
    omega

end SqlScript
