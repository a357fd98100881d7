import Mathlib.Tactic

/-! Sums and differences of signed 64-bit words: they are the integer ones exactly when these
fit.
-/

namespace MiniKv.Foundations.SignedWords

/-- The integer is a value of a signed 64-bit word. -/
def Fits (value : Int) : Prop :=
  -2 ^ 63 ≤ value ∧ value < 2 ^ 63

/-- Reduction to a word changes exactly the integers that do not fit. -/
theorem bmod_eq_iff {value : Int} : value.bmod (2 ^ 64) = value ↔ Fits value := by
  constructor
  · intro same
    have low := @Int.le_bmod value (2 ^ 64) (by decide)
    have high := @Int.bmod_lt value (2 ^ 64) (by decide)
    rw [same] at low high
    exact ⟨by simpa using low, by simpa using high⟩
  · intro fits
    refine Int.bmod_eq_of_le ?_ ?_
    · simpa using fits.1
    · simpa using fits.2

/-- An integer that is too large by less than the number of words wraps around once. -/
theorem bmod_of_large {value : Int} (large : 2 ^ 63 ≤ value) (once : value < 2 ^ 64 + 2 ^ 63)
    : value.bmod (2 ^ 64) = value - 2 ^ 64 := by
  rw [← Int.sub_bmod_right]
  refine bmod_eq_iff.mpr ⟨?_, ?_⟩
  · push_cast
    omega
  · push_cast
    omega

variable {left right : Int64}

theorem toInt_add_iff
    : (left + right).toInt = left.toInt + right.toInt ↔ Fits (left.toInt + right.toInt) := by
  rw [Int64.toInt_add, bmod_eq_iff]

theorem toInt_sub_iff
    : (left - right).toInt = left.toInt - right.toInt ↔ Fits (left.toInt - right.toInt) := by
  rw [Int64.toInt_sub, bmod_eq_iff]

/-- A sum that is too large comes out negative. -/
theorem toInt_add_of_large (large : 2 ^ 63 ≤ left.toInt + right.toInt)
    : (left + right).toInt = left.toInt + right.toInt - 2 ^ 64 := by
  have leftBound := left.toInt_lt
  have rightBound := right.toInt_lt
  rw [Int64.toInt_add]
  exact bmod_of_large large (by omega)

end MiniKv.Foundations.SignedWords
