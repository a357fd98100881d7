import Mathlib.Data.Nat.Log
import Mathlib.Tactic

/-! Decimal notation in ASCII bytes: writing natural and integer numbers, and reading a number
off the front of a byte sequence.
-/

namespace MiniKv.Foundations.Decimal

/-- The ASCII digit of a number below ten. -/
def digitByte (digit : Nat) : UInt8 :=
  UInt8.ofNat (48 + digit)

def isDigit (byte : UInt8) : Bool :=
  48 ≤ byte && byte ≤ 57

/-- The digits of a number, most significant first; `fuel` bounds their number. -/
def digits : Nat → Nat → List UInt8
  | 0, _ => []
  | fuel + 1, number =>
      if number < 10 then [digitByte number]
      else digits fuel (number / 10) ++ [digitByte (number % 10)]

/-- A natural number in decimal. -/
def decimal (number : Nat) : List UInt8 :=
  digits (Nat.log2 number + 1) number

/-- An integer in decimal, with a minus sign when it is negative. -/
def decimalInt : Int → List UInt8
  | .ofNat number => decimal number
  | .negSucc number => 45 :: decimal (number + 1)

/-- Reads leading digits onto an accumulator and stops at the first other byte. -/
def readDigits : List UInt8 → Nat → Nat
  | [], read => read
  | byte :: rest, read =>
      if isDigit byte then readDigits rest (read * 10 + (byte.toNat - 48)) else read

theorem isDigit_digitByte {digit : Nat} (small : digit < 10)
    : isDigit (digitByte digit) = true ∧ (digitByte digit).toNat - 48 = digit := by
  interval_cases digit <;> decide

theorem mem_digits {fuel number : Nat} {byte : UInt8} (member : byte ∈ digits fuel number)
    : isDigit byte = true := by
  induction fuel generalizing number with
  | zero => simp [digits] at member
  | succ fuel ih =>
      simp only [digits] at member
      split at member
      · next small =>
          rw [List.mem_singleton.mp member]
          exact (isDigit_digitByte small).1
      · rcases List.mem_append.mp member with earlier | last
        · exact ih earlier
        · rw [List.mem_singleton.mp last]
          exact (isDigit_digitByte (Nat.mod_lt _ (by omega))).1

/-- Every byte of a decimal numeral is a digit. -/
theorem mem_decimal {number : Nat} {byte : UInt8} (member : byte ∈ decimal number)
    : isDigit byte = true :=
  mem_digits member

/-- Reading a numeral continues behind it with its value.
Witness: induction on the number of digits; the last digit is read onto the others.
-/
theorem readDigits_digits {fuel number : Nat} (enough : number < 10 ^ fuel)
    (rest : List UInt8)
    : ∃ scale, ∀ read,
        readDigits (digits fuel number ++ rest) read
          = readDigits rest (read * scale + number) := by
  induction fuel generalizing number rest with
  | zero =>
      obtain rfl : number = 0 := by simpa using enough
      exact ⟨1, fun read => by simp [digits]⟩
  | succ fuel ih =>
      simp only [digits]
      split
      · next small =>
          obtain ⟨digit, value⟩ := isDigit_digitByte small
          exact ⟨10, fun read => by simp [readDigits, digit, value]⟩
      · have front : number / 10 < 10 ^ fuel := by
          rw [pow_succ] at enough
          exact Nat.div_lt_of_lt_mul (by omega)
        obtain ⟨digit, value⟩ := isDigit_digitByte (Nat.mod_lt number (by omega : 0 < 10))
        obtain ⟨scale, reads⟩ := ih front (digitByte (number % 10) :: rest)
        refine ⟨scale * 10, fun read => ?_⟩
        rw [List.append_assoc, List.singleton_append, reads]
        simp only [readDigits, digit, if_true, value]
        congr 1
        have split := Nat.div_add_mod number 10
        rw [Nat.add_mul, Nat.mul_assoc]
        omega

/-- Reading a decimal numeral gives its value. -/
theorem readDigits_decimal (number : Nat)
    : readDigits (decimal number) 0 = number := by
  have enough : number < 10 ^ (Nat.log2 number + 1) := by
    have binary : number < 2 ^ (Nat.log2 number + 1) := Nat.lt_log2_self
    exact lt_of_lt_of_le binary (Nat.pow_le_pow_left (by omega) _)
  obtain ⟨scale, reads⟩ := readDigits_digits enough []
  simpa [decimal, readDigits] using reads 0

theorem digits_ne_nil (fuel number : Nat) : digits (fuel + 1) number ≠ [] := by
  simp only [digits]
  split <;> simp

/-- A numeral starts with a digit. -/
theorem decimal_eq_cons (number : Nat)
    : ∃ byte rest, decimal number = byte :: rest ∧ isDigit byte = true := by
  cases shape : decimal number with
  | nil => exact (digits_ne_nil _ _ shape).elim
  | cons byte rest => exact ⟨byte, rest, rfl, @mem_decimal number byte (by simp [shape])⟩

theorem length_digits (fuel number : Nat) : (digits fuel number).length ≤ fuel := by
  induction fuel generalizing number with
  | zero => simp [digits]
  | succ fuel ih =>
      simp only [digits]
      split
      · simp
      · simpa using ih (number / 10)

/-- A numeral is no longer than the number is in binary. -/
theorem length_decimal {number bits : Nat} (small : number < 2 ^ bits)
    : (decimal number).length ≤ bits + 1 := by
  have bound := length_digits (Nat.log2 number + 1) number
  rcases Nat.eq_zero_or_pos number with rfl | positive
  · simp only [Nat.log2_zero] at bound
    rw [decimal, Nat.log2_zero]
    omega
  · have log := (Nat.log2_lt (Nat.ne_of_gt positive)).mpr small
    rw [decimal]
    omega

/-- The bytes of a signed numeral: digits behind an optional minus sign. -/
theorem mem_decimalInt {number : Int} {byte : UInt8} (member : byte ∈ decimalInt number)
    : byte = 45 ∨ isDigit byte = true := by
  cases number with
  | ofNat number => exact .inr (mem_decimal member)
  | negSucc number =>
      rcases List.mem_cons.mp member with sign | digit
      · exact .inl sign
      · exact .inr (mem_decimal digit)

end MiniKv.Foundations.Decimal
