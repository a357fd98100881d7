import Mathlib.Tactic

/-! Little-endian notation of natural numbers in a fixed number of bytes. -/

namespace MiniKv.Foundations.LittleEndian

/-- The low `width` bytes of a number, least significant first. -/
def leBytes : Nat → Nat → List UInt8
  | 0, _ => []
  | width + 1, number => UInt8.ofNat (number % 256) :: leBytes width (number / 256)

/-- The number that bytes denote, least significant first. -/
def leValue : List UInt8 → Nat
  | [] => 0
  | byte :: rest => byte.toNat + 256 * leValue rest

@[simp]
theorem leBytes_length (width number : Nat) : (leBytes width number).length = width := by
  induction width generalizing number with
  | zero => rfl
  | succ width ih => simp [leBytes, ih]

/-- Reading bytes back gives the number modulo what the width can hold. -/
theorem leValue_leBytes (width number : Nat)
    : leValue (leBytes width number) = number % 256 ^ width := by
  induction width generalizing number with
  | zero => simp [leBytes, leValue, Nat.mod_one]
  | succ width ih =>
      have low : (UInt8.ofNat (number % 256)).toNat = number % 256 := by
        simp
      rw [leBytes, leValue, low, ih, Nat.pow_succ, Nat.mul_comm _ 256, Nat.mod_mul]

/-- A number that fits its width is read back unchanged. -/
theorem leValue_leBytes_of_lt {width number : Nat} (fits : number < 256 ^ width)
    : leValue (leBytes width number) = number := by
  rw [leValue_leBytes, Nat.mod_eq_of_lt fits]

/-- Bytes are the notation of the number they denote. -/
theorem leBytes_leValue (bytes : List UInt8) : leBytes bytes.length (leValue bytes) = bytes := by
  induction bytes with
  | nil => rfl
  | cons byte rest ih =>
      have short : byte.toNat < 256 := UInt8.toNat_lt byte
      have low : (byte.toNat + 256 * leValue rest) % 256 = byte.toNat := by omega
      have high : (byte.toNat + 256 * leValue rest) / 256 = leValue rest := by omega
      rw [List.length_cons, leBytes, leValue, low, high, ih, UInt8.ofNat_toNat]

end MiniKv.Foundations.LittleEndian
