import Mathlib.Dynamics.PeriodicPts.Lemmas
import Mathlib.Tactic

/-! Hashes that fold a text into a 64-bit word, one xor with a byte and one multiplication at a
time. For multipliers such as the FNV prime, texts without NUL bytes lead from every word to every
other: the byte clears the lowest bits, and powers of the multiplier carry that up bit by bit.
-/

namespace MiniKv.Foundations.Fnv

open Function

/-- One round of FNV-1a. -/
def round (prime hash : UInt64) (byte : UInt8) : UInt64 :=
  (hash ^^^ byte.toUInt64) * prime

/-- Some text without NUL bytes leads from one word to another. -/
def Leads (prime first last : UInt64) : Prop :=
  ∃ text : List UInt8, 0 ∉ text ∧ text.foldl (round prime) first = last

/-- The multiplier can be undone, and its square is one plus an odd multiple of eight. -/
structure Mixes (prime : UInt64) : Prop where
  unit : ∃ inverse, prime * inverse = 1
  square : prime.toNat ^ 2 % 16 = 9

variable {prime first middle last hash : UInt64}

-- Leading back and forth

theorem Leads.refl (prime hash : UInt64) : Leads prime hash hash :=
  ⟨[], by simp, rfl⟩

theorem Leads.trans (early : Leads prime first middle) (late : Leads prime middle last)
    : Leads prime first last := by
  obtain ⟨text, noNul, rfl⟩ := early
  obtain ⟨rest, noNulRest, rfl⟩ := late
  exact ⟨text ++ rest, by simp [noNul, noNulRest], List.foldl_append⟩

theorem leads_round (prime hash : UInt64) {byte : UInt8} (nonzero : byte ≠ 0)
    : Leads prime hash (round prime hash byte) :=
  ⟨[byte], by simpa using nonzero.symm, rfl⟩

theorem foldl_replicate {α β : Type} (f : α → β → α) (start : α) (item : β) (count : Nat)
    : (List.replicate count item).foldl f start = (fun state => f state item)^[count] start := by
  induction count generalizing start with
  | zero => rfl
  | succ count ih => rw [List.replicate_succ, List.foldl_cons, ih, iterate_succ_apply]

theorem Mixes.round_injective (mixes : Mixes prime) (byte : UInt8)
    : Injective (fun hash => round prime hash byte) := by
  obtain ⟨inverse, unit⟩ := mixes.unit
  intro left right same
  have undone : (left ^^^ byte.toUInt64) * prime * inverse
      = (right ^^^ byte.toUInt64) * prime * inverse := congrArg (· * inverse) same
  rw [UInt64.mul_assoc, UInt64.mul_assoc, unit, UInt64.mul_one, UInt64.mul_one] at undone
  have back := congrArg (· ^^^ byte.toUInt64) undone
  simpa [UInt64.xor_assoc] using back

instance finiteUInt64 : Finite UInt64 :=
  Finite.of_injective UInt64.toFin (fun _ _ same => UInt64.toFin_inj.mp same)

/-- A round on a finite set is undone by repeating it. -/
theorem Mixes.leads_back (mixes : Mixes prime) (hash : UInt64) {byte : UInt8}
    (nonzero : byte ≠ 0)
    : Leads prime (round prime hash byte) hash := by
  obtain ⟨period, positive, periodic⟩ :=
    mem_periodicPts.mp ((mixes.round_injective byte).mem_periodicPts hash)
  obtain ⟨count, rfl⟩ := Nat.exists_eq_succ_of_ne_zero (Nat.pos_iff_ne_zero.mp positive)
  refine ⟨List.replicate count byte, ?_, ?_⟩
  · intro member
    exact nonzero (List.eq_of_mem_replicate member).symm
  · rw [foldl_replicate]
    exact periodic

/-- By induction on the text, each round undone in turn. -/
theorem Mixes.leads_symm (mixes : Mixes prime) (leads : Leads prime first last)
    : Leads prime last first := by
  obtain ⟨text, noNul, rfl⟩ := leads
  induction text generalizing first with
  | nil => exact .refl _ _
  | cons byte rest ih =>
      have nonzero : byte ≠ 0 := fun zero => noNul (zero ▸ List.mem_cons_self)
      exact (ih (fun member => noNul (List.mem_cons_of_mem _ member))).trans
        (mixes.leads_back first nonzero)

-- Changing the low byte, and multiplying

/-- Every byte is the difference of two bytes that are not zero. -/
theorem exists_xor_eq (byte : UInt8)
    : ∃ left right : UInt8, left ≠ 0 ∧ right ≠ 0 ∧ left = byte ^^^ right := by
  by_cases one : byte = 1
  · exact ⟨3, 2, by decide, by decide, by rw [one]; decide⟩
  · refine ⟨byte ^^^ 1, 1, ?_, by decide, rfl⟩
    intro zero
    exact one (UInt8.xor_eq_zero_iff.mp zero)

/-- Two texts that differ in one byte meet, which amounts to a xor with any byte. -/
theorem Mixes.leads_xor (mixes : Mixes prime) (hash : UInt64) (byte : UInt8)
    : Leads prime hash (hash ^^^ byte.toUInt64) := by
  obtain ⟨left, right, leftNonzero, rightNonzero, difference⟩ := exists_xor_eq byte
  have meet : round prime hash left = round prime (hash ^^^ byte.toUInt64) right := by
    rw [round, round, difference, UInt8.toUInt64_xor, UInt64.xor_assoc]
  have there := leads_round prime hash leftNonzero
  rw [meet] at there
  exact there.trans (mixes.leads_back _ rightNonzero)

theorem Mixes.leads_mul (mixes : Mixes prime) (hash : UInt64)
    : Leads prime hash (hash * prime) := by
  have there := (mixes.leads_xor hash 1).trans
    (@leads_round prime (hash ^^^ (1 : UInt8).toUInt64) 1 (by decide))
  rwa [round, UInt64.xor_assoc, UInt64.xor_self, UInt64.xor_zero] at there

theorem Mixes.leads_pow (mixes : Mixes prime) (hash : UInt64) (count : Nat)
    : ∃ power, Leads prime hash power
        ∧ power.toNat = hash.toNat * prime.toNat ^ count % 2 ^ 64 := by
  induction count with
  | zero => exact ⟨hash, .refl _ _, by simp [Nat.mod_eq_of_lt hash.toNat_lt]⟩
  | succ count ih =>
      obtain ⟨power, leads, value⟩ := ih
      refine ⟨power * prime, leads.trans (mixes.leads_mul power), ?_⟩
      rw [UInt64.toNat_mul, value, Nat.mod_mul_mod, Nat.mul_assoc, ← pow_succ]

-- Clearing all bits

/-- Squaring moves the lowest bit above the first one up by one. -/
theorem Mixes.pow_eq (mixes : Mixes prime) (steps : Nat)
    : ∃ half, prime.toNat ^ 2 ^ (steps + 1) = 1 + 2 ^ (steps + 3) * (2 * half + 1) := by
  induction steps with
  | zero =>
      refine ⟨prime.toNat ^ 2 / 16, ?_⟩
      have square := mixes.square
      have split := Nat.div_add_mod (prime.toNat ^ 2) 16
      rw [square] at split
      norm_num
      omega
  | succ steps ih =>
      obtain ⟨half, power⟩ := ih
      refine ⟨half + 2 ^ (steps + 1) * (2 * half + 1) ^ 2, ?_⟩
      rw [pow_succ 2 (steps + 1), pow_mul, power]
      ring

theorem xor_one (number : Nat)
    : number ^^^ 1 = if number % 2 = 0 then number + 1 else number - 1 := by
  have quotient : (number ^^^ 1) / 2 = number / 2 := by
    simpa using @Nat.xor_div_two_pow number 1 1
  have remainder : (number ^^^ 1) % 2 = number % 2 ^^^ 1 := by
    simpa using @Nat.xor_mod_two_pow number 1 1
  rcases Nat.mod_two_eq_zero_or_one number with even | odd
  · rw [even, Nat.zero_xor] at remainder
    rw [if_pos even]
    omega
  · rw [odd, Nat.xor_self] at remainder
    rw [if_neg (by omega)]
    omega

/-- The lowest bits can be cleared, by induction on their number: the low byte directly, and the
next bit, if it is set, by a power of the multiplier between two changes of the last bit.
-/
theorem Mixes.leads_cleared (mixes : Mixes prime) {bits : Nat} (least : 8 ≤ bits)
    (most : bits ≤ 64) (hash : UInt64)
    : ∃ cleared, Leads prime hash cleared ∧ 2 ^ bits ∣ cleared.toNat := by
  induction bits, least using Nat.le_induction with
  | base =>
      refine ⟨_, mixes.leads_xor hash hash.toUInt8, Nat.dvd_of_mod_eq_zero ?_⟩
      have low : (hash.toUInt8.toUInt64).toNat = hash.toNat % 2 ^ 8 := by simp
      rw [UInt64.toNat_xor, low, Nat.xor_mod_two_pow, Nat.mod_mod, Nat.xor_self]
  | succ bits least ih =>
      obtain ⟨cleared, leads, divides⟩ := ih (by omega)
      by_cases done : 2 ^ (bits + 1) ∣ cleared.toNat
      · exact ⟨cleared, leads, done⟩
      · obtain ⟨quotient, value⟩ := divides
        obtain ⟨steps, rfl⟩ : ∃ steps, bits = steps + 3 := ⟨bits - 3, by omega⟩
        obtain ⟨half, power⟩ := mixes.pow_eq steps
        have odd : quotient % 2 = 1 := by
          by_contra even
          apply done
          rw [value, pow_succ]
          exact Nat.mul_dvd_mul_left _ (by omega)
        have evenValue : cleared.toNat % 2 = 0 := by
          apply Nat.mod_eq_zero_of_dvd
          exact ⟨2 ^ (steps + 2) * quotient, by rw [value]; ring⟩
        -- The last bit is set, the word multiplied, and the last bit cleared again.
        have setBit := mixes.leads_xor cleared 1
        have setValue : (cleared ^^^ (1 : UInt8).toUInt64).toNat = cleared.toNat + 1 := by
          rw [UInt64.toNat_xor]
          exact (xor_one _).trans (if_pos evenValue)
        obtain ⟨product, multiplied, productValue⟩ :=
          mixes.leads_pow (cleared ^^^ (1 : UInt8).toUInt64) (2 ^ (steps + 1))
        have one : product.toNat % 2 ^ (steps + 4) = 1 := by
          have expanded : (cleared.toNat + 1) * prime.toNat ^ 2 ^ (steps + 1)
              = 1 + 2 ^ (steps + 4)
                * (quotient / 2 + half + 1 + (2 * half + 1) * 2 ^ (steps + 2) * quotient) := by
            rw [value, power]
            obtain ⟨rest, rfl⟩ : ∃ rest, quotient = 2 * rest + 1 := ⟨quotient / 2, by omega⟩
            rw [show (2 * rest + 1) / 2 = rest by omega]
            ring
          have larger : 1 < 2 ^ (steps + 4) := Nat.one_lt_two_pow (by omega)
          rw [productValue, setValue, expanded,
            Nat.mod_mod_of_dvd _ (Nat.pow_dvd_pow 2 (by omega)), Nat.add_mul_mod_self_left,
            Nat.mod_eq_of_lt larger]
        have oddProduct : product.toNat % 2 = 1 := by
          rw [← Nat.mod_mod_of_dvd product.toNat (dvd_pow_self 2 (by omega : steps + 4 ≠ 0)), one]
        have resetBit := mixes.leads_xor product 1
        refine ⟨_, (leads.trans setBit).trans (multiplied.trans resetBit), ?_⟩
        have resetValue : (product ^^^ (1 : UInt8).toUInt64).toNat = product.toNat - 1 := by
          rw [UInt64.toNat_xor]
          exact (xor_one _).trans (if_neg (by omega))
        have split := Nat.div_add_mod product.toNat (2 ^ (steps + 4))
        rw [one] at split
        exact ⟨_, resetValue.trans (Nat.sub_eq_of_eq_add split.symm)⟩

/-- Texts lead from every word to every other. -/
theorem Mixes.leads (mixes : Mixes prime) (first last : UInt64) : Leads prime first last := by
  have toZero (hash : UInt64) : Leads prime hash 0 := by
    obtain ⟨cleared, leads, divides⟩ := mixes.leads_cleared (by omega) (le_refl 64) hash
    have zero : cleared = 0 := by
      apply UInt64.toNat_inj.mp
      exact Nat.eq_zero_of_dvd_of_lt divides cleared.toNat_lt
    exact zero ▸ leads
  exact (toZero first).trans (mixes.leads_symm (toZero last))

end MiniKv.Foundations.Fnv
