import Mathlib.Data.List.TakeWhile
import Mathlib.Tactic

/-! C strings, the argument checks of the store, its status codes and its hash function. -/

namespace MiniKv

/-- A C string: the bytes before its terminating NUL. -/
structure CString where
  bytes : List UInt8
  noNul : 0 ∉ bytes
deriving DecidableEq

/-- The C string a buffer holds: everything before the first NUL byte. -/
def CString.ofBuffer (buffer : List UInt8) : CString where
  bytes := buffer.takeWhile (fun byte => byte != 0)
  noNul := by
    intro member
    simpa using List.mem_takeWhile_imp member

/-- `strlen`. -/
def CString.length (string : CString) : Nat :=
  string.bytes.length

/-- Two C strings with the same bytes are equal. -/
@[ext]
theorem CString.ext {left right : CString} (same : left.bytes = right.bytes)
    : left = right := by
  cases left
  cases right
  cases same
  rfl

/-- A buffer without NUL bytes is read back whole. -/
theorem CString.ofBuffer_bytes {buffer : List UInt8} (noNul : 0 ∉ buffer)
    : (CString.ofBuffer buffer).bytes = buffer := by
  apply List.takeWhile_eq_self_iff.mpr
  intro byte member
  have nonzero : byte ≠ 0 := fun zero => noNul (zero ▸ member)
  simpa using nonzero

/-- Reading a C string's own bytes back gives the string. -/
@[simp]
theorem CString.ofBuffer_self (string : CString)
    : CString.ofBuffer string.bytes = string :=
  CString.ext (CString.ofBuffer_bytes string.noNul)

theorem CString.ofBuffer_terminated {text : List UInt8} (noNul : 0 ∉ text) (rest : List UInt8)
    : (CString.ofBuffer (text ++ 0 :: rest)).bytes = text := by
  have nonzero : ∀ byte ∈ text, (byte != 0) = true := by
    intro byte member
    simpa using fun zero : byte = 0 => noNul (zero ▸ member)
  change (text ++ 0 :: rest).takeWhile (fun byte => byte != 0) = text
  rw [List.takeWhile_append_of_pos nonzero, List.takeWhile_cons_of_neg (by decide),
    List.append_nil]

/-- The bytes of an ASCII text. -/
def ascii (text : List Char) : List UInt8 :=
  text.map (fun char => UInt8.ofNat char.toNat)

/-- `bounded_strlen`: counts bytes up to the NUL, stopping one past `maxLen`. -/
def boundedStrlen : List UInt8 → Nat → Nat
  | [], _ => 0
  | _ :: _, 0 => 1
  | _ :: rest, maxLen + 1 => boundedStrlen rest maxLen + 1

/-- The bounded length is the length cut off one past the bound, by byte induction. -/
theorem boundedStrlen_eq (bytes : List UInt8) (maxLen : Nat)
    : boundedStrlen bytes maxLen = min bytes.length (maxLen + 1) := by
  induction bytes generalizing maxLen with
  | nil => simp [boundedStrlen]
  | cons byte rest ih =>
      cases maxLen with
      | zero => simp [boundedStrlen]
      | succ maxLen =>
          rw [boundedStrlen, ih, List.length_cons]
          omega

def kvMaxKeyLen : Nat := 256
def kvMaxValueLen : Nat := 4096

def kvOk : Int := 0
def kvErrNotFound : Int := 1
def kvErrInternal : Int := -1
def kvErrInvalidParam : Int := -2
def kvErrKeyTooLong : Int := -3
def kvErrValTooLong : Int := -4
def kvErrEmptyKey : Int := -5
def kvErrKeyWhitespace : Int := -6
def kvErrCapacityFull : Int := -7
def kvErrBudgetExceeded : Int := -8
def kvErrIo : Int := -9
def kvErrAgain : Int := -10
def kvErrWrongType : Int := -11

/-- The C conversion of a `size_t` to the `int` a function returns. -/
def toCInt (count : Nat) : Int :=
  Int.bmod count (2 ^ 32)

/-- `isspace` of the C locale. -/
def isSpace (byte : UInt8) : Bool :=
  byte == 32 || (9 ≤ byte && byte ≤ 13)

/-- `validate_key`: the key itself, or the first status code that applies. A null pointer is
`none`.
-/
def validateKey (key : Option CString) : Except Int CString :=
  match key with
  | none => .error kvErrInvalidParam
  | some key =>
      let len := boundedStrlen key.bytes kvMaxKeyLen
      if len = 0 then .error kvErrEmptyKey
      else if kvMaxKeyLen < len then .error kvErrKeyTooLong
      else if key.bytes.any isSpace then .error kvErrKeyWhitespace
      else .ok key

/-- `validate_value`: the value itself, or the status code that applies. -/
def validateValue (value : Option CString) : Except Int CString :=
  match value with
  | none => .error kvErrInvalidParam
  | some value =>
      if kvMaxValueLen < boundedStrlen value.bytes kvMaxValueLen then .error kvErrValTooLong
      else .ok value

/-- The keys that `validateKey` accepts: non-empty, at most 256 bytes and free of
whitespace.
-/
structure ValidKey (key : CString) : Prop where
  nonempty : key.bytes ≠ []
  bounded : key.length ≤ kvMaxKeyLen
  noSpace : ∀ byte ∈ key.bytes, isSpace byte = false

/-- The values that `validateValue` accepts: at most 4096 bytes. -/
def ValidValue (value : CString) : Prop :=
  value.length ≤ kvMaxValueLen

/-- Key validation accepts exactly the valid keys and returns them unchanged. -/
theorem validateKey_eq_ok {key : Option CString} {accepted : CString}
    : validateKey key = .ok accepted ↔ key = some accepted ∧ ValidKey accepted := by
  cases key with
  | none => simp [validateKey]
  | some key =>
      have length := boundedStrlen_eq key.bytes kvMaxKeyLen
      simp only [validateKey, length, Option.some.injEq]
      split_ifs with empty long space
      · have nil : key.bytes = [] := by
          rw [← List.length_eq_zero_iff]
          simp only [kvMaxKeyLen] at empty
          omega
        simp only [false_iff, not_and]
        rintro rfl valid
        exact valid.nonempty nil
      · simp only [false_iff, not_and]
        rintro rfl valid
        have bounded := valid.bounded
        simp only [CString.length, kvMaxKeyLen] at bounded long
        omega
      · simp only [false_iff, not_and]
        rintro rfl valid
        obtain ⟨byte, member, isSp⟩ := List.any_eq_true.mp space
        simp [valid.noSpace byte member] at isSp
      · simp only [Except.ok.injEq]
        constructor
        · rintro rfl
          refine ⟨rfl, ?_, ?_, ?_⟩
          · intro nil
            simp [nil] at empty
          · simp only [CString.length, kvMaxKeyLen] at long ⊢
            omega
          · intro byte member
            simpa using (by simpa using space : ∀ b ∈ key.bytes, isSpace b = false) byte member
        · exact fun accepted => accepted.1

/-- Value validation accepts exactly the valid values and returns them unchanged. -/
theorem validateValue_eq_ok {value : Option CString} {accepted : CString}
    : validateValue value = .ok accepted ↔ value = some accepted ∧ ValidValue accepted := by
  cases value with
  | none => simp [validateValue]
  | some value =>
      have length := boundedStrlen_eq value.bytes kvMaxValueLen
      simp only [validateValue, length, Option.some.injEq, ValidValue, CString.length]
      split_ifs with long
      · simp only [false_iff, not_and]
        rintro rfl
        simp only [kvMaxValueLen] at long ⊢
        omega
      · simp only [Except.ok.injEq]
        constructor
        · rintro rfl
          refine ⟨rfl, ?_⟩
          simp only [kvMaxValueLen] at long ⊢
          omega
        · exact fun accepted => accepted.1

theorem validateKey_of_valid {key : CString} (valid : ValidKey key)
    : validateKey (some key) = .ok key :=
  validateKey_eq_ok.mpr ⟨rfl, valid⟩

theorem validateValue_of_valid {value : CString} (valid : ValidValue value)
    : validateValue (some value) = .ok value :=
  validateValue_eq_ok.mpr ⟨rfl, valid⟩

/-- `hash_key`: 64-bit FNV-1a of the key, modulo the number of buckets. -/
def hashKey (key : CString) (bucketCount : Nat) : Nat :=
  (key.bytes.foldl (fun hash byte => (hash ^^^ byte.toUInt64) * 1099511628211)
    (1469598103934665603 : UInt64)).toNat
  % bucketCount

/-- A hash selects a bucket of a non-empty array. -/
theorem hashKey_lt (key : CString) {bucketCount : Nat} (positive : 0 < bucketCount)
    : hashKey key bucketCount < bucketCount :=
  Nat.mod_lt _ positive

/-- The codes of refused arguments. -/
def argumentErrors : List Int :=
  [kvErrInvalidParam, kvErrEmptyKey, kvErrKeyTooLong, kvErrKeyWhitespace, kvErrValTooLong]

theorem validateKey_error {key : Option CString} {err : Int}
    (refused : validateKey key = .error err)
    : err ∈ argumentErrors := by
  cases key with
  | none =>
      obtain rfl := Except.error.inj refused
      decide
  | some key =>
      simp only [validateKey] at refused
      split_ifs at refused
      all_goals
        obtain rfl := Except.error.inj refused
        decide

theorem validateValue_error {value : Option CString} {err : Int}
    (refused : validateValue value = .error err)
    : err ∈ argumentErrors := by
  cases value with
  | none =>
      obtain rfl := Except.error.inj refused
      decide
  | some value =>
      simp only [validateValue] at refused
      split_ifs at refused
      obtain rfl := Except.error.inj refused
      decide

theorem argumentErrors_negative {err : Int} (refused : err ∈ argumentErrors) : err < 0 := by
  revert err
  decide

/-- Both arguments are accepted as they are, or a negative code is reported for one of them. -/
theorem validate_cases (key value : CString)
    : (∃ err, err < 0 ∧ ¬ (ValidKey key ∧ ValidValue value)
        ∧ (validateKey (some key) = .error err
          ∨ validateKey (some key) = .ok key ∧ validateValue (some value) = .error err))
      ∨ ValidKey key ∧ ValidValue value ∧ validateKey (some key) = .ok key
        ∧ validateValue (some value) = .ok value := by
  cases checkedKey : validateKey (some key) with
  | error err =>
      refine .inl ⟨err, argumentErrors_negative (validateKey_error checkedKey), ?_, .inl rfl⟩
      rintro ⟨validKey, _⟩
      rw [validateKey_of_valid validKey] at checkedKey
      contradiction
  | ok accepted =>
      obtain ⟨same, validKey⟩ := validateKey_eq_ok.mp checkedKey
      obtain rfl := Option.some.inj same
      cases checkedValue : validateValue (some value) with
      | error err =>
          refine .inl ⟨err, argumentErrors_negative (validateValue_error checkedValue), ?_,
            .inr ⟨rfl, rfl⟩⟩
          rintro ⟨_, validValue⟩
          rw [validateValue_of_valid validValue] at checkedValue
          contradiction
      | ok acceptedValue =>
          obtain ⟨same, validValue⟩ := validateValue_eq_ok.mp checkedValue
          obtain rfl := Option.some.inj same
          exact .inr ⟨validKey, validValue, rfl, rfl⟩

end MiniKv
