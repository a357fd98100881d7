import MiniKv.Persistence.Rewrite

/-! Writing records and reading them back: lines are cut where records end, and a line parses to
the record it was written for.
-/

namespace MiniKv

open MiniKv.Foundations.Decimal

-- The parts of a record

def Record.command : Record → Command
  | .set _ _ => .set
  | .delete _ => .delete
  | .lpush _ _ => .lpush
  | .rpop _ => .rpop
  | .sadd _ _ => .sadd
  | .srem _ _ => .srem
  | .pexpireat _ _ => .pexpireat

def Record.key : Record → CString
  | .set key _ | .delete key | .lpush key _ | .rpop key | .sadd key _ | .srem key _
  | .pexpireat key _ => key

def Record.value : Record → Option CString
  | .set _ value | .lpush _ value | .sadd _ value | .srem _ value => some value
  | _ => none

/-- The field behind the key. -/
def Record.argument : Record → Option (List UInt8)
  | .pexpireat _ expireAtMs => some (decimalInt expireAtMs.toInt)
  | record => record.value.map CString.bytes

/-- A record about a valid key and a valid value. -/
structure Record.Valid (record : Record) : Prop where
  key : ValidKey record.key
  value : ∀ value, record.value = some value → ValidValue value

theorem Record.Valid.of_key {record : Record} (valid : ValidKey record.key)
    (valueless : record.value = none)
    : record.Valid :=
  ⟨valid, fun value held => absurd (valueless.symm.trans held) (by simp)⟩

/-- A value that the last field of a line can hold: no LF, and no CR at its end. -/
def CString.IsField (value : CString) : Prop :=
  lf ∉ value.bytes ∧ value.bytes.getLast? ≠ some cr

instance (value : CString) : Decidable value.IsField :=
  inferInstanceAs (Decidable (_ ∧ _))

/-- A valid record whose value, if it has one, has a property. -/
structure Record.Carries (property : CString → Prop) (record : Record) : Prop where
  valid : record.Valid
  field : ∀ value, record.value = some value → property value

/-- A record that is written as one line. -/
abbrev Record.OneLine (record : Record) : Prop :=
  record.Carries (fun value => lf ∉ value.bytes)

/-- A record that can be read back. -/
abbrev Record.Readable (record : Record) : Prop :=
  record.Carries CString.IsField

theorem Record.Readable.oneLine {record : Record} (readable : record.Readable)
    : record.OneLine :=
  ⟨readable.valid, fun value held => (readable.field value held).1⟩

/-- The line of a record without its LF. -/
def Record.body (record : Record) : List UInt8 :=
  record.command.word ++ tab :: (record.key.bytes
    ++ match record.argument with
      | some argument => tab :: argument
      | none => [])

theorem Record.bytes_eq (record : Record) : record.bytes = record.body ++ [lf] := by
  cases record <;> simp [Record.bytes, Record.body, formatRecord, Record.command, Record.key,
    Record.argument, Record.value]

variable {record : Record}

theorem decimalInt_notMem {number : Int} {byte : UInt8} (notSign : byte ≠ 45)
    (notDigit : isDigit byte = false)
    : byte ∉ decimalInt number := by
  intro member
  rcases mem_decimalInt member with sign | digit
  · exact notSign sign
  · rw [notDigit] at digit
    exact Bool.false_ne_true digit

/-- A printed deadline is short. -/
theorem length_decimalInt (number : Int64) : (decimalInt number.toInt).length ≤ 66 := by
  have low := number.le_toInt
  have high := number.toInt_lt
  cases shape : number.toInt with
  | ofNat magnitude =>
      rw [shape, Int.ofNat_eq_natCast] at high
      have bound := @length_decimal magnitude 64 (by omega)
      simp only [decimalInt]
      omega
  | negSucc magnitude =>
      rw [shape] at low
      have bound := @length_decimal (magnitude + 1) 64 (by omega)
      simp only [decimalInt, List.length_cons]
      omega

/-- An argument is a value or a printed deadline. -/
theorem Record.argument_cases {argument : List UInt8} (has : record.argument = some argument)
    : (∃ value, record.value = some value ∧ argument = value.bytes)
      ∨ ∃ deadline : Int64, argument = decimalInt deadline.toInt := by
  cases record with
  | set key value => exact .inl ⟨value, rfl, (Option.some.inj has).symm⟩
  | lpush key value => exact .inl ⟨value, rfl, (Option.some.inj has).symm⟩
  | sadd key value => exact .inl ⟨value, rfl, (Option.some.inj has).symm⟩
  | srem key value => exact .inl ⟨value, rfl, (Option.some.inj has).symm⟩
  | delete key => simp [Record.argument, Record.value] at has
  | rpop key => simp [Record.argument, Record.value] at has
  | pexpireat key expireAtMs => exact .inr ⟨expireAtMs, (Option.some.inj has).symm⟩

/-- The argument of a record that is one line. -/
theorem Record.OneLine.argument (oneLine : record.OneLine) {argument : List UInt8}
    (has : record.argument = some argument)
    : 0 ∉ argument ∧ lf ∉ argument ∧ argument.length ≤ kvMaxValueLen := by
  rcases Record.argument_cases has with ⟨value, held, rfl⟩ | ⟨deadline, rfl⟩
  · exact ⟨value.noNul, oneLine.field value held, oneLine.valid.value value held⟩
  · have short := length_decimalInt deadline
    refine ⟨decimalInt_notMem (by decide) (by decide), decimalInt_notMem (by decide) (by decide),
      ?_⟩
    rw [kvMaxValueLen]
    omega

theorem Record.Readable.argument_getLast (readable : record.Readable) {argument : List UInt8}
    (has : record.argument = some argument)
    : argument.getLast? ≠ some cr := by
  rcases Record.argument_cases has with ⟨value, held, rfl⟩ | ⟨deadline, rfl⟩
  · exact (readable.field value held).2
  · intro last
    exact decimalInt_notMem (by decide) (by decide) (List.mem_of_getLast? last)

theorem ValidKey.notMem {key : CString} (valid : ValidKey key) {byte : UInt8}
    (space : isSpace byte = true)
    : byte ∉ key.bytes := by
  intro member
  rw [valid.noSpace byte member] at space
  exact Bool.false_ne_true space

/-- The bytes of a command word are letters. -/
theorem Command.mem_word {command : Command} {byte : UInt8} (member : byte ∈ command.word)
    : byte ≠ 0 ∧ byte ≠ lf := by
  have letters : command.word.all (fun byte => byte != 0 && byte != lf) = true := by
    cases command <;> rfl
  simpa using List.all_eq_true.mp letters byte member

/-- A byte that no part of the body has is not in the body. -/
theorem Record.not_mem_body {byte : UInt8} (notWord : byte ∉ record.command.word)
    (notTab : byte ≠ tab) (notKey : byte ∉ record.key.bytes)
    (notArgument : ∀ argument, record.argument = some argument → byte ∉ argument)
    : byte ∉ record.body := by
  rw [Record.body]
  cases has : record.argument with
  | none => simp [notWord, notTab, notKey]
  | some argument => simp [notWord, notTab, notKey, notArgument argument has]

theorem Record.OneLine.noNul_body (oneLine : record.OneLine) : 0 ∉ record.body :=
  Record.not_mem_body (fun member => (Command.mem_word member).1 rfl) (by decide)
    record.key.noNul (fun _ has => (oneLine.argument has).1)

theorem Record.OneLine.noLf_body (oneLine : record.OneLine) : lf ∉ record.body :=
  Record.not_mem_body (fun member => (Command.mem_word member).2 rfl) (by decide)
    (oneLine.valid.key.notMem (by decide)) (fun _ has => (oneLine.argument has).2.1)

/-- A line fits the buffer of `fgets`. -/
theorem Record.OneLine.length_body (oneLine : record.OneLine)
    : record.body.length < replayLineRoom := by
  have word : record.command.word.length ≤ 9 := by
    cases record.command <;> decide
  have key := oneLine.valid.key.bounded
  simp only [CString.length, kvMaxKeyLen] at key
  rw [Record.body, replayLineRoom]
  cases has : record.argument with
  | none =>
      simp only [List.length_append, List.length_cons, List.length_nil]
      omega
  | some argument =>
      have short := (oneLine.argument has).2.2
      rw [kvMaxValueLen] at short
      simp only [List.length_append, List.length_cons]
      omega

-- Lines

/-- A line that fits the buffer is read up to its LF, by induction on its bytes. -/
theorem readLinesFrom_line {text : List UInt8} (noLf : lf ∉ text) (rest line : List UInt8)
    {room : Nat} (fits : text.length < room)
    : readLinesFrom (text ++ lf :: rest) line room
      = (line ++ text ++ [lf]) :: readLinesFrom rest [] replayLineRoom := by
  induction text generalizing line room with
  | nil => simp [readLinesFrom]
  | cons byte text ih =>
      simp only [List.mem_cons, not_or] at noLf
      simp only [List.length_cons] at fits
      have goesOn : ¬ (byte = lf ∨ room ≤ 1) := by
        rintro (isLf | small)
        · exact noLf.1 isLf.symm
        · omega
      rw [List.cons_append, readLinesFrom, if_neg goesOn, ih noLf.2 _ (by omega)]
      simp

/-- The end of a file without an LF is one more line. -/
theorem readLinesFrom_rest {text : List UInt8} (noLf : lf ∉ text) (line : List UInt8)
    {room : Nat} (fits : text.length < room)
    : readLinesFrom text line room = if line ++ text = [] then [] else [line ++ text] := by
  induction text generalizing line room with
  | nil => simp [readLinesFrom]
  | cons byte text ih =>
      simp only [List.mem_cons, not_or] at noLf
      simp only [List.length_cons] at fits
      have goesOn : ¬ (byte = lf ∨ room ≤ 1) := by
        rintro (isLf | small)
        · exact noLf.1 isLf.symm
        · omega
      rw [readLinesFrom, if_neg goesOn, ih noLf.2 _ (by omega)]
      simp

/-- The lines of a log are its records, and what a crash left of another one.
Witness: induction on the records; each ends at its only LF.
-/
theorem readLines_encode {records : List Record} (oneLine : ∀ record ∈ records, record.OneLine)
    {torn : List UInt8} (noLf : lf ∉ torn) (fits : torn.length < replayLineRoom)
    : readLines (encode records ++ torn)
      = records.map Record.bytes ++ if torn = [] then [] else [torn] := by
  induction records with
  | nil => simpa [readLines, encode] using readLinesFrom_rest noLf [] fits
  | cons record rest ih =>
      have head := oneLine record List.mem_cons_self
      have tail := ih (fun other member => oneLine other (List.mem_cons_of_mem _ member))
      rw [readLines] at tail ⊢
      rw [encode, List.flatMap_cons, List.append_assoc, Record.bytes_eq, List.append_assoc,
        List.singleton_append, readLinesFrom_line head.noLf_body _ _ head.length_body,
        ← encode, tail, List.map_cons, List.cons_append, Record.bytes_eq, List.nil_append]

-- Parsing

theorem Record.Readable.getLast_body (readable : record.Readable)
    (nonempty : record.body ≠ [])
    : record.body.getLast nonempty ≠ lf ∧ record.body.getLast nonempty ≠ cr := by
  have noLf := readable.oneLine.noLf_body
  refine ⟨fun last => noLf (last ▸ List.getLast_mem nonempty), ?_⟩
  intro last
  have isLast : record.body.getLast? = some cr := by
    rw [List.getLast?_eq_some_getLast nonempty, last]
  rw [Record.body] at isLast
  cases has : record.argument with
  | none =>
      simp only [has, List.append_nil] at isLast
      rw [List.getLast?_append_of_ne_nil _ (by simp),
        List.getLast?_cons_of_ne_nil readable.valid.key.nonempty] at isLast
      exact readable.valid.key.notMem (by decide) (List.mem_of_getLast? isLast)
  | some argument =>
      simp only [has] at isLast
      rw [List.getLast?_append_of_ne_nil _ (by simp),
        List.getLast?_cons_of_ne_nil (by simp),
        List.getLast?_append_of_ne_nil _ (by simp)] at isLast
      cases argument with
      | nil => simp [tab, cr] at isLast
      | cons byte argument =>
          rw [List.getLast?_cons_of_ne_nil (by simp)] at isLast
          exact readable.argument_getLast has isLast

/-- Stripping a written line leaves its body. -/
theorem Record.Readable.stripLineEndings_bytes (readable : record.Readable)
    : stripLineEndings record.bytes = record.body := by
  have noNul : 0 ∉ record.body ++ [lf] := by
    simp [readable.oneLine.noNul_body, lf]
  rw [stripLineEndings, Record.bytes_eq, CString.ofBuffer_bytes noNul,
    List.rdropWhile_concat_pos _ _ _ (by decide), List.rdropWhile_eq_self_iff]
  intro nonempty
  obtain ⟨notLf, notCr⟩ := readable.getLast_body nonempty
  simp [notLf, notCr]

/-- No command word is the beginning of another, so the chain finds the written one. -/
theorem findSome_command (command : Command) (rest : List UInt8)
    : commandOrder.findSome? (fun other =>
        (afterCommand other (command.word ++ tab :: rest)).map (fun found => (other, found)))
      = some (command, tab, rest) := by
  cases command <;> rfl

theorem splitAtDelim_field {delim : UInt8} {field rest : List UInt8} (missing : delim ∉ field)
    : splitAtDelim delim (field ++ delim :: rest) = (field, some rest) := by
  have all : ∀ byte ∈ field, (byte != delim) = true := by
    intro byte member
    have other : byte ≠ delim := fun same => missing (same ▸ member)
    simpa using other
  rw [splitAtDelim, List.takeWhile_append_of_pos all, List.dropWhile_append_of_pos all]
  simp

theorem splitAtDelim_last {delim : UInt8} {field : List UInt8} (missing : delim ∉ field)
    : (splitAtDelim delim field).1 = field := by
  apply List.takeWhile_eq_self_iff.mpr
  intro byte member
  have other : byte ≠ delim := fun same => missing (same ▸ member)
  simpa using other

theorem checkedKey_bytes {key : CString} (valid : ValidKey key)
    : checkedKey key.bytes = some key := by
  rw [checkedKey, CString.ofBuffer_self, validateKey_of_valid valid]
  rfl

theorem checkedValue_bytes {value : CString} (valid : ValidValue value)
    : checkedValue value.bytes = some value := by
  rw [checkedValue, CString.ofBuffer_self, validateValue_of_valid valid]
  rfl

theorem parseKeyValue_fields (make : CString → CString → Record) {key value : CString}
    (validKey : ValidKey key) (validValue : ValidValue value)
    : parseKeyValue make tab (key.bytes ++ tab :: value.bytes) = some (make key value) := by
  rw [parseKeyValue, @splitAtDelim_field tab _ _ (validKey.notMem (by decide))]
  simp only [checkedKey_bytes validKey, checkedValue_bytes validValue, Option.bind_some,
    Option.map_some]

theorem parseKey_field (make : CString → Record) {key : CString} (validKey : ValidKey key)
    : parseKey make tab key.bytes = some (make key) := by
  rw [parseKey, @splitAtDelim_last tab _ (validKey.notMem (by decide)), checkedKey_bytes validKey,
    Option.map_some]

/-- A digit is neither skipped nor taken for a sign. -/
theorem isDigit_first {byte : UInt8} (digit : isDigit byte = true)
    : isSpace byte = false ∧ byte ≠ 45 ∧ byte ≠ 43 := by
  refine ⟨?_, ?_, ?_⟩
  · simp only [isDigit, Bool.and_eq_true, decide_eq_true_eq, UInt8.le_iff_toNat_le,
      UInt8.reduceToNat] at digit
    simp only [isSpace, Bool.or_eq_false_iff, Bool.and_eq_false_iff, beq_eq_false_iff_ne, ne_eq,
      decide_eq_false_iff_not, UInt8.le_iff_toNat_le, UInt8.reduceToNat, ← UInt8.toNat_inj]
    omega
  · rintro rfl
    exact absurd digit (by decide)
  · rintro rfl
    exact absurd digit (by decide)

/-- Reading a printed deadline gives it back; nothing is clamped. -/
theorem strtoll_decimalInt (number : Int64) : strtoll (decimalInt number.toInt) = number := by
  have low := number.le_toInt
  have high := number.toInt_lt
  have back : Int64.ofInt (max (-2 ^ 63) (min number.toInt (2 ^ 63 - 1))) = number := by
    rw [min_eq_left (by omega), max_eq_right (by omega), Int64.ofInt_toInt]
  rw [strtoll]
  cases shape : number.toInt with
  | ofNat magnitude =>
      rw [shape] at back
      have value := readDigits_decimal magnitude
      obtain ⟨byte, rest, written, digit⟩ := decimal_eq_cons magnitude
      obtain ⟨notSpace, notMinus, notPlus⟩ := isDigit_first digit
      simp only [decimalInt, written] at value ⊢
      rw [List.dropWhile_cons_of_neg (by simp [notSpace])]
      split
      · next same => exact (notMinus (List.cons.inj same).1).elim
      · next same => exact (notPlus (List.cons.inj same).1).elim
      · rw [value]
        exact back
  | negSucc magnitude =>
      rw [shape] at back
      simp only [decimalInt]
      rw [List.dropWhile_cons_of_neg (by decide)]
      simp only [readDigits_decimal]
      rw [← back]
      rfl

/-- Parsing the line of a record gives the record back. -/
theorem Record.Readable.parseLine_bytes (readable : record.Readable)
    : parseLine record.bytes = some record := by
  have validKey := readable.valid.key
  have validValue := readable.valid.value
  rw [parseLine, readable.stripLineEndings_bytes, Record.body, findSome_command,
    Option.bind_some]
  cases record with
  | set key value => exact parseKeyValue_fields _ validKey (validValue value rfl)
  | lpush key value => exact parseKeyValue_fields _ validKey (validValue value rfl)
  | sadd key value => exact parseKeyValue_fields _ validKey (validValue value rfl)
  | srem key value => exact parseKeyValue_fields _ validKey (validValue value rfl)
  | delete key =>
      simp only [Record.argument, Record.value, Option.map_none, List.append_nil]
      exact parseKey_field _ validKey
  | rpop key =>
      simp only [Record.argument, Record.value, Option.map_none, List.append_nil]
      exact parseKey_field _ validKey
  | pexpireat key expireAtMs =>
      have noTab : tab ∉ key.bytes := ValidKey.notMem validKey (by decide)
      simp only [Record.command, parseArguments, parseDeadline, Record.argument, Record.key,
        splitAtDelim_field noTab]
      simp only [Record.key] at validKey
      simp only [checkedKey_bytes validKey, Option.map_some, strtoll_decimalInt]

theorem validKey_of_checkedKey {text : List UInt8} {key : CString}
    (checked : checkedKey text = some key)
    : ValidKey key := by
  rw [checkedKey] at checked
  cases result : validateKey (some (CString.ofBuffer text)) with
  | error err => simp [result, Except.toOption] at checked
  | ok accepted =>
      obtain rfl : accepted = key := by simpa [result, Except.toOption] using checked
      exact (validateKey_eq_ok.mp result).2

theorem validValue_of_checkedValue {text : List UInt8} {value : CString}
    (checked : checkedValue text = some value)
    : ValidValue value := by
  rw [checkedValue] at checked
  cases result : validateValue (some (CString.ofBuffer text)) with
  | error err => simp [result, Except.toOption] at checked
  | ok accepted =>
      obtain rfl : accepted = value := by simpa [result, Except.toOption] using checked
      exact (validateValue_eq_ok.mp result).2

/-- Whatever a line holds, a record that is read from it is valid. -/
theorem parseLine_valid {line : List UInt8} (parsed : parseLine line = some record)
    : record.Valid := by
  have keyValue : ∀ (make : CString → CString → Record)
      (_ : ∀ key value, (make key value).key = key ∧ (make key value).value = some value)
      (delim : UInt8) (text : List UInt8), parseKeyValue make delim text = some record →
      record.Valid := by
    intro make parts delim text parsed
    rw [parseKeyValue] at parsed
    split at parsed
    · simp at parsed
    · obtain ⟨key, isKey, parsed⟩ := Option.bind_eq_some_iff.mp parsed
      obtain ⟨value, isValue, rfl⟩ := Option.map_eq_some_iff.mp parsed
      obtain ⟨sameKey, sameValue⟩ := parts key value
      refine ⟨sameKey.symm ▸ validKey_of_checkedKey isKey, fun held has => ?_⟩
      obtain rfl := Option.some.inj (sameValue.symm.trans has)
      exact validValue_of_checkedValue isValue
  have keyOnly : ∀ (make : CString → Record)
      (_ : ∀ key, (make key).key = key ∧ (make key).value = none)
      (delim : UInt8) (text : List UInt8), parseKey make delim text = some record →
      record.Valid := by
    intro make parts delim text parsed
    obtain ⟨key, isKey, rfl⟩ := Option.map_eq_some_iff.mp parsed
    obtain ⟨sameKey, sameValue⟩ := parts key
    exact ⟨sameKey.symm ▸ validKey_of_checkedKey isKey, by simp [sameValue]⟩
  rw [parseLine] at parsed
  obtain ⟨⟨command, delim, text⟩, _, parsed⟩ := Option.bind_eq_some_iff.mp parsed
  cases command with
  | set => exact keyValue .set (fun _ _ => ⟨rfl, rfl⟩) delim text parsed
  | delete => exact keyOnly .delete (fun _ => ⟨rfl, rfl⟩) delim text parsed
  | lpush => exact keyValue .lpush (fun _ _ => ⟨rfl, rfl⟩) delim text parsed
  | rpop => exact keyOnly .rpop (fun _ => ⟨rfl, rfl⟩) delim text parsed
  | sadd => exact keyValue .sadd (fun _ _ => ⟨rfl, rfl⟩) delim text parsed
  | srem => exact keyValue .srem (fun _ _ => ⟨rfl, rfl⟩) delim text parsed
  | pexpireat =>
      simp only [parseArguments, parseDeadline] at parsed
      split at parsed
      · simp at parsed
      · obtain ⟨key, isKey, rfl⟩ := Option.map_eq_some_iff.mp parsed
        exact ⟨validKey_of_checkedKey isKey, by simp [Record.value]⟩

-- Values that end in CR

/-- What `strip_line_endings` leaves of a value at the end of its line. -/
def CString.stripped (value : CString) : CString where
  bytes := value.bytes.rdropWhile (fun byte => byte = lf || byte = cr)
  noNul := fun member => value.noNul ((List.rdropWhile_prefix _ _).subset member)

/-- The record that is read from the line of a record. -/
def Record.stripped : Record → Record
  | .set key value => .set key value.stripped
  | .lpush key value => .lpush key value.stripped
  | .sadd key value => .sadd key value.stripped
  | .srem key value => .srem key value.stripped
  | record => record

/-- Nothing in front of a byte that stays is dropped. -/
theorem rdropWhile_behind {drops : UInt8 → Bool} (front : List UInt8) {last : UInt8}
    (stays : drops last = false) (rest : List UInt8)
    : (front ++ last :: rest).rdropWhile drops = front ++ last :: rest.rdropWhile drops := by
  induction rest using List.reverseRecOn with
  | nil => exact List.rdropWhile_concat_neg _ _ _ (by simp [stays])
  | append_singleton rest byte ih =>
      rw [← List.cons_append, ← List.append_assoc, List.rdropWhile_concat, List.rdropWhile_concat,
        ih]
      split <;> simp

theorem CString.stripped_getLast (value : CString)
    : value.stripped.bytes.getLast? ≠ some lf ∧ value.stripped.bytes.getLast? ≠ some cr := by
  have kept : ∀ byte, value.stripped.bytes.getLast? = some byte →
      (decide (byte = lf) || decide (byte = cr)) = false := by
    intro byte last
    have nonempty : value.stripped.bytes ≠ [] := by
      rintro empty
      simp [empty] at last
    rw [List.getLast?_eq_some_getLast nonempty, Option.some.injEq] at last
    have stays := List.rdropWhile_last_not (fun byte => decide (byte = lf) || decide (byte = cr))
      value.bytes nonempty
    rw [← last]
    exact Bool.eq_false_iff.mpr stays
  exact ⟨fun last => absurd (kept lf last) (by decide),
    fun last => absurd (kept cr last) (by decide)⟩

/-- A value without LF is stripped of nothing exactly when it does not end in CR. -/
theorem CString.stripped_eq_self_iff {value : CString} (noLf : lf ∉ value.bytes)
    : value.stripped = value ↔ value.bytes.getLast? ≠ some cr := by
  constructor
  · intro same
    rw [← same]
    exact value.stripped_getLast.2
  · intro field
    refine CString.ext (List.rdropWhile_eq_self_iff.mpr fun nonempty => ?_)
    have last := List.getLast?_eq_some_getLast nonempty
    have notLf : value.bytes.getLast nonempty ≠ lf :=
      fun same => noLf (same ▸ List.getLast_mem nonempty)
    have notCr : value.bytes.getLast nonempty ≠ cr := fun same => field (same ▸ last)
    simp [notLf, notCr]

theorem ValidValue.stripped {value : CString} (valid : ValidValue value)
    : ValidValue value.stripped :=
  ((List.rdropWhile_prefix _ _).length_le).trans valid

theorem CString.stripped_isField {value : CString} (noLf : lf ∉ value.bytes)
    : value.stripped.IsField :=
  ⟨fun member => noLf ((List.rdropWhile_prefix _ _).subset member), value.stripped_getLast.2⟩

theorem Record.OneLine.stripped (oneLine : record.OneLine) : record.stripped.Readable := by
  obtain ⟨⟨validKey, validValue⟩, noLf⟩ := oneLine
  cases record with
  | set key value | lpush key value | sadd key value | srem key value =>
      refine ⟨⟨validKey, ?_⟩, ?_⟩
      · rintro _ ⟨⟩
        exact (validValue value rfl).stripped
      · rintro _ ⟨⟩
        exact CString.stripped_isField (noLf value rfl)
  | delete key | rpop key | pexpireat key deadline =>
      exact ⟨⟨validKey, validValue⟩,
        fun _ held => absurd held (by simp [Record.stripped, Record.value])⟩

theorem Record.OneLine.readable_iff (oneLine : record.OneLine)
    : record.Readable ↔ record.stripped = record := by
  constructor
  · intro readable
    cases record with
    | set key value | lpush key value | sadd key value | srem key value =>
        have same := (CString.stripped_eq_self_iff (oneLine.field value rfl)).mpr
          (readable.field value rfl).2
        simp only [Record.stripped, same]
    | delete key | rpop key | pexpireat key deadline => rfl
  · intro same
    exact same ▸ oneLine.stripped

theorem Record.OneLine.stripLineEndings_bytes (oneLine : record.OneLine)
    : stripLineEndings record.bytes = record.stripped.body := by
  have noNul : 0 ∉ record.body ++ [lf] := by
    simp [oneLine.noNul_body, lf]
  have valued : ∀ (word : List UInt8) (key value : CString),
      (word ++ tab :: (key.bytes ++ tab :: value.bytes)).rdropWhile
          (fun byte => byte = lf || byte = cr)
        = word ++ tab :: (key.bytes ++ tab :: value.stripped.bytes) := by
    intro word key value
    have kept := @rdropWhile_behind (fun byte => byte = lf || byte = cr) (word ++ tab :: key.bytes)
      tab (by decide) value.bytes
    rwa [List.append_assoc, List.append_assoc] at kept
  cases record with
  | set key value | lpush key value | sadd key value | srem key value =>
      rw [stripLineEndings, Record.bytes_eq, CString.ofBuffer_bytes noNul,
        List.rdropWhile_concat_pos _ _ _ (by decide)]
      exact valued _ key value
  | delete key | rpop key | pexpireat key deadline =>
      exact (oneLine.readable_iff.mpr rfl).stripLineEndings_bytes

/-- A record that is one line is read back with its value stripped. -/
theorem Record.OneLine.parseLine_bytes (oneLine : record.OneLine)
    : parseLine record.bytes = some record.stripped := by
  have readable := oneLine.stripped
  rw [← readable.parseLine_bytes, parseLine, parseLine, oneLine.stripLineEndings_bytes,
    readable.stripLineEndings_bytes]

end MiniKv
