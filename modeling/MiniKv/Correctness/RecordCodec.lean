import MiniKv.Invariants.Mutations

/-! Records in the log and what is read back. The format neither escapes nor counts, so a value with
an LF becomes two lines, and one that ends in CR loses it; a record as long as the formatting buffer
is not written at all.
-/

namespace MiniKv

variable {record : Record} {value : CString}

/-- Nothing, or lines with an LF at the end of the last one. -/
def WholeLines (log : List UInt8) : Prop :=
  log = [] ∨ log.getLast? = some lf

theorem readLinesFrom_append (front rest line : List UInt8) (room : Nat)
    : readLinesFrom (front ++ lf :: rest) line room
      = readLinesFrom (front ++ [lf]) line room ++ readLines rest := by
  induction front generalizing line room with
  | nil => simp [readLinesFrom, readLines]
  | cons byte front ih =>
      simp only [List.cons_append, readLinesFrom]
      split
      · rw [ih, List.cons_append]
      · exact ih _ _

/-- `fgets` starts a new line behind whole lines. -/
theorem readLines_append {log : List UInt8} (whole : WholeLines log) (rest : List UInt8)
    : readLines (log ++ rest) = readLines log ++ readLines rest := by
  rcases whole with rfl | last
  · rfl
  · obtain ⟨front, rfl⟩ := List.getLast?_eq_some_iff.mp last
    rw [List.append_assoc, List.singleton_append]
    exact readLinesFrom_append front rest [] replayLineRoom

/-- The record is written to the file in full, is one line of any log, and is read back. -/
structure Record.Logged (aof : Aof) (record : Record) : Prop where
  written : (aof.writeAofRecord record.bytes .ok).1 = kvOk
    ∧ (aof.writeAofRecord record.bytes .ok).2.2.log = aof.log ++ record.bytes
  line : ∀ before rest, WholeLines before →
    readLines (before ++ (record.bytes ++ rest))
      = readLines before ++ record.bytes :: readLines rest
  parsed : parseLine record.bytes = some record

theorem Record.OneLine.readLines_bytes (oneLine : record.OneLine) (rest : List UInt8)
    : readLines (record.bytes ++ rest) = record.bytes :: readLines rest := by
  rw [Record.bytes_eq, List.append_assoc, List.singleton_append, readLines,
    readLinesFrom_line oneLine.noLf_body _ _ oneLine.length_body, List.nil_append]
  rfl

theorem Record.mem_body_of_value {byte : UInt8} (held : record.value = some value)
    (member : byte ∈ value.bytes)
    : byte ∈ record.body := by
  cases record <;> simp_all [Record.value, Record.body, Record.argument]

/-- A line that is read back whole has one LF. -/
theorem noLf_of_readLines {body : List UInt8} (short : body.length < replayLineRoom)
    (one : readLines (body ++ [lf]) = [body ++ [lf]])
    : lf ∉ body := by
  intro member
  obtain ⟨front, more, rfl, noLf⟩ := List.eq_append_cons_of_mem member
  rw [List.append_assoc, List.cons_append, readLines,
    readLinesFrom_line noLf _ _ (by simp at short; omega)] at one
  have first := (List.cons.inj one).1
  simp at first

theorem Record.length_bytes (held : record.value = some value)
    : record.bytes.length
      = record.command.word.length + record.key.length + value.length + 3 := by
  cases record <;> cases held <;>
    simp [Record.bytes, formatRecord, Record.command, Record.key, CString.length] <;> omega

theorem CString.length_ofBuffer_replicate {byte : UInt8} (nonzero : byte ≠ 0) (count : Nat)
    : (CString.ofBuffer (List.replicate count byte)).length = count := by
  rw [CString.length, CString.ofBuffer_bytes
    (fun member => nonzero (List.eq_of_mem_replicate member).symm), List.length_replicate]

/-- A record with a value survives the log exactly when it fits the formatting buffer and its value
has no LF in it and no CR at its end.
-/
theorem record_logged_iff {aof : Aof} (opened : aof.fp ≠ none) (valid : record.Valid)
    (held : record.value = some value)
    : record.Logged aof ↔ record.bytes.length < aofRecordBufSize ∧ value.IsField := by
  constructor
  · rintro ⟨written, line, parsed⟩
    have short := Aof.writeAofRecord_fits opened written.1
    have oneLine : record.OneLine := by
      refine ⟨valid, fun other same member => ?_⟩
      have one := line [] [] (.inl rfl)
      rw [List.nil_append, List.append_nil, Record.bytes_eq] at one
      have fits : record.body.length < replayLineRoom := by
        rw [Record.bytes_eq, List.length_append, aofRecordBufSize] at short
        rw [replayLineRoom]
        omega
      exact noLf_of_readLines fits one (Record.mem_body_of_value same member)
    rw [oneLine.parseLine_bytes, Option.some.injEq] at parsed
    exact ⟨short, (oneLine.readable_iff.mpr parsed).field value held⟩
  · rintro ⟨short, field⟩
    have readable : record.Readable :=
      ⟨valid, fun other same => Option.some.inj (held.symm.trans same) ▸ field⟩
    refine ⟨?_, fun before rest whole => ?_, readable.parseLine_bytes⟩
    · obtain ⟨pos, position⟩ := Option.ne_none_iff_exists'.mp opened
      simp [Aof.writeAofRecord, short, position]
    · rw [readLines_append whole, readable.oneLine.readLines_bytes]

/-- A value with a blank and a TAB in it. -/
theorem record_logged_iff_tab
    : ∃ start,
        kvInitFull 1 0 0 (some ⟨[108], by decide⟩) [] 7 (.at 0) (fun _ => .at 0) = .ok start
        ∧ (Record.sadd ⟨[107], by decide⟩ ⟨[97, 32, tab, 98], by decide⟩).Logged start.aof := by
  obtain ⟨start, isStart, opened⟩ : ∃ start,
      kvInitFull 1 0 0 (some ⟨[108], by decide⟩) [] 7 (.at 0) (fun _ => .at 0) = .ok start
        ∧ start.aof.fp ≠ none := ⟨_, rfl, by decide⟩
  refine ⟨start, isStart, (record_logged_iff opened ⟨?_, ?_⟩ rfl).mpr (by decide)⟩
  · exact ⟨by decide, by decide, List.forall_mem_singleton.mpr (by decide)⟩
  · rintro _ ⟨⟩
    exact show 4 ≤ kvMaxValueLen by decide

/-- A value with an LF in it is two lines, one that ends in CR is read back without it, and a record
of 4096 bytes is not written.
-/
theorem records_not_logged
    : let key : CString := ⟨[107], by decide⟩
      let long : CString := CString.ofBuffer (List.replicate 4089 97)
      (ValidKey key ∧ ValidValue long)
        ∧ readLines (Record.lpush key ⟨[97, lf, 98], by decide⟩).bytes
          = [ascii ['L', 'P', 'U', 'S', 'H'] ++ [tab, 107, tab, 97, lf], [98, lf]]
        ∧ parseLine (Record.srem key ⟨[97, cr], by decide⟩).bytes
          = some (.srem key ⟨[97], by decide⟩)
        ∧ ∃ start,
            kvInitFull 1 0 0 (some ⟨[108], by decide⟩) [] 7 (.at 0) (fun _ => .at 0) = .ok start
            ∧ start.aof.writeAofRecord (Record.set key long).bytes .ok
              = (kvErrIo, some 0, start.aof) := by
  intro key long
  have length : long.length = 4089 := CString.length_ofBuffer_replicate (by decide) 4089
  have valid : ValidValue long := length.trans_le (by decide)
  have tooLong : ¬ (Record.set key long).bytes.length < aofRecordBufSize := by
    rw [Record.length_bytes rfl, length]
    decide
  obtain ⟨start, isStart, opened⟩ : ∃ start,
      kvInitFull 1 0 0 (some ⟨[108], by decide⟩) [] 7 (.at 0) (fun _ => .at 0) = .ok start
        ∧ start.aof.fp = some 0 := ⟨_, rfl, rfl⟩
  have validKey : ValidKey key :=
    ⟨by decide, by decide, List.forall_mem_singleton.mpr (by decide)⟩
  refine ⟨⟨validKey, valid⟩, by decide +kernel, by decide +kernel, start, isStart, ?_⟩
  simp only [Aof.writeAofRecord, if_neg tooLong, opened]

end MiniKv
