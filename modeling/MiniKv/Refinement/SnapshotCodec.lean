import MiniKv.Foundations.MarkedParts
import MiniKv.Invariants.Containers
import MiniKv.Refinement.Dumps
import MiniKv.Refinement.SnapshotFormat

/-! Decoding undoes encoding: the file that `kv_save` writes spells the entries it was given.
Writer and reader sum the same chunks, so their checksums agree.
-/

namespace MiniKv

open MiniKv.Foundations.ChainedTable
open MiniKv.Foundations.DoublyLinked
open MiniKv.Foundations.LittleEndian
open MiniKv.Foundations.MarkedParts

/-- Writes chunks one after another. -/
def Writer.writeAll (writer : Writer) (chunks : List (List UInt8)) : Writer :=
  chunks.foldl Writer.writeBytes writer

/-- The chunks of a string. -/
def CString.chunks (string : CString) : List (List UInt8) :=
  [leBytes 4 string.length, string.bytes]

/-- The chunks of the counter in front of the elements of a container. -/
def Payload.countChunks : Payload → List (List UInt8)
  | .string _ => []
  | .list links => [leBytes 4 links.count]
  | .set chains => [leBytes 4 chains.count]

/-- The chunks of an entry behind its deadline. -/
def Entry.bodyChunks (entry : Entry) : List (List UInt8) :=
  entry.key.chunks
    ++ ([[entry.value.typeByte]]
      ++ (entry.value.countChunks ++ entry.value.values.flatMap CString.chunks))

def Entry.chunks (entry : Entry) : List (List UInt8) :=
  leBytes 8 entry.expireAtMs.toUInt64.toNat :: entry.bodyChunks

theorem Writer.writeAll_append (writer : Writer) (first second : List (List UInt8))
    : writer.writeAll (first ++ second) = (writer.writeAll first).writeAll second :=
  List.foldl_append

theorem Writer.writeStrings_eq (writer : Writer) (values : List CString)
    : values.foldl Writer.writeString writer
      = writer.writeAll (values.flatMap CString.chunks) := by
  induction values generalizing writer with
  | nil => rfl
  | cons value rest ih =>
      rw [List.foldl_cons, ih, List.flatMap_cons, Writer.writeAll_append]
      rfl

theorem Writer.writeEntry_eq (writer : Writer) (entry : Entry)
    : writer.writeEntry entry = writer.writeAll entry.chunks := by
  have payload : ∀ writer : Writer, writer.writePayload entry.value
      = writer.writeAll
          (entry.value.countChunks ++ entry.value.values.flatMap CString.chunks) := by
    intro writer
    cases entry.value with
    | string value => rfl
    | _ =>
        simp only [Writer.writePayload, Writer.writeStrings_eq, Writer.writeAll_append]
        rfl
  rw [Writer.writeEntry, payload]
  rfl

theorem Writer.writeEntries_eq (writer : Writer) (entries : List Entry)
    : entries.foldl Writer.writeEntry writer
      = writer.writeAll (entries.flatMap Entry.chunks) := by
  induction entries generalizing writer with
  | nil => rfl
  | cons entry rest ih =>
      rw [List.foldl_cons, ih, Writer.writeEntry_eq, List.flatMap_cons, Writer.writeAll_append]

theorem Writer.writeAll_out (writer : Writer) (chunks : List (List UInt8))
    : (writer.writeAll chunks).out = writer.out ++ chunks.flatten := by
  induction chunks generalizing writer with
  | nil => simp [Writer.writeAll]
  | cons chunk rest ih =>
      have first : writer.writeAll (chunk :: rest) = (writer.writeBytes chunk).writeAll rest := rfl
      rw [first, ih, Writer.writeBytes, List.flatten_cons, List.append_assoc]

theorem Writer.writeAll_checksum (writer : Writer) (chunks : List (List UInt8))
    : (writer.writeAll chunks).checksum = chunks.foldl adler32 writer.checksum := by
  induction chunks generalizing writer with
  | nil => rfl
  | cons chunk rest ih => exact ih (writer.writeBytes chunk)

/-- All chunks in front of the checksum. -/
def snapshotChunks (entries : List Entry) : List (List UInt8) :=
  [snapshotMagic] ++ (entries.flatMap Entry.chunks ++ [leBytes 8 snapshotEnd])

/-- The file is its chunks and their checksum. -/
theorem kvSaveInternalUnlocked_eq (table : Table) (nowMs : Int64)
    : kvSaveInternalUnlocked table nowMs
      = let chunks := snapshotChunks (table.entries.filter (Entry.isSaved nowMs))
        chunks.flatten ++ leBytes 4 (chunks.foldl adler32 1).toNat := by
  have written : ((table.entries.filter (Entry.isSaved nowMs)).foldl Writer.writeEntry
        (Writer.writeBytes { out := [], checksum := 1 } snapshotMagic)).writeUint64 snapshotEnd
      = Writer.writeAll { out := [], checksum := 1 }
          (snapshotChunks (table.entries.filter (Entry.isSaved nowMs))) := by
    rw [Writer.writeEntries_eq, snapshotChunks, Writer.writeAll_append, Writer.writeAll_append]
    rfl
  simp only [kvSaveInternalUnlocked, written, Writer.writeAll_out, Writer.writeAll_checksum,
    List.nil_append]

/-- The stream starts with these chunks, and behind them `after` is left. -/
structure Reader.Reads (reader : Reader) (chunks : List (List UInt8)) (after : Reader)
    : Prop where
  rest : reader.rest = chunks.flatten ++ after.rest
  checksum : after.checksum = chunks.foldl adler32 reader.checksum

variable {reader after : Reader}

theorem Reader.Reads.split {first second : List (List UInt8)}
    (reads : reader.Reads (first ++ second) after)
    : ∃ middle, reader.Reads first middle ∧ middle.Reads second after := by
  refine ⟨⟨second.flatten ++ after.rest, first.foldl adler32 reader.checksum⟩, ⟨?_, rfl⟩,
    rfl, ?_⟩
  · rw [reads.rest, List.flatten_append, List.append_assoc]
  · rw [reads.checksum, List.foldl_append]

theorem Reader.Reads.nothing (reads : reader.Reads [] after) : reader = after := by
  obtain ⟨rest, checksum⟩ := reads
  obtain ⟨readerRest, readerChecksum⟩ := reader
  obtain ⟨afterRest, afterChecksum⟩ := after
  simp only [List.flatten_nil, List.nil_append, List.foldl_nil] at rest checksum
  rw [rest, checksum]

theorem Reader.Reads.readBytes {bytes : List UInt8} (reads : reader.Reads [bytes] after)
    : reader.readBytes bytes.length = some (bytes, after) := by
  obtain ⟨rest, checksum⟩ := reads
  obtain ⟨afterRest, afterChecksum⟩ := after
  simp only [List.flatten_cons, List.flatten_nil, List.append_nil, List.foldl_cons,
    List.foldl_nil] at rest checksum
  have enough : ¬ reader.rest.length < bytes.length := by
    rw [rest, List.length_append]
    omega
  rw [Reader.readBytes, if_neg enough, rest, List.take_left, List.drop_left, checksum]

theorem Reader.Reads.readUint32 {number : Nat} (reads : reader.Reads [leBytes 4 number] after)
    (fits : number < 2 ^ 32)
    : reader.readUint32 = some (number, after) := by
  have read := reads.readBytes
  rw [leBytes_length] at read
  rw [Reader.readUint32, read, Option.map_some, leValue_leBytes_of_lt fits]

theorem Reader.Reads.readUint64 {number : Nat} (reads : reader.Reads [leBytes 8 number] after)
    (fits : number < 2 ^ 64)
    : reader.readUint64 = some (number, after) := by
  have read := reads.readBytes
  rw [leBytes_length] at read
  rw [Reader.readUint64, read, Option.map_some, leValue_leBytes_of_lt fits]

-- Entries as bytes

/-- The parts of a field: its length, and its bytes, which are payload. -/
def fieldParts (bytes : List UInt8) : List (Bool × List UInt8) :=
  [(false, leBytes 4 bytes.length), (true, bytes)]

/-- An entry as a file holds it. Its key and its values are any bytes, since a file need not come
from a store.
-/
structure RawEntry where
  expireAt : Nat
  key : List UInt8
  typeByte : UInt8
  values : List (List UInt8)

/-- The counter in front of the elements of a container. -/
def RawEntry.countParts (raw : RawEntry) : List (Bool × List UInt8) :=
  if raw.typeByte = 0 then [] else [(false, leBytes 4 raw.values.length)]

/-- The parts of an entry behind its deadline. -/
def RawEntry.bodyParts (raw : RawEntry) : List (Bool × List UInt8) :=
  fieldParts raw.key
    ++ ([(false, [raw.typeByte])] ++ (raw.countParts ++ raw.values.flatMap fieldParts))

def RawEntry.parts (raw : RawEntry) : List (Bool × List UInt8) :=
  (false, leBytes 8 raw.expireAt) :: raw.bodyParts

/-- An entry that the loader can go over: the deadline is not the end marker, the lengths are
allowed, and there are as many values as the type says.
-/
structure RawEntry.Readable (raw : RawEntry) : Prop where
  deadline : raw.expireAt < snapshotEnd
  key : raw.key.length ≤ kvMaxKeyLen
  values : ∀ value ∈ raw.values, value.length ≤ kvMaxValueLen
  count : raw.typeByte = 0 ∧ raw.values.length = 1
    ∨ (raw.typeByte = 1 ∨ raw.typeByte = 2) ∧ raw.values.length < 2 ^ 32

/-- What the loader makes of an entry: its key and its values end at their first NUL. -/
def RawEntry.saved (raw : RawEntry) : SavedEntry :=
  { expireAt := raw.expireAt
    key := CString.ofBuffer raw.key
    typeByte := raw.typeByte
    values := raw.values.map CString.ofBuffer
    complete := true }

/-- The chunks of parts, without their marks. -/
def partChunks (parts : List (Bool × List UInt8)) : List (List UInt8) :=
  parts.map Prod.snd

theorem Reader.Reads.splitParts {first second : List (Bool × List UInt8)}
    (reads : reader.Reads (partChunks (first ++ second)) after)
    : ∃ middle, reader.Reads (partChunks first) middle
        ∧ middle.Reads (partChunks second) after := by
  rw [partChunks, List.map_append] at reads
  exact reads.split

theorem Reader.Reads.readField {bytes : List UInt8} {maxLen : Nat}
    (reads : reader.Reads (partChunks (fieldParts bytes)) after) (bounded : bytes.length ≤ maxLen)
    (fits : maxLen < 2 ^ 32)
    : reader.readString maxLen true = some (CString.ofBuffer bytes, after) := by
  obtain ⟨middle, length, content⟩ := @Reader.Reads.split reader after [_] [_] reads
  rw [Reader.readString, length.readUint32 (Nat.lt_of_le_of_lt bounded fits), Option.bind_some]
  simp only [Nat.not_lt.mpr bounded, if_false, if_true, content.readBytes, Option.map_some]

/-- Reading fields back, by induction on them. -/
theorem Reader.Reads.readFields {values : List (List UInt8)}
    (reads : reader.Reads (partChunks (values.flatMap fieldParts)) after)
    (bounded : ∀ value ∈ values, value.length ≤ kvMaxValueLen)
    : reader.readStrings values.length = .ok (values.map CString.ofBuffer, after) := by
  induction values generalizing reader with
  | nil =>
      obtain rfl := Reader.Reads.nothing reads
      rfl
  | cons value rest ih =>
      rw [List.flatMap_cons] at reads
      obtain ⟨middle, first, later⟩ := reads.splitParts
      have read := first.readField (bounded value List.mem_cons_self) (by decide)
      rw [List.length_cons, Reader.readStrings, read]
      simp only [ih later (fun other member => bounded other (List.mem_cons_of_mem _ member)),
        List.map_cons]

/-- The counter in front of the elements is read back. -/
theorem RawEntry.Readable.readCount {raw : RawEntry} (readable : raw.Readable)
    (reads : reader.Reads (partChunks raw.countParts) after)
    : reader.readCount raw.typeByte = some (raw.values.length, after) := by
  rcases readable.count with ⟨isString, one⟩ | ⟨isContainer, counted⟩
  · rw [RawEntry.countParts, if_pos isString] at reads
    obtain rfl := Reader.Reads.nothing reads
    rw [Reader.readCount, if_pos isString, one]
  · have notString : raw.typeByte ≠ 0 := by
      rcases isContainer with same | same <;> rw [same] <;> decide
    rw [RawEntry.countParts, if_neg notString] at reads
    rw [Reader.readCount, if_neg notString, if_pos isContainer]
    exact Reader.Reads.readUint32 reads counted

theorem RawEntry.Readable.readEntry {raw : RawEntry} (readable : raw.Readable)
    (reads : reader.Reads (partChunks raw.bodyParts) after)
    : reader.readEntry raw.expireAt = .ok (raw.saved, after) := by
  obtain ⟨behindKey, key, reads⟩ := reads.splitParts
  obtain ⟨behindType, typeByte, reads⟩ := reads.splitParts
  obtain ⟨behindCount, count, values⟩ := reads.splitParts
  have readKey := key.readField readable.key (by decide)
  have readType := Reader.Reads.readBytes typeByte
  rw [List.length_singleton] at readType
  simp only [Reader.readEntry, readKey, readType, Reader.readValues, readable.readCount count,
    values.readFields readable.values]
  rfl

/-- Reading entries back, by induction on them. -/
theorem Reader.Reads.readEntries {raws : List RawEntry} {fuel : Nat}
    (reads : reader.Reads
      (partChunks (raws.flatMap RawEntry.parts ++ [(false, leBytes 8 snapshotEnd)])) after)
    (readable : ∀ raw ∈ raws, raw.Readable) (enough : raws.length < fuel)
    : reader.readEntries fuel = .ok (raws.map RawEntry.saved, after) := by
  induction raws generalizing reader fuel with
  | nil =>
      obtain ⟨fuel, rfl⟩ := Nat.exists_eq_succ_of_ne_zero (Nat.ne_of_gt enough)
      have marker := Reader.Reads.readUint64 reads (by decide)
      rw [Nat.succ_eq_add_one, Reader.readEntries, marker]
      simp only [if_true, List.map_nil]
  | cons raw rest ih =>
      obtain ⟨fuel, rfl⟩ := Nat.exists_eq_succ_of_ne_zero (Nat.ne_of_gt (Nat.zero_lt_of_lt enough))
      -- The deadline comes first, and it is not the end marker.
      rw [List.flatMap_cons, List.append_assoc, RawEntry.parts, List.cons_append,
        ← List.singleton_append] at reads
      obtain ⟨behindDeadline, deadline, reads⟩ := reads.splitParts
      obtain ⟨behindEntry, body, later⟩ := reads.splitParts
      have thisReadable := readable raw List.mem_cons_self
      have small := thisReadable.deadline
      have read := Reader.Reads.readUint64 deadline (by rw [snapshotEnd] at small; omega)
      rw [Nat.succ_eq_add_one, Reader.readEntries, read]
      simp only [Nat.ne_of_lt small, if_false, thisReadable.readEntry body, List.map_cons]
      rw [ih later (fun other member => readable other (List.mem_cons_of_mem _ member))
        (Nat.lt_of_succ_lt_succ enough)]

/-- All parts in front of the checksum. -/
def rawParts (raws : List RawEntry) : List (Bool × List UInt8) :=
  [(false, snapshotMagic)] ++ (raws.flatMap RawEntry.parts ++ [(false, leBytes 8 snapshotEnd)])

/-- Every entry takes some bytes. -/
theorem length_parts (raws : List RawEntry)
    : raws.length ≤ (text (raws.flatMap RawEntry.parts)).length := by
  induction raws with
  | nil => simp
  | cons raw rest ih =>
      rw [List.flatMap_cons, text_append, List.length_append, RawEntry.parts, text_cons,
        List.length_append, leBytes_length, List.length_cons]
      omega

/-- A file with readable entries spells them, whatever checksum stands behind them. -/
theorem readEntries_raw {raws : List RawEntry} (readable : ∀ raw ∈ raws, raw.Readable)
    (stored : List UInt8)
    : ∃ behindMagic,
        Reader.readBytes { rest := text (rawParts raws) ++ stored, checksum := 1 }
            snapshotMagic.length
          = some (snapshotMagic, behindMagic)
        ∧ behindMagic.readEntries ((text (rawParts raws) ++ stored).length + 1)
          = .ok (raws.map RawEntry.saved,
              { rest := stored, checksum := (partChunks (rawParts raws)).foldl adler32 1 }) := by
  have whole : Reader.Reads { rest := text (rawParts raws) ++ stored, checksum := 1 }
      (partChunks (rawParts raws))
      { rest := stored, checksum := (partChunks (rawParts raws)).foldl adler32 1 } :=
    ⟨by rw [text_eq_flatten]; rfl, rfl⟩
  have enough : raws.length < (text (rawParts raws) ++ stored).length + 1 := by
    have bytes := length_parts raws
    rw [rawParts, text_append, text_append]
    simp only [List.length_append]
    omega
  obtain ⟨behindMagic, magic, reads⟩ := whole.splitParts
  exact ⟨behindMagic, Reader.Reads.readBytes magic, reads.readEntries readable enough⟩

/-- Such a file is intact if and only if its checksum is right. -/
theorem decodeSnapshot_raw {raws : List RawEntry} (readable : ∀ raw ∈ raws, raw.Readable)
    (stored : List UInt8)
    : decodeSnapshot (text (rawParts raws) ++ stored)
      = (raws.map RawEntry.saved,
          Reader.checks
            { rest := stored, checksum := (partChunks (rawParts raws)).foldl adler32 1 }) := by
  obtain ⟨behindMagic, magic, entries⟩ := readEntries_raw readable stored
  rw [decodeSnapshot, magic]
  simp only [ne_eq, not_true_eq_false, if_false, entries]

-- Entries of a store

/-- An entry of a store as bytes. -/
def Entry.raw (entry : Entry) : RawEntry :=
  { expireAt := entry.expireAtMs.toUInt64.toNat
    key := entry.key.bytes
    typeByte := entry.value.typeByte
    values := entry.value.values.map CString.bytes }

/-- An entry as its file spells it. -/
def Entry.saved (entry : Entry) : SavedEntry :=
  { expireAt := entry.expireAtMs.toUInt64.toNat
    key := entry.key
    typeByte := entry.value.typeByte
    values := entry.value.values
    complete := true }

theorem Entry.raw_saved (entry : Entry) : entry.raw.saved = entry.saved := by
  have same : CString.ofBuffer ∘ CString.bytes = id := funext CString.ofBuffer_self
  simp only [RawEntry.saved, Entry.raw, Entry.saved, CString.ofBuffer_self, List.map_map, same,
    List.map_id]

/-- An entry that the format can hold: elements can be counted in 32 bits, and the deadline is not
mistaken for the end marker.
-/
structure Entry.Savable (entry : Entry) : Prop where
  wellFormed : entry.WellFormed
  counted : entry.value.values.length < 2 ^ 32
  deadline : 0 ≤ entry.expireAtMs

theorem flatMap_chunks (values : List CString)
    : values.flatMap CString.chunks
      = partChunks ((values.map CString.bytes).flatMap fieldParts) := by
  rw [partChunks, List.map_flatMap, List.flatMap_map]
  rfl

/-- A container counts its elements, so its counter is the one of the bytes. -/
theorem Payload.WellFormed.countChunks_eq {payload : Payload} (valid : payload.WellFormed)
    : payload.countChunks
      = if payload.typeByte = 0 then [] else [leBytes 4 payload.values.length] := by
  cases payload with
  | string value => rfl
  | list links =>
      have count : links.count = links.toListBackward.length := by
        rw [ListWellFormed.count_eq valid, (ListWellFormed.links valid).toListBackward_eq,
          List.length_reverse]
      rw [Payload.countChunks, count]
      rfl
  | set chains =>
      rw [Payload.countChunks, KvSet.WellFormed.count valid]
      rfl

theorem Entry.WellFormed.chunks_eq {entry : Entry} (wellFormed : entry.WellFormed)
    : entry.chunks = partChunks entry.raw.parts := by
  have count : entry.value.countChunks = partChunks entry.raw.countParts := by
    rw [wellFormed.value.countChunks_eq, RawEntry.countParts, Entry.raw, partChunks,
      List.length_map]
    split <;> rfl
  rw [Entry.chunks, Entry.bodyChunks, count, flatMap_chunks]
  simp only [partChunks, RawEntry.parts, RawEntry.bodyParts, List.map_append, List.map_cons]
  rfl

/-- The file of well-formed entries. -/
theorem snapshotChunks_eq {entries : List Entry} (wellFormed : ∀ entry ∈ entries, entry.WellFormed)
    : snapshotChunks entries = partChunks (rawParts (entries.map Entry.raw)) := by
  have all : entries.flatMap Entry.chunks
      = partChunks ((entries.map Entry.raw).flatMap RawEntry.parts) := by
    rw [partChunks, List.map_flatMap, List.flatMap_map]
    exact List.flatMap_congr (fun entry member => (wellFormed entry member).chunks_eq)
  rw [snapshotChunks, all]
  simp only [partChunks, rawParts, List.map_append]
  rfl

/-- The reader's cast undoes the writer's. -/
theorem ofNat_toUInt64 (number : Int64) : Int64.ofNat number.toUInt64.toNat = number := by
  apply Int64.toBitVec_inj.mp
  exact (BitVec.ofNat_toNat 64 number.toBitVec).trans (BitVec.setWidth_eq _)

/-- Only the deadline -1 is written as the end marker. -/
theorem deadline_lt_end {expireAtMs : Int64} (proper : expireAtMs ≠ -1)
    : expireAtMs.toUInt64.toNat < snapshotEnd := by
  have fits : expireAtMs.toUInt64.toNat < 2 ^ 64 := UInt64.toNat_lt _
  have other : expireAtMs.toUInt64.toNat ≠ snapshotEnd := by
    intro same
    have number := ofNat_toUInt64 expireAtMs
    rw [same] at number
    exact proper (number.symm.trans (by decide))
  rw [snapshotEnd] at other ⊢
  omega

theorem Entry.WellFormed.readable {entry : Entry} (wellFormed : entry.WellFormed)
    (counted : entry.value.values.length < 2 ^ 32) (deadline : entry.expireAtMs ≠ -1)
    : entry.raw.Readable where
  deadline := deadline_lt_end deadline
  key := wellFormed.key.bounded
  values value member := by
    obtain ⟨string, held, rfl⟩ := List.mem_map.mp member
    exact wellFormed.value.values_valid string held
  count := by
    have length : entry.raw.values.length = entry.value.values.length := List.length_map _
    rw [length]
    dsimp only [Entry.raw]
    cases payload : entry.value with
    | string value => exact .inl ⟨rfl, rfl⟩
    | list links => exact .inr ⟨.inl rfl, payload ▸ counted⟩
    | set chains => exact .inr ⟨.inr rfl, payload ▸ counted⟩

theorem Entry.Savable.readable {entry : Entry} (savable : entry.Savable) : entry.raw.Readable := by
  refine savable.wellFormed.readable savable.counted ?_
  intro same
  have nonneg := savable.deadline
  rw [same] at nonneg
  exact absurd nonneg (by decide)

/-- The four bytes of a checksum check against it. -/
theorem Reader.checks_leBytes (checksum : UInt32)
    : Reader.checks { rest := leBytes 4 checksum.toNat, checksum } = true := by
  have fits : checksum.toNat < 256 ^ 4 := UInt32.toNat_lt checksum
  have all : (leBytes 4 checksum.toNat).take 4 = leBytes 4 checksum.toNat :=
    List.take_of_length_le (by rw [leBytes_length])
  simp only [Reader.checks, leBytes_length, all, leValue_leBytes_of_lt fits, beq_self_eq_true,
    Nat.le_refl, decide_true, Bool.and_self]

/-- The saved entries of a table as bytes. -/
def Table.savedRaws (table : Table) (nowMs : Int64) : List RawEntry :=
  (table.entries.filter (Entry.isSaved nowMs)).map Entry.raw

/-- The file is the parts of the saved entries and their checksum. -/
theorem kvSaveInternalUnlocked_raw {table : Table} {nowMs : Int64}
    (wellFormed : ∀ entry ∈ table.entries, entry.isSaved nowMs = true → entry.WellFormed)
    : kvSaveInternalUnlocked table nowMs
      = text (rawParts (table.savedRaws nowMs))
        ++ leBytes 4 ((partChunks (rawParts (table.savedRaws nowMs))).foldl adler32 1).toNat := by
  have chunks := @snapshotChunks_eq (table.entries.filter (Entry.isSaved nowMs))
    (fun entry member =>
      wellFormed entry (List.mem_of_mem_filter member) (List.mem_filter.mp member).2)
  rw [kvSaveInternalUnlocked_eq]
  simp only [chunks, Table.savedRaws, text_eq_flatten]
  rfl

/-- Reading the file that a table was saved to: its live entries, and then nothing but a checksum
that is right.
-/
theorem readEntries_save {table : Table} {nowMs : Int64}
    (savable : ∀ entry ∈ table.entries, entry.isSaved nowMs = true → entry.Savable)
    : ∃ behindMagic after,
        Reader.readBytes { rest := kvSaveInternalUnlocked table nowMs, checksum := 1 }
            snapshotMagic.length
          = some (snapshotMagic, behindMagic)
        ∧ behindMagic.readEntries ((kvSaveInternalUnlocked table nowMs).length + 1)
          = .ok ((table.entries.filter (Entry.isSaved nowMs)).map Entry.saved, after)
        ∧ after.rest.length = 4 ∧ after.checks = true := by
  have readable : ∀ raw ∈ table.savedRaws nowMs, raw.Readable := by
    intro raw member
    obtain ⟨entry, live, rfl⟩ := List.mem_map.mp member
    exact (savable entry (List.mem_of_mem_filter live) (List.mem_filter.mp live).2).readable
  have spelled : (table.savedRaws nowMs).map RawEntry.saved
      = (table.entries.filter (Entry.isSaved nowMs)).map Entry.saved := by
    rw [Table.savedRaws, List.map_map]
    exact List.map_congr_left (fun entry _ => entry.raw_saved)
  rw [kvSaveInternalUnlocked_raw (fun entry member live => (savable entry member live).wellFormed)]
  obtain ⟨behindMagic, magic, entries⟩ := readEntries_raw readable
    (leBytes 4 ((partChunks (rawParts (table.savedRaws nowMs))).foldl adler32 1).toNat)
  exact ⟨behindMagic, _, magic, spelled ▸ entries, leBytes_length 4 _, Reader.checks_leBytes _⟩

/-- The file that a table was saved to spells its live entries and is intact. -/
theorem decodeSnapshot_save {table : Table} {nowMs : Int64}
    (savable : ∀ entry ∈ table.entries, entry.isSaved nowMs = true → entry.Savable)
    : decodeSnapshot (kvSaveInternalUnlocked table nowMs)
      = ((table.entries.filter (Entry.isSaved nowMs)).map Entry.saved, true) := by
  obtain ⟨behindMagic, after, magic, entries, _, intact⟩ := readEntries_save savable
  rw [decodeSnapshot, magic]
  simp only [ne_eq, not_true_eq_false, if_false, entries, intact]

end MiniKv
