import MiniKv.Correctness.SnapshotSave

/-! Corrupted snapshots. The loader goes over a file by its lengths and types, so a changed byte of
a key, a value or an element does not lead it astray, and the first sum of the checksum tells any
single byte from any other. What the lengths cannot say is not protected: a list with `2 ^ 32`
elements is written with the count zero.
-/

namespace MiniKv

open MiniKv.Foundations.LittleEndian
open MiniKv.Foundations.MarkedParts

variable {envs : Nat → CallEnv} {nowMs : Int64}

-- The first sum of the checksum

/-- The sum of bytes. -/
def byteSum (bytes : List UInt8) : Nat :=
  (bytes.map UInt8.toNat).sum

/-- The first sum of `adler32`, by induction on the bytes. -/
theorem adler32_foldl (bytes : List UInt8) {sums : UInt32 × UInt32} (small : sums.1.toNat < 65521)
    : (bytes.foldl
        (fun (sums : UInt32 × UInt32) byte =>
          let s1 := (sums.1 + byte.toUInt32) % 65521
          (s1, (sums.2 + s1) % 65521)) sums).1.toNat
      = (sums.1.toNat + byteSum bytes) % 65521 := by
  induction bytes generalizing sums with
  | nil => simp [byteSum, Nat.mod_eq_of_lt small]
  | cons byte rest ih =>
      have first : ((sums.1 + byte.toUInt32) % 65521).toNat
          = (sums.1.toNat + byte.toNat) % 65521 := by
        have short : byte.toNat < 256 := UInt8.toNat_lt byte
        simp only [UInt32.toNat_mod, UInt32.toNat_add, UInt8.toNat_toUInt32]
        rw [Nat.mod_eq_of_lt (show sums.1.toNat + byte.toNat < 2 ^ 32 by omega)]
        rfl
      rw [List.foldl_cons, ih (by dsimp only; rw [first]; omega)]
      dsimp only
      rw [first]
      simp only [byteSum, List.map_cons, List.sum_cons]
      omega

/-- The low half of a packed checksum is its first sum. -/
theorem packed_low {high low : UInt32} (small : low.toNat < 65536)
    : ((high <<< 16) ||| low).toNat % 65536 = low.toNat := by
  have empty : (high <<< 16).toNat % 2 ^ 16 = 0 := by
    have shifted : (high <<< 16).toNat = high.toNat * 2 ^ 16 % 2 ^ 32 := by
      rw [UInt32.toNat_shiftLeft, Nat.shiftLeft_eq]
      rfl
    omega
  rw [UInt32.toNat_or, show 65536 = 2 ^ 16 from rfl, Nat.or_mod_two_pow, empty, Nat.zero_or]
  exact Nat.mod_eq_of_lt small

theorem adler32_low {checksum : UInt32} (small : checksum.toNat % 65536 < 65521)
    (bytes : List UInt8)
    : (adler32 checksum bytes).toNat % 65536
      = (checksum.toNat % 65536 + byteSum bytes) % 65521 := by
  have low : (checksum &&& 0xffff).toNat = checksum.toNat % 65536 := by
    rw [UInt32.toNat_and]
    exact Nat.and_two_pow_sub_one_eq_mod checksum.toNat 16
  have sum := @adler32_foldl bytes (checksum &&& 0xffff, (checksum >>> 16) &&& 0xffff)
    (by dsimp only; omega)
  rw [adler32, packed_low (by rw [sum]; omega), sum, low]

/-- Consecutive chunks sum up to the sum over their bytes. -/
theorem foldl_adler32_low {checksum : UInt32} (small : checksum.toNat % 65536 < 65521)
    (chunks : List (List UInt8))
    : (chunks.foldl adler32 checksum).toNat % 65536
      = (checksum.toNat % 65536 + byteSum chunks.flatten) % 65521 := by
  induction chunks generalizing checksum with
  | nil => simp [byteSum, Nat.mod_eq_of_lt small]
  | cons chunk rest ih =>
      have low := adler32_low small chunk
      rw [List.foldl_cons, ih (by rw [low]; omega), low]
      simp only [byteSum, List.flatten_cons, List.map_append, List.sum_append]
      omega

/-- One changed byte changes the checksum. -/
theorem adler32_detects {before after : List (Bool × List UInt8)} (altered : Altered before after)
    : (partChunks after).foldl adler32 1 ≠ (partChunks before).foldl adler32 1 := by
  intro same
  obtain ⟨old, new, differs, sums⟩ := altered.sum UInt8.toNat
  have shortOld : old.toNat < 256 := UInt8.toNat_lt old
  have shortNew : new.toNat < 256 := UInt8.toNat_lt new
  have other : new.toNat ≠ old.toNat := fun eq => differs (UInt8.toNat_inj.mp eq)
  have lowAfter := @foldl_adler32_low 1 (by decide) (partChunks after)
  have lowBefore := @foldl_adler32_low 1 (by decide) (partChunks before)
  rw [same, lowBefore] at lowAfter
  simp only [byteSum, partChunks, ← text_eq_flatten] at lowAfter sums
  omega

-- Entries with a changed byte

theorem fieldParts_altered {bytes : List UInt8} {after : List (Bool × List UInt8)}
    (altered : Altered (fieldParts bytes) after)
    : ∃ others : List UInt8, others.length = bytes.length ∧ after = fieldParts others := by
  rcases @Altered.of_append _ [_] [_] _ altered with ⟨_, inLength, _⟩ | ⟨_, inBytes, rfl⟩
  · exact absurd inLength (not_altered_of_unmarked (by simp))
  · obtain ⟨others, rfl, length, _⟩ := inBytes.of_singleton
    exact ⟨others, length, by rw [fieldParts, length]; rfl⟩

/-- The lengths of fields stay, by induction on the fields. -/
theorem fieldsParts_altered {values : List (List UInt8)} {after : List (Bool × List UInt8)}
    (altered : Altered (values.flatMap fieldParts) after)
    : ∃ others : List (List UInt8), others.map List.length = values.map List.length
        ∧ after = others.flatMap fieldParts := by
  induction values generalizing after with
  | nil => cases altered
  | cons value rest ih =>
      rw [List.flatMap_cons] at altered
      rcases altered.of_append with ⟨_, first, rfl⟩ | ⟨_, later, rfl⟩
      · obtain ⟨other, length, rfl⟩ := fieldParts_altered first
        exact ⟨other :: rest, by simp [length], rfl⟩
      · obtain ⟨others, lengths, rfl⟩ := ih later
        exact ⟨value :: others, by simp [lengths], rfl⟩

/-- An entry with a changed byte is read like the entry itself. -/
theorem RawEntry.Readable.altered {raw : RawEntry} (readable : raw.Readable)
    {after : List (Bool × List UInt8)} (altered : Altered raw.parts after)
    : ∃ other : RawEntry, other.Readable ∧ after = other.parts := by
  rcases @Altered.of_append _ [_] raw.bodyParts _ altered with
    ⟨_, inDeadline, _⟩ | ⟨_, inBody, rfl⟩
  · exact absurd inDeadline (not_altered_of_unmarked (by simp))
  rcases inBody.of_append with ⟨_, inKey, rfl⟩ | ⟨_, behindKey, rfl⟩
  · obtain ⟨key, length, rfl⟩ := fieldParts_altered inKey
    exact ⟨{ raw with key }, { readable with key := length ▸ readable.key }, rfl⟩
  rcases behindKey.of_append with ⟨_, inType, _⟩ | ⟨_, behindType, rfl⟩
  · exact absurd inType (not_altered_of_unmarked (by simp))
  rcases behindType.of_append with ⟨_, inCount, _⟩ | ⟨_, inValues, rfl⟩
  · refine absurd inCount (not_altered_of_unmarked ?_)
    rw [RawEntry.countParts]
    split <;> simp
  · obtain ⟨values, lengths, rfl⟩ := fieldsParts_altered inValues
    have count : values.length = raw.values.length := by
      simpa using congrArg List.length lengths
    refine ⟨{ raw with values }, ?_, ?_⟩
    · refine { readable with values := ?_, count := ?_ }
      · intro value member
        have length : value.length ∈ raw.values.map List.length :=
          lengths ▸ List.mem_map_of_mem member
        obtain ⟨original, held, same⟩ := List.mem_map.mp length
        exact same ▸ readable.values original held
      · dsimp only
        rw [count]
        exact readable.count
    · rw [RawEntry.parts, RawEntry.bodyParts, RawEntry.countParts, RawEntry.countParts]
      dsimp only
      rw [count]
      rfl

theorem entriesParts_altered {raws : List RawEntry} (readable : ∀ raw ∈ raws, raw.Readable)
    {after : List (Bool × List UInt8)} (altered : Altered (raws.flatMap RawEntry.parts) after)
    : ∃ others : List RawEntry, (∀ raw ∈ others, raw.Readable)
        ∧ after = others.flatMap RawEntry.parts := by
  induction raws generalizing after with
  | nil => cases altered
  | cons raw rest ih =>
      obtain ⟨thisReadable, restReadable⟩ := List.forall_mem_cons.mp readable
      rw [List.flatMap_cons] at altered
      rcases altered.of_append with ⟨_, first, rfl⟩ | ⟨_, later, rfl⟩
      · obtain ⟨other, otherReadable, rfl⟩ := thisReadable.altered first
        exact ⟨other :: rest, List.forall_mem_cons.mpr ⟨otherReadable, restReadable⟩, rfl⟩
      · obtain ⟨others, othersReadable, rfl⟩ := ih restReadable later
        exact ⟨raw :: others, List.forall_mem_cons.mpr ⟨thisReadable, othersReadable⟩, rfl⟩

/-- A file with a changed payload byte in front of the checksum is a file with other entries. -/
theorem rawParts_altered {raws : List RawEntry} (readable : ∀ raw ∈ raws, raw.Readable)
    {after : List (Bool × List UInt8)} (altered : Altered (rawParts raws) after)
    : ∃ others : List RawEntry, (∀ raw ∈ others, raw.Readable) ∧ after = rawParts others := by
  rcases altered.of_append with ⟨_, inMagic, _⟩ | ⟨_, behindMagic, rfl⟩
  · exact absurd inMagic (not_altered_of_unmarked (by simp))
  rcases behindMagic.of_append with ⟨_, inEntries, rfl⟩ | ⟨_, inEnd, _⟩
  · obtain ⟨others, othersReadable, rfl⟩ := entriesParts_altered readable inEntries
    exact ⟨others, othersReadable, rfl⟩
  · exact absurd inEnd (not_altered_of_unmarked (by simp))

-- The loader refuses what is not intact

/-- A file that is not intact is refused, whether or not buffers can be allocated. -/
theorem kvLoadSnapshot_refuses {file : List UInt8} (broken : (decodeSnapshot file).2 = false)
    (store : Store) (nowMs : Int64) (envs : Nat → CallEnv)
    : (kvLoadSnapshot store file nowMs envs).1 = kvErrIo := by
  simp only [kvLoadSnapshot]
  cases opened : Reader.readBytes { rest := file, checksum := 1 } snapshotMagic.length with
  | none => rfl
  | some read =>
      obtain ⟨magic, reader⟩ := read
      by_cases right : magic = snapshotMagic
      · simp only [right, ne_eq, not_true_eq_false, if_false]
        cases loads : loadEntries nowMs envs (file.length + 1) { reader, store, nth := 0 } with
        | error failed => rfl
        | ok loaded =>
            obtain ⟨entries, readEntries⟩ := loadEntries_reads loads
            simp only [decodeSnapshot, opened, right, ne_eq, not_true_eq_false, if_false,
              readEntries, Reader.checks, Bool.and_eq_false_iff, decide_eq_false_iff_not,
              beq_eq_false_iff_ne] at broken
            by_cases short : loaded.reader.rest.length < 4
            · simp only [if_pos short]
            · have wrong := broken.resolve_left (fun few => few (Nat.not_lt.mp short))
              simp only [if_neg short, if_pos wrong]
      · simp only [ne_eq, right, not_false_eq_true, if_true]

-- Corrupted files

/-- The parts of the file that a table is saved to. Payload are the bytes of keys, of values and of
elements, and the four bytes of the checksum.
-/
def Table.snapshotParts (table : Table) (nowMs : Int64) : List (Bool × List UInt8) :=
  let parts := rawParts (table.savedRaws nowMs)
  parts ++ [(true, leBytes 4 ((partChunks parts).foldl adler32 1).toNat)]

/-- Which bytes of the file are payload. -/
def Table.payloadMarks (table : Table) (nowMs : Int64) : List Bool :=
  marks (table.snapshotParts nowMs)

theorem Table.WellFormed.text_snapshotParts {table : Table} (wf : table.WellFormed) (nowMs : Int64)
    : text (table.snapshotParts nowMs) = kvSaveInternalUnlocked table nowMs := by
  rw [kvSaveInternalUnlocked_raw (fun entry member _ => wf.entries entry member),
    Table.snapshotParts, text_append, text_cons]
  exact congrArg _ (List.append_nil _)

/-- A stored checksum checks against the right one only. -/
theorem Reader.checks_eq_false {stored : List UInt8} {checksum : UInt32}
    (wrong : stored ≠ leBytes 4 checksum.toNat) (four : stored.length = 4)
    : Reader.checks { rest := stored, checksum } = false := by
  have whole : stored.take 4 = stored := List.take_of_length_le (by omega)
  simp only [Reader.checks, whole, Bool.and_eq_false_iff, beq_eq_false_iff_ne]
  refine .inr (fun same => wrong ?_)
  have written := leBytes_leValue stored
  rw [four, ← same] at written
  exact written.symm

/-- A file with a changed byte is not intact: its entries are read as before, but either the
checksum over them or the stored one is another.
-/
theorem decodeSnapshot_altered {raws : List RawEntry} (readable : ∀ raw ∈ raws, raw.Readable)
    {after : List (Bool × List UInt8)}
    (altered : Altered
      (rawParts raws ++ [(true, leBytes 4 ((partChunks (rawParts raws)).foldl adler32 1).toNat)])
      after)
    : (decodeSnapshot (text after)).2 = false := by
  rcases altered.of_append with ⟨_, inEntries, rfl⟩ | ⟨_, inChecksum, rfl⟩
  · obtain ⟨others, othersReadable, rfl⟩ := rawParts_altered readable inEntries
    have differs := adler32_detects inEntries
    have spelled := decodeSnapshot_raw othersReadable
      (leBytes 4 ((partChunks (rawParts raws)).foldl adler32 1).toNat)
    rw [text_append, text_cons, show text ([] : List (Bool × List UInt8)) = [] from rfl,
      List.append_nil, spelled]
    refine Reader.checks_eq_false ?_ (leBytes_length 4 _)
    intro same
    have numbers := congrArg leValue same
    rw [leValue_leBytes_of_lt (UInt32.toNat_lt _), leValue_leBytes_of_lt (UInt32.toNat_lt _)]
      at numbers
    exact differs (UInt32.toNat_inj.mp numbers.symm)
  · obtain ⟨stored, rfl, four, wrong⟩ := inChecksum.of_singleton
    have spelled := decodeSnapshot_raw readable stored
    rw [text_append, text_cons, show text ([] : List (Bool × List UInt8)) = [] from rfl,
      List.append_nil, spelled]
    exact Reader.checks_eq_false wrong (four.trans (leBytes_length 4 _))

/-- A file that `kv_save` has written is refused when any single byte of its payload has changed, by
every store and at any time. This needs element counts that fit 32 bits and no deadline that is
written like the end marker.
-/
theorem corrupted_payload_refused {table : Table} (wf : table.WellFormed) {saveTime : Int64}
    (counted : ∀ entry ∈ table.entries, entry.isSaved saveTime = true →
      entry.value.values.length < 2 ^ 32)
    (deadlines : ∀ entry ∈ table.entries, entry.isSaved saveTime = true → entry.expireAtMs ≠ -1)
    {position : Nat} {byte : UInt8}
    (payload : (table.payloadMarks saveTime)[position]? = some true)
    (changed : (kvSaveInternalUnlocked table saveTime)[position]? ≠ some byte) (store : Store)
    (loadTime : Int64) (envs : Nat → CallEnv)
    : (kvLoadSnapshot store ((kvSaveInternalUnlocked table saveTime).set position byte) loadTime
        envs).1
      = kvErrIo := by
  have readable : ∀ raw ∈ table.savedRaws saveTime, raw.Readable := by
    intro raw member
    obtain ⟨entry, kept, rfl⟩ := List.mem_map.mp member
    obtain ⟨here, live⟩ := List.mem_filter.mp kept
    exact (wf.entries entry here).readable (counted entry here live) (deadlines entry here live)
  rw [← wf.text_snapshotParts] at changed ⊢
  obtain ⟨after, altered, same⟩ := exists_altered payload changed
  rw [same]
  exact kvLoadSnapshot_refuses (decodeSnapshot_altered readable altered) store loadTime envs

/-- The key of a saved string becomes a NUL. -/
theorem corrupted_payload_refused_nul
    : ∃ start, kvInitFull 1 0 0 none [] 7 (.at 0) (fun _ => .at 0) = .ok start
        ∧ let saved :=
            (kvSet start (some ⟨[107], by decide⟩) (some ⟨[97], by decide⟩) (.at 1)).2
          (kvLoadSnapshot (Store.fresh 1 0 0 9 [])
            ((kvSaveInternalUnlocked saved.table 5).set 20 0) 6 (fun _ => .at 6)).1 = kvErrIo := by
  have opened : kvInitFull 1 0 0 none [] 7 (.at 0) (fun _ => .at 0) = .ok _ := rfl
  have wf := (kvSet_matches (kvInitFull_sound opened).wellFormed rfl (CallEnv.clean_at 1)
    (some ⟨[107], by decide⟩) (some ⟨[97], by decide⟩)).table.wellFormed
  exact ⟨_, opened, corrupted_payload_refused wf (by decide +kernel) (by decide +kernel)
    (by decide +kernel) (by decide +kernel) _ _ _⟩

-- A list that is too long to be counted

/-- A table with one binding has one entry. -/
theorem Table.WellFormed.entries_of_single {table : Table} (wf : table.WellFormed) {key : CString}
    {binding : Binding} (only : table.logical = (∅ : LogicalMap).insert key binding)
    : ∃ entry, table.entries = [entry] ∧ entry.key = key ∧ entry.binding = binding := by
  have bound : ∀ entry ∈ table.entries, entry.key = key ∧ entry.binding = binding := by
    intro entry member
    have shown := wf.logical_of_mem member
    rw [only] at shown
    by_cases same : entry.key = key
    · rw [same, Finmap.lookup_insert, Option.some.injEq] at shown
      exact ⟨same, shown.symm⟩
    · rw [Finmap.lookup_insert_of_ne _ same, Finmap.lookup_empty] at shown
      contradiction
  have present : table.logical.lookup key = some binding := by
    rw [only, Finmap.lookup_insert]
  rw [wf.logical_lookup, Option.map_eq_some_iff] at present
  obtain ⟨entry, found, _⟩ := present
  obtain ⟨member, _⟩ := Table.WellFormed.mem_of_lookup found
  have distinct : (table.entries.map Entry.key).Nodup := wf.placed.distinct
  cases entries : table.entries with
  | nil =>
      rw [entries] at member
      contradiction
  | cons first rest =>
      rw [entries] at bound distinct
      cases rest with
      | nil => exact ⟨first, rfl, bound first List.mem_cons_self⟩
      | cons second others =>
          have sameFirst := (bound first List.mem_cons_self).1
          have sameSecond := (bound second (by simp)).1
          simp [sameFirst, sameSecond] at distinct

/-- The one list of a table, as its file has it. -/
theorem Table.WellFormed.savedRaws_of_list {table : Table} (wf : table.WellFormed) {key : CString}
    {values : List CString}
    (only : table.logical = (∅ : LogicalMap).insert key ⟨.list values.reverse, 0⟩) (nowMs : Int64)
    : table.savedRaws nowMs = [⟨0, key.bytes, 1, values.map CString.bytes⟩] := by
  obtain ⟨entry, entries, rfl, binding⟩ := wf.entries_of_single only
  have valid := (wf.entries entry (by simp [entries])).value
  obtain ⟨key, payload, deadline, used⟩ := entry
  obtain ⟨content, rfl⟩ := Binding.mk.inj binding
  cases payload with
  | list links =>
      have items : links.toList = values.reverse := Content.list.inj content
      have backward : links.toListBackward = values := by
        rw [(ListWellFormed.links valid).toListBackward_eq, items, List.reverse_reverse]
      rw [Table.savedRaws, entries]
      simp only [List.filter_cons, Entry.isSaved, decide_true, Bool.true_or, if_true,
        List.filter_nil, List.map_cons, List.map_nil, Entry.raw, Payload.typeByte, Payload.values,
        backward]
      rfl
  | _ => cases content

/-- The values at the tail of the list. Behind a count of zero the loader takes the first one for a
deadline and a key length, the lengths of the next two for the key, and the start of the third for
an unknown type, the end marker and the checksum.
-/
def misread : List CString :=
  [⟨[97, 97, 97, 97, 5], by decide⟩, CString.ofBuffer [],
    ⟨[255, 255, 255, 255, 255, 255, 255, 255, 255, 47, 13, 188, 197], by decide⟩]

/-- These values and more others. -/
def overlong (more : Nat) : List CString :=
  misread ++ List.replicate (more + 1) ⟨[120], by decide⟩

/-- The parts of the file up to the length of the first of the others. The count of the elements is
written in 32 bits.
-/
def misreadParts : List (Bool × List UInt8) :=
  [(false, snapshotMagic), (false, leBytes 8 0), (false, leBytes 4 1), (true, [107]), (false, [1]),
      (false, leBytes 4 (2 ^ 32))]
    ++ (misread.map CString.bytes).flatMap fieldParts ++ [(false, leBytes 4 1)]

/-- The loader takes the first 62 bytes for an intact file. -/
theorem misreadParts_intact
    : (decodeSnapshot ((text misreadParts).take 62)).2 = true := by
  decide +kernel

theorem rawParts_overlong {more : Nat} (full : more + 4 = 2 ^ 32)
    : ∃ after, rawParts [⟨0, [107], 1, (overlong more).map CString.bytes⟩]
        = misreadParts ++ (true, [120]) :: after := by
  have count : ((overlong more).map CString.bytes).length = 2 ^ 32 := by
    rw [List.length_map, overlong, List.length_append, List.length_replicate, ← full]
    exact Nat.add_comm _ _
  have values : (overlong more).map CString.bytes
      = misread.map CString.bytes ++ [120] :: List.replicate more [120] := by
    rw [overlong, List.map_append, List.map_replicate, List.replicate_succ]
  refine ⟨(List.replicate more [120]).flatMap fieldParts ++ [(false, leBytes 8 snapshotEnd)], ?_⟩
  simp only [rawParts, List.flatMap_cons, List.flatMap_nil, List.append_nil, RawEntry.parts,
    RawEntry.bodyParts, RawEntry.countParts, count, if_neg (show (1 : UInt8) ≠ 0 by decide)]
  rw [values, List.flatMap_append, List.flatMap_cons]
  simp only [misreadParts, List.append_assoc, List.cons_append, List.nil_append, fieldParts]
  rfl

theorem overlong_valid (more : Nat) : ∀ value ∈ overlong more, ValidValue value := by
  intro value member
  rcases List.mem_append.mp member with early | late
  · have lengths : ∀ value ∈ misread, value.length ≤ kvMaxValueLen := by decide
    exact lengths value early
  · rw [List.eq_of_mem_replicate late]
    exact show 1 ≤ 4096 by decide

/-- The file of an overlong list is accepted, whatever is written over a payload byte behind the
part that the loader reads.
-/
theorem overlong_unnoticed {more : Nat} (full : more + 4 = 2 ^ 32)
    : let saved := pushAll (lpushInto ⟨[107], by decide⟩) (fun _ => .at 1) (overlong more)
        (Store.fresh 1 0 0 7 []) 0
      ∃ position, (saved.table.payloadMarks 5)[position]? = some true
        ∧ ∀ byte, Loadable ((kvSaveInternalUnlocked saved.table 5).set position byte) := by
  intro saved
  have accepted : validateKey (some ⟨[107], by decide⟩) = .ok ⟨[107], by decide⟩ := rfl
  have key : ValidKey ⟨[107], by decide⟩ := (validateKey_eq_ok.mp accepted).2
  have sound : (Store.fresh 1 0 0 7 []).Sound :=
    ⟨Store.fresh_wellFormed (by decide) 0 0 7 [], rfl⟩
  have quiet : Quiet (fun _ => .at 1) 1 := ⟨fun _ => CallEnv.clean_at 1, fun _ => rfl⟩
  have loads := pushAll_loads (lpushInto_loads key) quiet sound (overlong_valid more) 0
  have nonempty : overlong more ≠ [] := List.cons_ne_nil _ _
  rw [Store.fresh_logical] at loads
  have only := loads.table.logical.trans
    (applyRecords_lpush 1 nonempty (Finmap.lookup_empty _))
  have wf := loads.table.wellFormed
  obtain ⟨after, parts⟩ := rawParts_overlong full
  rw [← wf.text_snapshotParts, Table.payloadMarks, Table.snapshotParts,
    wf.savedRaws_of_list only 5, parts]
  simp only [List.append_assoc, List.cons_append]
  refine ⟨(text misreadParts).length, marks_append_cons _ _ _ _ _, ?_⟩
  intro byte
  rw [loadable_iff, text_append_cons, ← List.take_append_drop 62 (text misreadParts),
    List.append_assoc]
  exact decodeSnapshot_append misreadParts_intact _

/-- A list of `2 ^ 32` elements is saved with the count zero. The loader then finds an end marker
and its checksum within the elements, and changes behind them go unnoticed.
-/
theorem corrupted_payload_unnoticed
    : ∃ start, kvInitFull 1 0 0 none [] 7 (.at 0) (fun _ => .at 0) = .ok start
        ∧ let saved := pushAll (lpushInto ⟨[107], by decide⟩) (fun _ => .at 1)
            (overlong (2 ^ 32 - 4)) start 0
          ∃ position, (saved.table.payloadMarks 5)[position]? = some true
            ∧ ∀ byte, (kvLoadSnapshot (Store.fresh 1 0 0 9 [])
                ((kvSaveInternalUnlocked saved.table 5).set position byte) 6
                (fun _ => .at 6)).1 = kvOk := by
  have opened : kvInitFull 1 0 0 none [] 7 (.at 0) (fun _ => .at 0)
      = .ok (Store.fresh 1 0 0 7 []) := rfl
  obtain ⟨position, payload, loads⟩ :=
    @overlong_unnoticed (2 ^ 32 - 4) (Nat.sub_add_cancel (by decide))
  exact ⟨_, opened, position, payload, fun byte => loads byte _ _ _ (fun _ => rfl)⟩

end MiniKv
