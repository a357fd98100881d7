import MiniKv.Correctness.SnapshotRoundTrip
import MiniKv.Persistence.Disk

/-! Saving over a good snapshot. An error leaves the target alone, unless the temporary file has the
same name; but what a full disk cuts off between the first and the last write is not seen, and then
a file that cannot be loaded takes the place of the good one.
-/

namespace MiniKv

open MiniKv.Foundations.FiniteMaps

variable {reader after : Reader} {more : List UInt8}

-- Files with more bytes behind them

/-- The same stream with more bytes behind it. -/
def Reader.extend (reader : Reader) (more : List UInt8) : Reader :=
  { reader with rest := reader.rest ++ more }

/-- What is read is read as well when there is more behind it. -/
theorem Reader.readBytes_extend {len : Nat} {bytes : List UInt8}
    (read : reader.readBytes len = some (bytes, after))
    : (reader.extend more).readBytes len = some (bytes, after.extend more) := by
  rw [Reader.readBytes] at read
  split at read
  · contradiction
  · next enough =>
      obtain ⟨rfl, rfl⟩ := Prod.mk.inj (Option.some.inj read)
      have inside : len ≤ reader.rest.length := Nat.not_lt.mp enough
      have still : ¬ (reader.extend more).rest.length < len := by
        simp only [Reader.extend, List.length_append]
        omega
      rw [Reader.readBytes, if_neg still]
      simp only [Reader.extend, List.take_append_of_le_length inside,
        List.drop_append_of_le_length inside]

theorem Reader.readUint64_extend {number : Nat} (read : reader.readUint64 = some (number, after))
    : (reader.extend more).readUint64 = some (number, after.extend more) := by
  obtain ⟨⟨bytes, rest⟩, readBytes, same⟩ := Option.map_eq_some_iff.mp read
  obtain ⟨rfl, rfl⟩ := Prod.mk.inj same
  rw [Reader.readUint64, Reader.readBytes_extend readBytes, Option.map_some]

theorem Reader.readUint32_extend {number : Nat} (read : reader.readUint32 = some (number, after))
    : (reader.extend more).readUint32 = some (number, after.extend more) := by
  obtain ⟨⟨bytes, rest⟩, readBytes, same⟩ := Option.map_eq_some_iff.mp read
  obtain ⟨rfl, rfl⟩ := Prod.mk.inj same
  rw [Reader.readUint32, Reader.readBytes_extend readBytes, Option.map_some]

theorem Reader.readString_extend {maxLen : Nat} {string : CString}
    (read : reader.readString maxLen true = some (string, after))
    : (reader.extend more).readString maxLen true = some (string, after.extend more) := by
  obtain ⟨⟨len, middle⟩, length, read⟩ := Option.bind_eq_some_iff.mp read
  rw [Reader.readString, Reader.readUint32_extend length, Option.bind_some]
  simp only [if_true] at read ⊢
  split at read
  · contradiction
  · next short =>
      obtain ⟨⟨bytes, rest⟩, readBytes, same⟩ := Option.map_eq_some_iff.mp read
      obtain ⟨rfl, rfl⟩ := Prod.mk.inj same
      rw [if_neg short, Reader.readBytes_extend readBytes, Option.map_some]

theorem Reader.readStrings_extend {count : Nat} {values : List CString}
    (read : reader.readStrings count = .ok (values, after))
    : (reader.extend more).readStrings count = .ok (values, after.extend more) := by
  induction count generalizing reader values with
  | zero =>
      obtain ⟨rfl, rfl⟩ := Prod.mk.inj (Except.ok.inj read)
      rfl
  | succ count ih =>
      rw [Reader.readStrings] at read ⊢
      cases first : reader.readString kvMaxValueLen true with
      | none => simp [first] at read
      | some result =>
          obtain ⟨value, middle⟩ := result
          simp only [first] at read
          cases rest : middle.readStrings count with
          | error others => simp [rest] at read
          | ok result =>
              obtain ⟨others, last⟩ := result
              simp only [rest] at read
              obtain ⟨rfl, rfl⟩ := Prod.mk.inj (Except.ok.inj read)
              simp only [Reader.readString_extend first, ih rest]

theorem Reader.readValues_extend {expireAt : Nat} {key : CString} {typeByte : UInt8}
    {entry : SavedEntry} (read : reader.readValues expireAt key typeByte = .ok (entry, after))
    : (reader.extend more).readValues expireAt key typeByte = .ok (entry, after.extend more) := by
  have counts : ∀ {count : Nat} {middle : Reader},
      reader.readCount typeByte = some (count, middle) →
        (reader.extend more).readCount typeByte = some (count, middle.extend more) := by
    intro count middle counted
    rw [Reader.readCount] at counted ⊢
    split_ifs at counted ⊢
    · obtain ⟨rfl, rfl⟩ := Prod.mk.inj (Option.some.inj counted)
      rfl
    · exact Reader.readUint32_extend counted
    · obtain ⟨rfl, rfl⟩ := Prod.mk.inj (Option.some.inj counted)
      rfl
  rw [Reader.readValues] at read ⊢
  cases counted : reader.readCount typeByte with
  | none => simp [counted] at read
  | some result =>
      obtain ⟨count, middle⟩ := result
      simp only [counted] at read
      cases strings : middle.readStrings count with
      | error values => simp [strings] at read
      | ok result =>
          obtain ⟨values, last⟩ := result
          simp only [strings] at read
          obtain ⟨rfl, rfl⟩ := Prod.mk.inj (Except.ok.inj read)
          simp only [counts counted, Reader.readStrings_extend strings]

theorem Reader.readEntry_extend {expireAt : Nat} {entry : SavedEntry}
    (read : reader.readEntry expireAt = .ok (entry, after))
    : (reader.extend more).readEntry expireAt = .ok (entry, after.extend more) := by
  rw [Reader.readEntry] at read ⊢
  cases key : reader.readString kvMaxKeyLen true with
  | none => simp [key] at read
  | some result =>
      obtain ⟨name, middle⟩ := result
      simp only [key] at read
      cases typed : middle.readBytes 1 with
      | none => simp [typed] at read
      | some result =>
          obtain ⟨bytes, last⟩ := result
          obtain ⟨typeByte, rfl⟩ := List.length_eq_one_iff.mp (Reader.readBytes_length typed)
          simp only [typed] at read
          simp only [Reader.readString_extend key, Reader.readBytes_extend typed]
          exact Reader.readValues_extend read

theorem Reader.readEntries_extend {fuel enough : Nat} {entries : List SavedEntry}
    (read : reader.readEntries fuel = .ok (entries, after)) (le : fuel ≤ enough)
    : (reader.extend more).readEntries enough = .ok (entries, after.extend more) := by
  induction fuel generalizing reader entries enough with
  | zero => cases read
  | succ fuel ih =>
      obtain ⟨enough, rfl⟩ := Nat.exists_eq_add_of_lt le
      rw [show fuel + enough + 1 = (fuel + enough) + 1 from rfl, Reader.readEntries]
      rw [Reader.readEntries] at read
      cases deadline : reader.readUint64 with
      | none => simp [deadline] at read
      | some result =>
          obtain ⟨expireAt, middle⟩ := result
          simp only [deadline] at read
          simp only [Reader.readUint64_extend deadline]
          split at read
          · next last =>
              obtain ⟨rfl, rfl⟩ := Prod.mk.inj (Except.ok.inj read)
              rw [if_pos last]
          · next proper =>
              rw [if_neg proper]
              cases first : middle.readEntry expireAt with
              | error entries => simp [first] at read
              | ok result =>
                  obtain ⟨entry, behind⟩ := result
                  simp only [first] at read
                  cases rest : behind.readEntries fuel with
                  | error entries => simp [rest] at read
                  | ok result =>
                      obtain ⟨others, last⟩ := result
                      simp only [rest] at read
                      obtain ⟨rfl, rfl⟩ := Prod.mk.inj (Except.ok.inj read)
                      simp only [Reader.readEntry_extend first, ih rest (Nat.le_add_right ..)]

/-- What stands behind the checksum of an intact file is not looked at. -/
theorem decodeSnapshot_append {file : List UInt8} (intact : (decodeSnapshot file).2 = true)
    (more : List UInt8)
    : (decodeSnapshot (file ++ more)).2 = true := by
  rw [decodeSnapshot] at intact
  cases opened : Reader.readBytes { rest := file, checksum := 1 } snapshotMagic.length with
  | none => simp [opened] at intact
  | some result =>
      obtain ⟨magic, behindMagic⟩ := result
      by_cases right : magic = snapshotMagic
      · simp only [opened, right, ne_eq, not_true_eq_false, if_false] at intact
        cases read : behindMagic.readEntries (file.length + 1) with
        | error entries => simp [read] at intact
        | ok result =>
            obtain ⟨entries, last⟩ := result
            simp only [read, Reader.checks, Bool.and_eq_true, decide_eq_true_eq] at intact
            have longer : file.length + 1 ≤ (file ++ more).length + 1 := by simp
            have start := @Reader.readBytes_extend _ _ more _ _ opened
            have entire := @Reader.readEntries_extend _ _ more _ _ _ read longer
            rw [Reader.extend] at start
            simp only [decodeSnapshot, start, right, ne_eq, not_true_eq_false, if_false, entire]
            simp only [Reader.checks, Reader.extend, List.length_append,
              List.take_append_of_le_length intact.1, intact.2, Bool.and_true, decide_eq_true_eq]
            omega
      · simp [opened, right] at intact

/-- A file that is cut off is not intact. -/
theorem decodeSnapshot_take {table : Table} {nowMs : Int64}
    (savable : ∀ entry ∈ table.entries, entry.isSaved nowMs = true → entry.Savable) {kept : Nat}
    (intact : (decodeSnapshot ((kvSaveInternalUnlocked table nowMs).take kept)).2 = true)
    : (kvSaveInternalUnlocked table nowMs).length ≤ kept := by
  obtain ⟨behindMagic, after, magic, entries, length, _⟩ := readEntries_save savable
  generalize kvSaveInternalUnlocked table nowMs = file at *
  have whole : ({ rest := file, checksum := 1 } : Reader)
      = Reader.extend { rest := file.take kept, checksum := 1 } (file.drop kept) := by
    rw [Reader.extend, List.take_append_drop]
  rw [whole] at magic
  rw [decodeSnapshot] at intact
  cases cut : Reader.readBytes { rest := file.take kept, checksum := 1 } snapshotMagic.length with
  | none => simp [cut] at intact
  | some result =>
      obtain ⟨cutMagic, behindCut⟩ := result
      -- What the cut file spells, the whole file spells too, and it has nothing behind it.
      obtain ⟨rfl, rfl⟩ := Prod.mk.inj (Option.some.inj (Reader.readBytes_extend cut ▸ magic))
      simp only [cut, ne_eq, not_true_eq_false, if_false] at intact
      cases read : behindCut.readEntries ((file.take kept).length + 1) with
      | error spelled =>
          simp only [read] at intact
          exact absurd intact Bool.false_ne_true
      | ok result =>
          obtain ⟨spelled, last⟩ := result
          simp only [read] at intact
          have shorter : (file.take kept).length + 1 ≤ file.length + 1 := by
            rw [List.length_take]
            omega
          rw [Reader.readEntries_extend read shorter] at entries
          obtain ⟨_, rfl⟩ := Prod.mk.inj (Except.ok.inj entries)
          have four : 4 ≤ last.rest.length := by
            simp only [Reader.checks, Bool.and_eq_true, decide_eq_true_eq] at intact
            exact intact.1
          simp only [Reader.extend, List.length_append, List.length_drop] at length
          omega

-- What reaches the file

theorem survivors_all {reaches : Nat → Bool} {bytes : List UInt8} {position : Nat}
    (all : ∀ index < bytes.length, reaches (position + index) = true)
    : survivors reaches position bytes = bytes := by
  induction bytes generalizing position with
  | nil => rfl
  | cons byte rest ih =>
      have first : reaches position = true := all 0 (Nat.succ_pos _)
      rw [survivors, if_pos first, ih]
      intro index inside
      have later := all (index + 1) (Nat.succ_lt_succ inside)
      rwa [← Nat.add_assoc, Nat.add_right_comm] at later

theorem survivors_cut (kept : Nat) (bytes : List UInt8) (position : Nat)
    : survivors (fun index => index < kept) position bytes = bytes.take (kept - position) := by
  induction bytes generalizing position with
  | nil => rw [survivors, List.take_nil]
  | cons byte rest ih =>
      rw [survivors, ih]
      by_cases inside : position < kept
      · have more : kept - position = kept - (position + 1) + 1 := by omega
        rw [if_pos (decide_eq_true inside), more, List.take_succ_cons]
      · have none : kept - position = 0 := by omega
        have nor : kept - (position + 1) = 0 := by omega
        rw [if_neg (by simpa using inside), none, nor, List.take_zero, List.take_zero]

-- Saving

/-- `kv_load_snapshot` accepts the file, whatever the store, when its buffers can be allocated. -/
def Loadable (file : List UInt8) : Prop :=
  ∀ (target : Store) (nowMs : Int64) (envs : Nat → CallEnv), BuffersAllocated envs →
    (kvLoadSnapshot target file nowMs envs).1 = kvOk

theorem loadable_iff (file : List UInt8) : Loadable file ↔ (decodeSnapshot file).2 = true := by
  constructor
  · intro loads
    have loaded := loads (Store.fresh 1 0 0 0 []) 0 (fun _ => .at 0) (fun _ => rfl)
    rw [kvLoadSnapshot_eq (fun _ => rfl)] at loaded
    by_contra damaged
    rw [if_neg damaged] at loaded
    exact absurd loaded (show kvErrIo ≠ kvOk by decide)
  · intro intact target nowMs envs allocated
    rw [kvLoadSnapshot_eq allocated, if_pos intact]

/-- `kv_save` returns `KV_OK` and the target holds a file that can be loaded, or it returns an error
and the target is what it was.
-/
def Disk.Safe (disk : Disk) (filename : CString) (saved : Int × Disk) : Prop :=
  (saved.1 = kvOk ∧ ∃ file, saved.2 filename.bytes = some file ∧ Loadable file)
    ∨ (saved.1 ≠ kvOk ∧ saved.2 filename.bytes = disk filename.bytes)

/-- The temporary file is the target exactly when the buffer for its name cuts it to that one. -/
theorem saveTmpName_eq_iff (filename : CString)
    : saveTmpName filename = filename.bytes ↔ filename.length = tmpFileSize - 1 := by
  have bytes : filename.bytes.length = filename.length := rfl
  refine ⟨fun same => ?_, fun long => ?_⟩
  · have length := congrArg List.length same
    simp only [saveTmpName, List.length_take, List.length_append, bytes,
      show (ascii ['.', 't', 'm', 'p']).length = 4 from rfl] at length
    omega
  · rw [saveTmpName, ← long, ← bytes, List.take_left]

theorem Disk.set_other (disk : Disk) {name other : List UInt8} (different : name ≠ other)
    (content : Option (List UInt8))
    : disk.set other content name = disk name :=
  if_neg different

theorem Disk.set_self (disk : Disk) (name : List UInt8) (content : Option (List UInt8))
    : disk.set name content name = content :=
  if_pos rfl

theorem Disk.set_set (disk : Disk) (name : List UInt8) (old new : Option (List UInt8))
    : (disk.set name old).set name new = disk.set name new := by
  funext other
  simp only [Disk.set]
  split <;> rfl

/-- The calls whose results `kv_save` looks at all work. -/
def SaveEnv.Completes (env : SaveEnv) : Prop :=
  env.opened = true ∧ env.magicTaken = snapshotMagic.length ∧ env.checksumTaken = 4
    ∧ env.renamed = true

/-- A save that completes returns `KV_OK`, and the target has what reached the temporary file. -/
theorem kvSave_completes (store : Store) (filename : CString) (nowMs : Int64) {env : SaveEnv}
    (completes : env.Completes) (disk : Disk)
    : let saved := kvSave store (some filename) nowMs env disk
      saved.1 = kvOk ∧ saved.2 filename.bytes
        = some (survivors env.reaches 0 (kvSaveInternalUnlocked store.table nowMs)) := by
  obtain ⟨opened, magic, checksum, renamed⟩ := completes
  simp only [kvSave, opened, magic, checksum, renamed, Bool.true_eq_false, ne_eq, not_true_eq_false,
    if_false, true_and]
  by_cases same : saveTmpName filename = filename.bytes
  · rw [Disk.rename, if_pos same, same, Disk.set_self]
  · rw [Disk.rename, if_neg same, Disk.set_other _ (Ne.symm same), Disk.set_self, Disk.set_self]

/-- A save that does not complete returns an error and removes the temporary file, if it could open
it.
-/
theorem kvSave_fails (store : Store) (filename : CString) (nowMs : Int64) {env : SaveEnv}
    (fails : ¬ env.Completes) (disk : Disk)
    : kvSave store (some filename) nowMs env disk
      = (kvErrIo, if env.opened = false then disk else disk.set (saveTmpName filename) none) := by
  simp only [kvSave]
  split
  · rfl
  · next opened =>
      split
      · rfl
      · next magic =>
          split
          · rfl
          · next checksum =>
              split
              · rw [Disk.set_set]
              · next renamed =>
                  refine absurd ⟨?_, not_not.mp magic, not_not.mp checksum, ?_⟩ fails
                  · simpa using opened
                  · simpa using renamed

/-- Every entry of the table that is saved can be read back. -/
theorem Table.WellFormed.savable {table : Table} (wf : table.WellFormed)
    (small : Each (fun binding => binding.content.elementCount < 2 ^ 32) table.logical)
    {nowMs : Int64} (epoch : 0 ≤ nowMs)
    : ∀ entry ∈ table.entries, entry.isSaved nowMs = true → entry.Savable := by
  intro entry member live
  refine (wf.entries entry member).savable (small _ _ (wf.logical_of_mem member)) ?_
  simp only [Entry.isSaved, Bool.or_eq_true, decide_eq_true_eq] at live
  rcases live with none | ahead
  · rw [none]
    exact Int64.le_refl 0
  · exact Int64.le_of_lt (Int64.lt_of_le_of_lt epoch ahead)

/-- Saving is safe if and only if the calls that `kv_save` looks at work and what reached the file
is an intact snapshot, or one of them fails and the temporary file could not be opened, or is not
the target, or there was no target. When all entries can be saved, what reached the file is intact
if all bytes did, and if they did up to some point only, no byte may be behind it.
-/
theorem kv_save_safe_iff (store : Store) (nowMs : Int64) (filename : CString) (env : SaveEnv)
    (disk : Disk)
    : let bytes := kvSaveInternalUnlocked store.table nowMs
      let reached := survivors env.reaches 0 bytes
      (disk.Safe filename (kvSave store (some filename) nowMs env disk)
        ↔ (env.Completes → (decodeSnapshot reached).2 = true)
          ∧ (¬ env.Completes → env.opened = false ∨ filename.length ≠ tmpFileSize - 1
            ∨ disk filename.bytes = none))
      ∧ (store.table.WellFormed →
          Each (fun binding => binding.content.elementCount < 2 ^ 32) store.table.logical →
          0 ≤ nowMs →
          ((∀ index < bytes.length, env.reaches index = true) → (decodeSnapshot reached).2 = true)
          ∧ ∀ kept, env.reaches = (fun index => decide (index < kept)) →
            ((decodeSnapshot reached).2 = true ↔ bytes.length ≤ kept)) := by
  intro bytes reached
  refine ⟨?_, fun wf small epoch => ?_⟩
  · by_cases completes : env.Completes
    · obtain ⟨ok, content⟩ := kvSave_completes store filename nowMs completes disk
      simp only [completes, true_imp_iff, not_true_eq_false, false_imp_iff, and_true]
      rw [Disk.Safe, ok, content, ← loadable_iff]
      simp [reached, bytes]
    · have failed : kvErrIo ≠ kvOk := by decide
      rw [kvSave_fails store filename nowMs completes disk]
      simp only [Disk.Safe, completes, failed, false_imp_iff, not_false_eq_true, true_imp_iff,
        true_and, false_and, false_or, ne_eq, ← saveTmpName_eq_iff]
      by_cases closed : env.opened = false
      · simp [closed]
      · by_cases same : saveTmpName filename = filename.bytes
        · simp [closed, same, Disk.set_self, eq_comm]
        · simp [closed, same, Disk.set_other _ (Ne.symm same)]
  · have savable := wf.savable small epoch
    have whole : (decodeSnapshot bytes).2 = true := by rw [decodeSnapshot_save savable]
    refine ⟨fun all => ?_, fun kept cut => ?_⟩
    · simp only [reached]
      rwa [survivors_all (by simpa using all)]
    · simp only [reached, cut, survivors_cut, Nat.sub_zero]
      refine ⟨decodeSnapshot_take savable, fun enough => ?_⟩
      rwa [List.take_of_length_le enough]

/-- A store with one key, on a disk that works. -/
theorem kv_save_safe_iff_written
    : ∃ start, kvInitFull 1 0 0 none [] 7 (.at 0) (fun _ => .at 0) = .ok start
        ∧ let held := (start.run
            [⟨.op (.set (some ⟨[107], by decide⟩) (some ⟨[97], by decide⟩)), .at 1, 0⟩]).2
          let saved := kvSave held (some ⟨[115], by decide⟩) 2 ⟨true, 8, fun _ => true, 4, true⟩
            (fun _ => none)
          saved.1 = kvOk ∧ Disk.Safe (fun _ => none) ⟨[115], by decide⟩ saved := by
  obtain ⟨start, isStart, small⟩ : ∃ start,
      kvInitFull 1 0 0 none [] 7 (.at 0) (fun _ => .at 0) = .ok start
        ∧ Each (fun binding : Binding => binding.content.elementCount < 2 ^ 32)
            (start.run
              [⟨.op (.set (some ⟨[107], by decide⟩) (some ⟨[97], by decide⟩)), .at 1, 0⟩]
              ).2.table.logical :=
    ⟨_, rfl, Each.tabulate (by decide +kernel)⟩
  refine ⟨start, isStart, ?_⟩
  intro held saved
  have reachable : held.Reachable CallEnv.Allocates :=
    ⟨1, 0, none, [], 7, .at 0, fun _ => .at 0, start, _, isStart, fun _ _ => rfl,
      by simp [Action.keepsUnlimited, CallEnv.Allocates, CallEnv.at], rfl⟩
  have safe := kv_save_safe_iff held 2 ⟨[115], by decide⟩ ⟨true, 8, fun _ => true, 4, true⟩
    (fun _ => none)
  have intact := (safe.2 reachable.steady.sound.wellFormed small (by decide)).1 (fun _ _ => rfl)
  exact ⟨rfl, safe.1.mpr ⟨fun _ => intact, fun fails => absurd ⟨rfl, rfl, rfl, rfl⟩ fails⟩⟩

/-- The disk is full when the stream is flushed: the empty file takes the place of a good snapshot,
and `kv_save` returns `KV_OK`. And a target whose name fills the buffer for the temporary one is
truncated before anything is written, and removed when the save fails.
-/
theorem kv_save_destroys_snapshot
    : ∃ start, kvInitFull 1 0 0 none [] 7 (.at 0) (fun _ => .at 0) = .ok start
        ∧ let good := kvSaveInternalUnlocked start.table 0
          (kvLoadSnapshot start good 0 (fun _ => .at 0)).1 = kvOk
          ∧ (let disk : Disk := fun name => if name = [115] then some good else none
             let saved := kvSave start (some ⟨[115], by decide⟩) 1
               ⟨true, 8, fun _ => false, 4, true⟩ disk
             saved.1 = kvOk ∧ saved.2 [115] = some []
             ∧ (kvLoadSnapshot start [] 0 (fun _ => .at 0)).1 = kvErrIo)
          ∧ ∀ filename : CString, filename.length = tmpFileSize - 1 →
              let disk : Disk := fun name => if name = filename.bytes then some good else none
              let saved := kvSave start (some filename) 1 ⟨true, 8, fun _ => true, 4, false⟩ disk
              saved.1 = kvErrIo ∧ saved.2 filename.bytes = none := by
  refine ⟨_, rfl, by decide +kernel, ⟨rfl, by decide +kernel, by decide +kernel⟩, ?_⟩
  intro filename long disk saved
  refine ⟨rfl, ?_⟩
  show Disk.set _ (saveTmpName filename) none filename.bytes = none
  rw [(saveTmpName_eq_iff filename).mpr long, Disk.set_self]

end MiniKv
