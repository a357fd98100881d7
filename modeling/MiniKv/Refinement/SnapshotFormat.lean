import MiniKv.Persistence.Snapshot

/-! The snapshot format on its own: what a file spells, without a store. Loading a file is
decoding it and handing the entries it spells to the store one after another, up to the first
thing that cannot be read.
-/

namespace MiniKv

open MiniKv.Foundations.LittleEndian

-- Decoding

/-- An entry as a file spells it. A string has one value, a container its elements; the last entry
before an unreadable part may be incomplete.
-/
structure SavedEntry where
  expireAt : Nat
  key : CString
  typeByte : UInt8
  values : List CString
  complete : Bool
deriving DecidableEq

/-- Reads values; those before an unreadable one are kept. -/
def Reader.readStrings : Nat → Reader → Except (List CString) (List CString × Reader)
  | 0, reader => .ok ([], reader)
  | count + 1, reader =>
      match reader.readString kvMaxValueLen true with
      | none => .error []
      | some (value, reader) =>
          match reader.readStrings count with
          | .error values => .error (value :: values)
          | .ok (values, reader) => .ok (value :: values, reader)

/-- The number of values that follow a type byte. -/
def Reader.readCount (reader : Reader) (typeByte : UInt8) : Option (Nat × Reader) :=
  if typeByte = 0 then some (1, reader)
  else if typeByte = 1 ∨ typeByte = 2 then reader.readUint32
  else some (0, reader)

/-- Reads the values of an entry behind its type byte; an incomplete entry is kept. -/
def Reader.readValues (reader : Reader) (expireAt : Nat) (key : CString) (typeByte : UInt8)
    : Except (List SavedEntry) (SavedEntry × Reader) :=
  match reader.readCount typeByte with
  | none => .error []
  | some (count, reader) =>
      match reader.readStrings count with
      | .error values => .error [{ expireAt, key, typeByte, values, complete := false }]
      | .ok (values, reader) =>
          .ok ({ expireAt, key, typeByte, values, complete := true }, reader)

/-- Reads an entry behind its deadline. -/
def Reader.readEntry (reader : Reader) (expireAt : Nat)
    : Except (List SavedEntry) (SavedEntry × Reader) :=
  match reader.readString kvMaxKeyLen true with
  | none => .error []
  | some (key, reader) =>
      match reader.readBytes 1 with
      | some ([typeByte], reader) => reader.readValues expireAt key typeByte
      | _ => .error []

/-- Reads entries up to the end marker. -/
def Reader.readEntries : Nat → Reader → Except (List SavedEntry) (List SavedEntry × Reader)
  | 0, _ => .error []
  | fuel + 1, reader =>
      match reader.readUint64 with
      | none => .error []
      | some (expireAt, reader) =>
          if expireAt = snapshotEnd then .ok ([], reader)
          else
            match reader.readEntry expireAt with
            | .error entries => .error entries
            | .ok (entry, reader) =>
                match reader.readEntries fuel with
                | .error entries => .error (entry :: entries)
                | .ok (entries, reader) => .ok (entry :: entries, reader)

/-- The four bytes behind the end marker are the checksum of everything before them. -/
def Reader.checks (reader : Reader) : Bool :=
  4 ≤ reader.rest.length && reader.checksum.toNat == leValue (reader.rest.take 4)

/-- The entries a file spells, and whether it is whole and its checksum right. -/
def decodeSnapshot (file : List UInt8) : List SavedEntry × Bool :=
  match Reader.readBytes { rest := file, checksum := 1 } snapshotMagic.length with
  | none => ([], false)
  | some (magic, reader) =>
      if magic ≠ snapshotMagic then ([], false)
      else
        match reader.readEntries (file.length + 1) with
        | .error entries => (entries, false)
        | .ok (entries, reader) => (entries, reader.checks)

-- Handing decoded entries to the store

/-- The test of the loader for entries that are not expired. -/
def SavedEntry.isLive (entry : SavedEntry) (nowMs : Int64) : Bool :=
  entry.expireAt = 0 || nowMs < Int64.ofNat entry.expireAt

/-- Pushes or adds values one after another. -/
def pushAll (push : Store → CString → CallEnv → Store) (envs : Nat → CallEnv)
    : List CString → Store → Nat → Store
  | [], store, _ => store
  | value :: rest, store, nth =>
      pushAll push envs rest (push store value (envs nth)) (nth + 1)

def lpushInto (key : CString) (store : Store) (value : CString) (env : CallEnv) : Store :=
  (kvLpush store (some key) (some value) env).2

def saddInto (key : CString) (store : Store) (value : CString) (env : CallEnv) : Store :=
  (kvSadd store (some key) (some value) env).2

/-- Stores a decoded string and its deadline. -/
def SavedEntry.loadString (entry : SavedEntry) (envs : Nat → CallEnv) (store : Store)
    (nth : Nat)
    : Store :=
  match entry.values with
  | [] => store
  | value :: _ =>
      let set := kvSet store (some entry.key) (some value) (envs nth)
      if set.1 = kvOk ∧ entry.expireAt ≠ 0 then
        set.2.setDeadline entry.key (Int64.ofNat entry.expireAt)
      else set.2

/-- Stores the decoded elements of a container and, if they are complete, its deadline. -/
def SavedEntry.loadContainer (entry : SavedEntry) (push : Store → CString → CallEnv → Store)
    (envs : Nat → CallEnv) (store : Store) (nth : Nat)
    : Store :=
  let pushed := pushAll push envs entry.values store nth
  if entry.complete ∧ entry.values ≠ [] ∧ entry.expireAt ≠ 0 then
    pushed.setDeadline entry.key (Int64.ofNat entry.expireAt)
  else pushed

/-- Hands a decoded entry to the store; `nth` counts the buffers and calls before it. -/
def SavedEntry.handOver (entry : SavedEntry) (envs : Nat → CallEnv) (store : Store) (nth : Nat)
    : Store :=
  if entry.typeByte = 0 then entry.loadString envs store nth
  else if entry.typeByte = 1 then entry.loadContainer (lpushInto entry.key) envs store nth
  else if entry.typeByte = 2 then entry.loadContainer (saddInto entry.key) envs store nth
  else store

/-- Loads a decoded entry unless it is expired. -/
def SavedEntry.load (entry : SavedEntry) (nowMs : Int64) (envs : Nat → CallEnv)
    (store : Store) (nth : Nat)
    : Store :=
  if entry.isLive nowMs then entry.handOver envs store nth else store

/-- Hands decoded entries to the store. -/
def loadAll (nowMs : Int64) (envs : Nat → CallEnv) : List SavedEntry → Store → Nat → Store
  | [], store, _ => store
  | entry :: rest, store, nth =>
      loadAll nowMs envs rest (entry.load nowMs envs store (nth + 1))
        (nth + 1 + entry.values.length)

-- Loading is decoding and handing over

variable {envs : Nat → CallEnv}

/-- Every buffer that the loader asks for is allocated. -/
def BuffersAllocated (envs : Nat → CallEnv) : Prop :=
  ∀ nth, (envs nth).alloc .result = true

theorem pushAll_idle (values : List CString) (store : Store) (nth : Nat)
    : pushAll (fun store _ _ => store) envs values store nth = store := by
  induction values generalizing nth with
  | nil => rfl
  | cons value rest ih => exact ih (nth + 1)

theorem Reader.readStrings_length {count : Nat} {reader after : Reader} {values : List CString}
    (read : reader.readStrings count = .ok (values, after))
    : values.length = count := by
  induction count generalizing reader values with
  | zero =>
      obtain ⟨rfl, _⟩ := Prod.mk.inj (Except.ok.inj read)
      rfl
  | succ count ih =>
      rw [Reader.readStrings] at read
      split at read
      · contradiction
      · split at read
        · contradiction
        · next inner =>
            obtain ⟨rfl, rfl⟩ := Prod.mk.inj (Except.ok.inj read)
            rw [List.length_cons, ih inner]

/-- The element loop, by induction on the number of elements. -/
theorem loadElements_eq (allocated : BuffersAllocated envs)
    (push : Store → CString → CallEnv → Store) (count : Nat) (reader : Reader) (store : Store)
    (nth : Nat)
    : loadElements push envs count { reader, store, nth }
      = match reader.readStrings count with
        | .error values => .error (pushAll push envs values store nth)
        | .ok (values, reader) =>
            .ok { reader, store := pushAll push envs values store nth
                  nth := nth + values.length } := by
  induction count generalizing reader store nth with
  | zero => rfl
  | succ count ih =>
      simp only [loadElements, Reader.readStrings, allocated nth]
      cases reader.readString kvMaxValueLen true with
      | none => rfl
      | some read =>
          simp only [ih]
          cases read.2.readStrings count with
          | error values => rfl
          | ok result =>
              simp only [pushAll, List.length_cons, Except.ok.injEq, Loading.mk.injEq, true_and]
              omega

/-- Loads what was read of an entry. -/
def loadRead (nowMs : Int64) (envs : Nat → CallEnv) (store : Store) (nth : Nat)
    : Except (List SavedEntry) (SavedEntry × Reader) → Except Store Loading
  | .error entries => .error (loadAll nowMs envs entries store nth)
  | .ok (entry, reader) =>
      .ok { reader
            store := entry.load nowMs envs store (nth + 1)
            nth := nth + 1 + entry.values.length }

/-- The string branch of the loader. -/
theorem loadString_eq (allocated : BuffersAllocated envs) (key : CString) (expireAt : Nat)
    (nowMs : Int64) (reader : Reader) (store : Store) (nth : Nat)
    : loadString key expireAt (expireAt = 0 || nowMs < Int64.ofNat expireAt) envs
        { reader, store, nth := nth + 1 }
      = loadRead nowMs envs store nth (reader.readValues expireAt key 0) := by
  simp only [loadString, Reader.readValues, Reader.readCount, if_true, Reader.readStrings,
    allocated (nth + 1)]
  cases reader.readString kvMaxValueLen true with
  | none => simp [loadRead, loadAll, SavedEntry.load, SavedEntry.handOver, SavedEntry.loadString]
  | some read => rfl

/-- The container branch of the loader; `push` is what the type byte stands for. -/
theorem loadContainer_eq (allocated : BuffersAllocated envs) {key : CString} {typeByte : UInt8}
    {expireAt : Nat} {push : Store → CString → CallEnv → Store}
    (counted : ∀ reader : Reader, reader.readCount typeByte = reader.readUint32)
    (hands : ∀ values complete store nth,
      SavedEntry.handOver ⟨expireAt, key, typeByte, values, complete⟩ envs store nth
        = SavedEntry.loadContainer ⟨expireAt, key, typeByte, values, complete⟩ push envs store nth)
    (nowMs : Int64) (reader : Reader) (store : Store) (nth : Nat)
    : loadContainer push key expireAt (expireAt = 0 || nowMs < Int64.ofNat expireAt) envs
        { reader, store, nth := nth + 1 }
      = loadRead nowMs envs store nth (reader.readValues expireAt key typeByte) := by
  have loads : ∀ values complete,
      SavedEntry.load ⟨expireAt, key, typeByte, values, complete⟩ nowMs envs store (nth + 1)
        = if (expireAt = 0 || nowMs < Int64.ofNat expireAt) then
            SavedEntry.loadContainer ⟨expireAt, key, typeByte, values, complete⟩ push envs store
              (nth + 1)
          else store := by
    intro values complete
    rw [← hands]
    rfl
  simp only [loadContainer, Reader.readValues, counted]
  cases reader.readUint32 with
  | none => rfl
  | some read =>
      obtain ⟨count, reader⟩ := read
      simp only [loadElements_eq allocated]
      generalize (decide (expireAt = 0) || decide (nowMs < Int64.ofNat expireAt)) = valid at *
      cases read : reader.readStrings count with
      | error values =>
          simp only [Except.map, loadRead, loadAll, loads, SavedEntry.loadContainer]
          cases valid with
          | false => simp [pushAll_idle]
          | true => simp
      | ok result =>
          obtain ⟨values, after⟩ := result
          have nonempty : 0 < count ↔ values ≠ [] := by
            rw [← Reader.readStrings_length read, List.length_pos_iff]
          simp only [Except.map, loadRead, loads, SavedEntry.loadContainer, nonempty]
          cases valid with
          | false => simp [pushAll_idle]
          | true =>
              simp only [if_true, true_and]
              split <;> rfl

theorem Reader.readBytes_length {reader after : Reader} {len : Nat} {bytes : List UInt8}
    (read : reader.readBytes len = some (bytes, after))
    : bytes.length = len := by
  rw [Reader.readBytes] at read
  split at read
  · contradiction
  · obtain ⟨rfl, _⟩ := Prod.mk.inj (Option.some.inj read)
    rw [List.length_take]
    omega

/-- One entry behind its deadline. -/
theorem loadEntry_eq (allocated : BuffersAllocated envs) (expireAt : Nat) (nowMs : Int64)
    (reader : Reader) (store : Store) (nth : Nat)
    : loadEntry nowMs expireAt envs { reader, store, nth }
      = loadRead nowMs envs store nth (reader.readEntry expireAt) := by
  simp only [loadEntry, Reader.readEntry, allocated nth]
  cases reader.readString kvMaxKeyLen true with
  | none => rfl
  | some read =>
      obtain ⟨key, reader⟩ := read
      simp only
      cases typed : reader.readBytes 1 with
      | none => rfl
      | some read =>
          obtain ⟨bytes, reader⟩ := read
          obtain ⟨typeByte, rfl⟩ := List.length_eq_one_iff.mp (Reader.readBytes_length typed)
          simp only
          by_cases string : typeByte = 0
          · subst string
            exact loadString_eq allocated key expireAt nowMs reader store nth
          · by_cases list : typeByte = 1
            · subst list
              exact @loadContainer_eq envs allocated key 1 expireAt (lpushInto key)
                (fun _ => rfl) (fun _ _ _ _ => rfl) nowMs reader store nth
            · by_cases set : typeByte = 2
              · subst set
                exact @loadContainer_eq envs allocated key 2 expireAt (saddInto key)
                  (fun _ => rfl) (fun _ _ _ _ => rfl) nowMs reader store nth
              · simp [Reader.readValues, Reader.readCount, Reader.readStrings, loadRead,
                  SavedEntry.load, SavedEntry.handOver, string, list, set]

/-- The entry loop, by induction on the fuel. -/
theorem loadEntries_eq (allocated : BuffersAllocated envs) (nowMs : Int64) (fuel : Nat)
    (reader : Reader) (store : Store) (nth : Nat)
    : (∃ entries, reader.readEntries fuel = .error entries
        ∧ loadEntries nowMs envs fuel { reader, store, nth }
          = .error (loadAll nowMs envs entries store nth))
      ∨ ∃ entries after nth', reader.readEntries fuel = .ok (entries, after)
        ∧ loadEntries nowMs envs fuel { reader, store, nth }
          = .ok
              { reader := after, store := loadAll nowMs envs entries store nth, nth := nth' } := by
  induction fuel generalizing reader store nth with
  | zero => exact .inl ⟨[], rfl, rfl⟩
  | succ fuel ih =>
      simp only [loadEntries, Reader.readEntries]
      cases reader.readUint64 with
      | none => exact .inl ⟨[], rfl, rfl⟩
      | some read =>
          obtain ⟨expireAt, reader⟩ := read
          simp only
          by_cases ends : expireAt = snapshotEnd
          · simp only [ends, if_true]
            exact .inr ⟨[], reader, nth, rfl, rfl⟩
          · simp only [ends, if_false, loadEntry_eq allocated]
            cases reader.readEntry expireAt with
            | error entries => exact .inl ⟨entries, rfl, rfl⟩
            | ok result =>
                obtain ⟨entry, reader⟩ := result
                simp only [loadRead]
                rcases ih reader (entry.load nowMs envs store (nth + 1))
                    (nth + 1 + entry.values.length) with
                  ⟨entries, read, loaded⟩ | ⟨entries, after, nth', read, loaded⟩
                · rw [read, loaded]
                  exact .inl ⟨_, rfl, rfl⟩
                · rw [read, loaded]
                  exact .inr ⟨_, _, _, rfl, rfl⟩

/-- `kv_load_snapshot` hands what the file spells to the store, and answers whether the file is
intact.
-/
theorem kvLoadSnapshot_eq (allocated : BuffersAllocated envs) (store : Store)
    (file : List UInt8) (nowMs : Int64)
    : kvLoadSnapshot store file nowMs envs
      = (if (decodeSnapshot file).2 then kvOk else kvErrIo,
          loadAll nowMs envs (decodeSnapshot file).1 store 0) := by
  cases opened : Reader.readBytes { rest := file, checksum := 1 } snapshotMagic.length with
  | none => simp [kvLoadSnapshot, decodeSnapshot, opened, loadAll]
  | some read =>
      obtain ⟨magic, reader⟩ := read
      by_cases right : magic = snapshotMagic
      · rcases loadEntries_eq allocated nowMs (file.length + 1) reader store 0 with
          ⟨entries, read, loaded⟩ | ⟨entries, after, nth, read, loaded⟩
        · simp [kvLoadSnapshot, decodeSnapshot, opened, right, read, loaded]
        · simp only [kvLoadSnapshot, decodeSnapshot, opened, right, read, loaded, ne_eq,
            not_true_eq_false, if_false, Reader.checks]
          by_cases short : after.rest.length < 4
          · simp [short, Nat.not_le.mpr short]
          · by_cases agrees : after.checksum.toNat = leValue (after.rest.take 4)
            · simp [short, Nat.not_lt.mp short, agrees]
            · simp [short, agrees]
      · simp [kvLoadSnapshot, decodeSnapshot, opened, right, loadAll]

-- A load that goes through has read the file, whichever allocations could have failed

variable {nowMs : Int64}

theorem Reader.allocated_of_readString {reader : Reader} {maxLen : Nat} {allocated : Bool}
    {read : CString × Reader} (succeeds : reader.readString maxLen allocated = some read)
    : allocated = true := by
  cases allocated with
  | true => rfl
  | false => simp [Reader.readString] at succeeds

/-- A load that goes through has read its elements, by induction on their number. -/
theorem loadElements_reads {push : Store → CString → CallEnv → Store} {count : Nat}
    {loading loaded : Loading} (succeeds : loadElements push envs count loading = .ok loaded)
    : ∃ values, loading.reader.readStrings count = .ok (values, loaded.reader) := by
  induction count generalizing loading with
  | zero =>
      obtain rfl := Except.ok.inj succeeds
      exact ⟨[], rfl⟩
  | succ count ih =>
      simp only [loadElements] at succeeds
      split at succeeds
      · contradiction
      · next element reader read =>
          rw [Reader.allocated_of_readString read] at read
          obtain ⟨values, later⟩ := ih succeeds
          refine ⟨element :: values, ?_⟩
          simp only [Reader.readStrings, read, later]

theorem loadString_reads {key : CString} {expireAt : Nat} {valid : Bool}
    {loading loaded : Loading}
    (succeeds : loadString key expireAt valid envs loading = .ok loaded)
    : ∃ entry, loading.reader.readValues expireAt key 0 = .ok (entry, loaded.reader) := by
  simp only [loadString] at succeeds
  split at succeeds
  · contradiction
  · next value reader read =>
      rw [Reader.allocated_of_readString read] at read
      obtain rfl := Except.ok.inj succeeds
      refine ⟨⟨expireAt, key, 0, [value], true⟩, ?_⟩
      simp only [Reader.readValues, Reader.readCount, if_true, Reader.readStrings, read]

theorem loadContainer_reads {push : Store → CString → CallEnv → Store} {key : CString}
    {typeByte : UInt8} {expireAt : Nat} {valid : Bool} {loading loaded : Loading}
    (counted : ∀ reader : Reader, reader.readCount typeByte = reader.readUint32)
    (succeeds : loadContainer push key expireAt valid envs loading = .ok loaded)
    : ∃ entry, loading.reader.readValues expireAt key typeByte = .ok (entry, loaded.reader) := by
  simp only [loadContainer] at succeeds
  split at succeeds
  · contradiction
  · next count reader read =>
      cases elements : loadElements (if valid = true then push else fun store _ _ => store) envs
          count { loading with reader } with
      | error failed =>
          rw [elements] at succeeds
          contradiction
      | ok pushed =>
          rw [elements] at succeeds
          obtain rfl := Except.ok.inj succeeds
          obtain ⟨values, strings⟩ := loadElements_reads elements
          refine ⟨⟨expireAt, key, typeByte, values, true⟩, ?_⟩
          simp only [Reader.readValues, counted, read, strings]
          split <;> rfl

theorem loadEntry_reads {expireAt : Nat} {loading loaded : Loading}
    (succeeds : loadEntry nowMs expireAt envs loading = .ok loaded)
    : ∃ entry, loading.reader.readEntry expireAt = .ok (entry, loaded.reader) := by
  simp only [loadEntry] at succeeds
  split at succeeds
  · contradiction
  · next key reader readKey =>
      rw [Reader.allocated_of_readString readKey] at readKey
      split at succeeds
      · contradiction
      · next bytes behind readType =>
          obtain ⟨typeByte, rfl⟩ := List.length_eq_one_iff.mp (Reader.readBytes_length readType)
          simp only [Reader.readEntry, readKey, readType]
          split at succeeds
          · next isString =>
              obtain rfl := List.singleton_inj.mp isString
              exact loadString_reads succeeds
          · next isList =>
              obtain rfl := List.singleton_inj.mp isList
              exact loadContainer_reads (fun _ => rfl) succeeds
          · next isSet =>
              obtain rfl := List.singleton_inj.mp isSet
              exact loadContainer_reads (fun _ => rfl) succeeds
          · next notString notList notSet =>
              obtain rfl := Except.ok.inj succeeds
              have other : typeByte ≠ 0 ∧ typeByte ≠ 1 ∧ typeByte ≠ 2 :=
                ⟨fun same => notString (same ▸ rfl), fun same => notList (same ▸ rfl),
                  fun same => notSet (same ▸ rfl)⟩
              refine ⟨⟨expireAt, key, typeByte, [], true⟩, ?_⟩
              simp [Reader.readValues, Reader.readCount, Reader.readStrings, other]

/-- A load that reaches the end marker has read all entries, by induction on the fuel. -/
theorem loadEntries_reads {fuel : Nat} {loading loaded : Loading}
    (succeeds : loadEntries nowMs envs fuel loading = .ok loaded)
    : ∃ entries, loading.reader.readEntries fuel = .ok (entries, loaded.reader) := by
  induction fuel generalizing loading with
  | zero => contradiction
  | succ fuel ih =>
      simp only [loadEntries] at succeeds
      split at succeeds
      · contradiction
      · next expireAt reader read =>
          simp only [Reader.readEntries, read]
          split at succeeds
          · next ends =>
              obtain rfl := Except.ok.inj succeeds
              exact ⟨[], by rw [if_pos ends]⟩
          · next proper =>
              split at succeeds
              · contradiction
              · next entered first =>
                  obtain ⟨entry, readEntry⟩ := loadEntry_reads first
                  obtain ⟨entries, later⟩ := ih succeeds
                  refine ⟨entry :: entries, ?_⟩
                  simp only [if_neg proper, readEntry, later]

end MiniKv
