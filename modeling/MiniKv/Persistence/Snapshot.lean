import MiniKv.Foundations.LittleEndian
import MiniKv.Persistence.Replay

/-! The snapshot file: a checksummed stream of length-prefixed entries, written by `kv_save` and
read back by `kv_load_snapshot` through the store's own operations.
-/

namespace MiniKv

open MiniKv.Foundations.ChainedTable
open MiniKv.Foundations.DoublyLinked
open MiniKv.Foundations.LittleEndian

/-- `SNAPSHOT_MAGIC`. -/
def snapshotMagic : List UInt8 :=
  ascii ['M', 'I', 'N', 'I', 'K', 'V', '0', '1']

/-- `adler32`. -/
def adler32 (adler : UInt32) (buf : List UInt8) : UInt32 :=
  let sums := buf.foldl
    (fun (sums : UInt32 × UInt32) byte =>
      let s1 := (sums.1 + byte.toUInt32) % 65521
      (s1, (sums.2 + s1) % 65521))
    (adler &&& 0xffff, (adler >>> 16) &&& 0xffff)
  (sums.2 <<< 16) ||| sums.1

/-- The 64-bit end marker `(uint64_t)-1`. -/
def snapshotEnd : Nat := 2 ^ 64 - 1

/-- The stream being written and the checksum over it. -/
structure Writer where
  out : List UInt8
  checksum : UInt32

/-- `write_bytes`. -/
def Writer.writeBytes (writer : Writer) (bytes : List UInt8) : Writer :=
  { out := writer.out ++ bytes, checksum := adler32 writer.checksum bytes }

/-- `write_uint64`. -/
def Writer.writeUint64 (writer : Writer) (number : Nat) : Writer :=
  writer.writeBytes (leBytes 8 number)

/-- `write_uint32`. -/
def Writer.writeUint32 (writer : Writer) (number : Nat) : Writer :=
  writer.writeBytes (leBytes 4 number)

/-- A 32-bit length and the bytes of a string. -/
def Writer.writeString (writer : Writer) (string : CString) : Writer :=
  (writer.writeUint32 string.length).writeBytes string.bytes

/-- `entry->type` as a byte. -/
def Payload.typeByte : Payload → UInt8
  | .string _ => 0
  | .list _ => 1
  | .set _ => 2

/-- What follows the type byte: a string, or a count and the elements. Lists are written from
the tail.
-/
def Writer.writePayload (writer : Writer) : Payload → Writer
  | .string value => writer.writeString value
  | .list list => list.toListBackward.foldl Writer.writeString (writer.writeUint32 list.count)
  | .set set => set.members.foldl Writer.writeString (writer.writeUint32 set.count)

/-- One entry. -/
def Writer.writeEntry (writer : Writer) (entry : Entry) : Writer :=
  (((writer.writeUint64 entry.expireAtMs.toUInt64.toNat).writeString entry.key).writeBytes
    [entry.value.typeByte]).writePayload entry.value

/-- The test of `kv_save` for the entries it writes. -/
def Entry.isSaved (nowMs : Int64) (entry : Entry) : Bool :=
  entry.expireAtMs = 0 || nowMs < entry.expireAtMs

/-- The file `kv_save_internal_unlocked` writes when every write succeeds. -/
def kvSaveInternalUnlocked (table : Table) (nowMs : Int64) : List UInt8 :=
  let started : Writer := Writer.writeBytes { out := [], checksum := 1 } snapshotMagic
  let written := (table.entries.filter (Entry.isSaved nowMs)).foldl Writer.writeEntry started
  let ended := written.writeUint64 snapshotEnd
  ended.out ++ leBytes 4 ended.checksum.toNat

/-- The unread rest of the stream and the checksum over what was read. -/
structure Reader where
  rest : List UInt8
  checksum : UInt32

/-- `read_bytes`; `none` on a short read. -/
def Reader.readBytes (reader : Reader) (len : Nat) : Option (List UInt8 × Reader) :=
  if reader.rest.length < len then none
  else
    let bytes := reader.rest.take len
    some (bytes, { rest := reader.rest.drop len, checksum := adler32 reader.checksum bytes })

/-- `read_uint64`. -/
def Reader.readUint64 (reader : Reader) : Option (Nat × Reader) :=
  (reader.readBytes 8).map (fun read => (leValue read.1, read.2))

/-- `read_uint32`. -/
def Reader.readUint32 (reader : Reader) : Option (Nat × Reader) :=
  (reader.readBytes 4).map (fun read => (leValue read.1, read.2))

/-- A length up to `maxLen` and that many bytes, copied into a terminated buffer. -/
def Reader.readString (reader : Reader) (maxLen : Nat) (allocated : Bool)
    : Option (CString × Reader) :=
  reader.readUint32.bind (fun (len, reader) =>
    if maxLen < len then none
    else if allocated then
      (reader.readBytes len).map (fun read => (CString.ofBuffer read.1, read.2))
    else none)

/-- A load in progress; `nth` numbers the buffers and store calls made so far. -/
structure Loading where
  reader : Reader
  store : Store
  nth : Nat

/-- The element loop of a list or a set: each element is handed to `push`. A failure keeps
what was stored so far.
-/
def loadElements (push : Store → CString → CallEnv → Store) (envs : Nat → CallEnv)
    : Nat → Loading → Except Store Loading
  | 0, loading => .ok loading
  | count + 1, loading =>
      let env := envs loading.nth
      match loading.reader.readString kvMaxValueLen (env.alloc .result) with
      | none => .error loading.store
      | some (element, reader) =>
          loadElements push envs count
            { reader, store := push loading.store element env, nth := loading.nth + 1 }

/-- The deadline of a loaded entry, written behind the store's back. -/
def Store.setDeadline (store : Store) (key : CString) (expireAtMs : Int64) : Store :=
  { store with table := store.table.kvSetExpireAtMsInternal key expireAtMs }

/-- The string branch of the loader. -/
def loadString (key : CString) (expireAt : Nat) (valid : Bool) (envs : Nat → CallEnv)
    (loading : Loading)
    : Except Store Loading :=
  let env := envs loading.nth
  match loading.reader.readString kvMaxValueLen (env.alloc .result) with
  | none => .error loading.store
  | some (value, reader) =>
      let stored :=
        if valid then
          let set := kvSet loading.store (some key) (some value) env
          if set.1 = kvOk ∧ expireAt ≠ 0 then set.2.setDeadline key (Int64.ofNat expireAt)
          else set.2
        else loading.store
      .ok { reader, store := stored, nth := loading.nth + 1 }

/-- The list and set branch of the loader; `push` is `kv_lpush` or `kv_sadd`. -/
def loadContainer (push : Store → CString → CallEnv → Store) (key : CString)
    (expireAt : Nat) (valid : Bool) (envs : Nat → CallEnv) (loading : Loading)
    : Except Store Loading :=
  match loading.reader.readUint32 with
  | none => .error loading.store
  | some (count, reader) =>
      (loadElements (if valid then push else fun store _ _ => store) envs count
        { loading with reader }).map (fun loaded =>
          if valid ∧ 0 < count ∧ expireAt ≠ 0 then
            { loaded with store := loaded.store.setDeadline key (Int64.ofNat expireAt) }
          else loaded)

/-- One entry behind its deadline. An unknown type has no payload and is skipped. -/
def loadEntry (nowMs : Int64) (expireAt : Nat) (envs : Nat → CallEnv) (loading : Loading)
    : Except Store Loading :=
  match loading.reader.readString kvMaxKeyLen ((envs loading.nth).alloc .result) with
  | none => .error loading.store
  | some (key, reader) =>
      match reader.readBytes 1 with
      | none => .error loading.store
      | some (typeByte, reader) =>
          let valid := expireAt = 0 || nowMs < Int64.ofNat expireAt
          let loading := { loading with reader, nth := loading.nth + 1 }
          match typeByte with
          | [0] => loadString key expireAt valid envs loading
          | [1] =>
              loadContainer (fun store value env => (kvLpush store (some key) (some value) env).2)
                key expireAt valid envs loading
          | [2] =>
              loadContainer (fun store value env => (kvSadd store (some key) (some value) env).2)
                key expireAt valid envs loading
          | _ => .ok loading

/-- The entry loop. Each round consumes a deadline, so the file's length is enough fuel. -/
def loadEntries (nowMs : Int64) (envs : Nat → CallEnv)
    : Nat → Loading → Except Store Loading
  | 0, loading => .error loading.store
  | fuel + 1, loading =>
      match loading.reader.readUint64 with
      | none => .error loading.store
      | some (expireAt, reader) =>
          if expireAt = snapshotEnd then .ok { loading with reader }
          else
            match loadEntry nowMs expireAt envs { loading with reader } with
            | .error store => .error store
            | .ok loaded => loadEntries nowMs envs fuel loaded

/-- `kv_load_snapshot` of a file with these bytes. The checksum is compared last. -/
def kvLoadSnapshot (store : Store) (file : List UInt8) (nowMs : Int64)
    (envs : Nat → CallEnv)
    : Int × Store :=
  match Reader.readBytes { rest := file, checksum := 1 } snapshotMagic.length with
  | none => (kvErrIo, store)
  | some (magic, reader) =>
      if magic ≠ snapshotMagic then (kvErrIo, store)
      else
        match loadEntries nowMs envs (file.length + 1) { reader, store, nth := 0 } with
        | .error store => (kvErrIo, store)
        | .ok loaded =>
            if loaded.reader.rest.length < 4 then (kvErrIo, loaded.store)
            else if loaded.reader.checksum.toNat ≠ leValue (loaded.reader.rest.take 4) then
              (kvErrIo, loaded.store)
            else (kvOk, loaded.store)

end MiniKv
