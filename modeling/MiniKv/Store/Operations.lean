import MiniKv.Foundations.Decimal
import MiniKv.Persistence.Aof
import MiniKv.Store.Eviction

/-! The public operations on strings, lists, sets and deadlines.
Locks are left out: these are the effects of one call while no other call runs.
-/

namespace MiniKv

open MiniKv.Foundations.ChainedTable
open MiniKv.Foundations.DoublyLinked
open MiniKv.Foundations.Decimal

-- Strings

/-- The insertion half of `kv_set_internal`. -/
def Table.insertString (table : Table) (key value : CString) (env : CallEnv) : Int × Table :=
  if table.atCapacity then (kvErrCapacityFull, table)
  else
    let entryBytes := sizeofEntry + key.length + 1 + value.length + 1
    let room := table.makeRoom entryBytes
    if room.1 = false then (kvErrBudgetExceeded, room.2)
    else if (env.alloc .entry && env.alloc .key && env.alloc .value) = false then
      (kvErrInternal, room.2)
    else (kvOk, room.2.insertEntry key (.string value) entryBytes)

/-- The update half of `kv_set_internal`: a new value for an entry that is still there. -/
def Table.overwriteString (table : Table) (key value : CString) (oldValBytes : Nat)
    (env : CallEnv)
    : Int × Table :=
  if env.alloc .value = false then (kvErrInternal, table)
  else
    let newValBytes := value.length + 1
    let written := (table.setPayload key (.string value)).touch key
    if oldValBytes < newValBytes then (kvOk, written.charge (newValBytes - oldValBytes))
    else (kvOk, written.refund (oldValBytes - newValBytes))

/-- The table part of `kv_set_internal`. The chain is searched without an expiry test, and
once more after evicting, since the entry itself may have been evicted.
-/
def Table.storeString (table : Table) (key value : CString) (env : CallEnv) : Int × Table :=
  match table.lookup key with
  | none => table.insertString key value env
  | some existing =>
      match existing.value with
      | .string old =>
          let oldValBytes := old.length + 1
          let delta := value.length + 1 - oldValBytes
          let room := if 0 < delta then table.makeRoom delta else (true, table)
          if room.1 = false then (kvErrBudgetExceeded, room.2)
          else
            match room.2.lookup key with
            | some _ => room.2.overwriteString key value oldValBytes env
            | none => room.2.insertString key value env
      | _ => (kvErrWrongType, table)

/-- `kv_set_internal`. -/
def kvSetInternal (store : Store) (key value : Option CString) (env : CallEnv)
    : Int × Store :=
  match validateKey key with
  | .error err => (err, store)
  | .ok key =>
      match validateValue value with
      | .error err => (err, store)
      | .ok value =>
          let stored := store.table.storeString key value env
          if stored.1 = kvOk then
            (kvOk,
              { table := stored.2,
                aof := store.aof.appendFragments env
                  (valueFragments .set key value.bytes) 0 })
          else (stored.1, { store with table := stored.2 })

/-- `kv_set`: grow the table, log, apply, and undo the log record when applying failed. -/
def kvSet (store : Store) (key value : Option CString) (env : CallEnv) : Int × Store :=
  match validateKey key with
  | .error err => (err, store)
  | .ok validKey =>
      match validateValue value with
      | .error err => (err, store)
      | .ok validValue =>
          let grown := store.table.growIfLoaded env
          if store.aof.fp = none then
            kvSetInternal { store with table := grown } key value env
          else
            let logged := store.aof.writeAofRecord
              (formatRecord .set validKey.bytes (some validValue.bytes)) env.io
            if logged.1 ≠ kvOk then (logged.1, { table := grown, aof := logged.2.2 })
            else
              let applied := kvSetInternal { table := grown, aof := logged.2.2 } key value env
              if applied.1 ≠ kvOk then
                (applied.1,
                  { applied.2 with aof := applied.2.aof.rollbackAofRecord logged.2.1 })
              else applied

/-- `kv_get`. -/
def kvGet (store : Store) (key : Option CString) (env : CallEnv) : Option CString × Store :=
  match key with
  | none => (none, store)
  | some key =>
      let found := store.table.findEntryUnlocked key env.now
      match found.1 with
      | some { value := .string value, .. } =>
          (some value, { store with table := found.2.touch key })
      | _ => (none, { store with table := found.2 })

/-- The table part of `kv_delete_internal`. -/
def Table.deleteEntry (table : Table) (key : CString) : Option Table :=
  (table.seekEntry key).map (fun cursor =>
    table.expireAndDeleteUnlocked cursor (hashKey key table.bucketCount))

/-- `kv_delete_internal`; `nth` counts the rewrite buffer appends made before it. -/
def kvDeleteInternal (store : Store) (key : Option CString) (env : CallEnv) (nth : Nat)
    : Int × Store :=
  match validateKey key with
  | .error _ => (kvErrInvalidParam, store)
  | .ok key =>
      match store.table.deleteEntry key with
      | none => (kvErrNotFound, store)
      | some table =>
          (kvOk,
            { table, aof := store.aof.appendFragments env (keyFragments .delete key) nth })

/-- `kv_delete`. -/
def kvDelete (store : Store) (key : Option CString) (env : CallEnv) : Int × Store :=
  match validateKey key with
  | .error _ => (kvErrInvalidParam, store)
  | .ok validKey =>
      if store.aof.fp = none then kvDeleteInternal store key env 0
      else
        let logged := store.aof.writeAofRecord
          (formatRecord .delete validKey.bytes none) env.io
        if logged.1 ≠ kvOk then (logged.1, { store with aof := logged.2.2 })
        else
          let applied := kvDeleteInternal { store with aof := logged.2.2 } key env 0
          if applied.1 ≠ kvOk then
            (applied.1, { applied.2 with aof := applied.2.aof.rollbackAofRecord logged.2.1 })
          else applied

/-- `kv_exists`. -/
def kvExists (store : Store) (key : Option CString) (env : CallEnv) : Int × Store :=
  match key with
  | none => (0, store)
  | some key =>
      let found := store.table.findEntryUnlocked key env.now
      (if found.1.isSome then 1 else 0, { store with table := found.2 })

-- Containers: what pushing to a list and adding to a set share

/-- The container a push or add found or created, or the status it returns. -/
abbrev Opened := Except Int Unit

/-- Finds the entry with this key and the wanted type, or links a new empty container of
`overhead` bytes whose allocations are `sites`.
-/
def Table.openContainer (table : Table) (key : CString) (wanted : Payload → Bool)
    (fresh : Payload) (overhead : Nat) (sites : List AllocSite) (env : CallEnv)
    : Opened × Table :=
  let found := table.findEntryUnlocked key env.now
  match found.1 with
  | some entry =>
      if wanted entry.value then (.ok (), found.2.touch key)
      else (.error kvErrWrongType, found.2)
  | none =>
      if found.2.atCapacity then (.error kvErrCapacityFull, found.2)
      else
        let room := found.2.makeRoom overhead
        if room.1 = false then (.error kvErrBudgetExceeded, room.2)
        else if sites.all env.alloc = false then (.error kvErrInternal, room.2)
        else (.ok (), room.2.insertEntry key fresh overhead)

/-- The outcome of linking a node: a status, a linked node with the function's result, or an
access to a container that was freed by evicting its entry.
-/
inductive Linking where
  | failed (status : Int)
  | linked (result : Int)
  | undefined
deriving DecidableEq

/-- Reserves and links one node in the container under `key`; `link` yields the new payload
and the function's result.
-/
def Table.linkNode (table : Table) (key : CString) (nodeOverhead : Nat)
    (link : Payload → Option (Payload × Int)) (env : CallEnv)
    : Linking × Table :=
  let room := table.makeRoom nodeOverhead
  if room.1 = false then (.failed kvErrBudgetExceeded, room.2)
  else if (env.alloc .node && env.alloc .value) = false then (.failed kvErrInternal, room.2)
  else
    match (room.2.lookup key).bind (fun entry => link entry.value) with
    | some (payload, result) =>
        (.linked result, (room.2.setPayload key payload).charge nodeOverhead)
    | none => (.undefined, room.2)

/-- The effect of a mutation on the log when it is written after the fact: the status of
`write_aof_record` is ignored.
-/
def Aof.logAfter (aof : Aof) (record : List UInt8) (env : CallEnv) : Aof :=
  if aof.fp = none then aof else (aof.writeAofRecord record env.io).2.2

-- Lists

def Payload.isList : Payload → Bool
  | .list _ => true
  | _ => false

/-- Links a node in front of the list and returns its new length. -/
def pushFrontPayload (value : CString) : Payload → Option (Payload × Int)
  | .list list =>
      let pushed := list.pushFront value
      some (.list pushed, toCInt pushed.count)
  | _ => none

/-- The table part of `kv_lpush`. -/
def Table.lpush (table : Table) (key value : CString) (env : CallEnv) : Linking × Table :=
  let entryOverhead := sizeofEntry + key.length + 1 + sizeofList
  let opened := table.openContainer key Payload.isList (.list DList.empty) entryOverhead
    [.entry, .key, .list] env
  match opened.1 with
  | .error err => (.failed err, opened.2)
  | .ok () =>
      opened.2.linkNode key (sizeofListNode + value.length + 1) (pushFrontPayload value) env

/-- What a push or add returns; `none` when its behaviour is undefined. -/
def Linking.reply : Linking → Option Int
  | .failed status => some status
  | .linked result => some result
  | .undefined => none

/-- `kv_lpush`. -/
def kvLpush (store : Store) (key value : Option CString) (env : CallEnv)
    : Option Int × Store :=
  match key, value with
  | none, _ => (some kvErrInvalidParam, store)
  | _, none => (some kvErrInvalidParam, store)
  | some key, some value =>
      match validateKey (some key), validateValue (some value) with
      | .error err, _ => (some err, store)
      | .ok _, .error err => (some err, store)
      | .ok key, .ok value =>
          let pushed := store.table.lpush key value env
          match pushed.1 with
          | .linked result =>
              let logged := store.aof.logAfter
                (formatRecord .lpush key.bytes (some value.bytes)) env
              (some result,
                { table := pushed.2,
                  aof := logged.appendFragments env
                    (valueFragments .lpush key value.bytes) 0 })
          | other => (other.reply, { store with table := pushed.2 })

/-- `kv_rpop`: the status and the popped value. -/
def kvRpop (store : Store) (key : Option CString) (env : CallEnv)
    : (Int × Option CString) × Store :=
  match key with
  | none => ((kvErrInvalidParam, none), store)
  | some key =>
      let found := store.table.findEntryUnlocked key env.now
      match found.1 with
      | none => ((kvErrNotFound, none), { store with table := found.2 })
      | some entry =>
          match entry.value with
          | .list list =>
              match list.popBack with
              | none => ((kvErrNotFound, none), { store with table := found.2 })
              | some (value, rest) =>
                  if list.count = 0 then
                    ((kvErrNotFound, none), { store with table := found.2 })
                  else if env.alloc .result = false then
                    ((kvErrInternal, none), { store with table := found.2 })
                  else
                    let popped := (found.2.setPayload key (.list rest)).refund
                      (sizeofListNode + value.length + 1)
                    let logged := store.aof.logAfter (formatRecord .rpop key.bytes none) env
                    let aof := logged.appendFragments env (keyFragments .rpop key) 0
                    if rest.count = 0 then
                      ((kvOk, some value),
                        (kvDeleteInternal { table := popped, aof } (some key) env 3).2)
                    else ((kvOk, some value), { table := popped.touch key, aof })
          | _ => ((kvErrWrongType, none), { store with table := found.2 })

/-- `kv_llen`. -/
def kvLlen (store : Store) (key : Option CString) (env : CallEnv) : Int × Store :=
  match key with
  | none => (kvErrInvalidParam, store)
  | some key =>
      let found := store.table.findEntryUnlocked key env.now
      match found.1 with
      | none => (0, { store with table := found.2 })
      | some { value := .list list, .. } =>
          (toCInt list.count, { store with table := found.2.touch key })
      | some _ => (kvErrWrongType, { store with table := found.2 })

-- Sets

def Payload.isSet : Payload → Bool
  | .set _ => true
  | _ => false

/-- The number of buckets of a new set. -/
def initialSetBuckets : Nat := 16

def KvSet.empty : KvSet :=
  { buckets := List.replicate initialSetBuckets [], count := 0 }

/-- The chain search of `kv_sadd` and `kv_srem`. -/
def KvSet.contains (set : KvSet) (value : CString) : Bool :=
  (bucket set.buckets (hashKey value set.bucketCount)).any (fun member => member = value)

/-- Links a node at the head of its chain. -/
def KvSet.add (set : KvSet) (value : CString) : KvSet :=
  { buckets := set.buckets.modify (hashKey value set.bucketCount) (value :: ·)
    count := set.count + 1 }

/-- Unlinks the first node with this value from its chain, as `*cursor = node->next`. -/
def KvSet.remove (set : KvSet) (value : CString) : KvSet :=
  { buckets := set.buckets.modify (hashKey value set.bucketCount)
      (fun chain => chain.eraseP (fun member => member = value))
    count := set.count - 1 }

/-- Links a node in the set and returns 1. -/
def addPayload (value : CString) : Payload → Option (Payload × Int)
  | .set set => some (.set (set.add value), 1)
  | _ => none

/-- The table part of `kv_sadd`; a duplicate is reported before any node is reserved. -/
def Table.sadd (table : Table) (key value : CString) (env : CallEnv) : Linking × Table :=
  let entryOverhead := sizeofEntry + key.length + 1 + sizeofSet
    + initialSetBuckets * sizeofPointer
  let opened := table.openContainer key Payload.isSet (.set KvSet.empty) entryOverhead
    [.entry, .key, .set, .setBuckets] env
  match opened.1 with
  | .error err => (.failed err, opened.2)
  | .ok () =>
      match opened.2.lookup key with
      | some { value := .set set, .. } =>
          if set.contains value then (.failed 0, opened.2)
          else
            opened.2.linkNode key (sizeofSetNode + value.length + 1) (addPayload value) env
      | _ => (.undefined, opened.2)

/-- `kv_sadd`. -/
def kvSadd (store : Store) (key value : Option CString) (env : CallEnv)
    : Option Int × Store :=
  match key, value with
  | none, _ => (some kvErrInvalidParam, store)
  | _, none => (some kvErrInvalidParam, store)
  | some key, some value =>
      match validateKey (some key), validateValue (some value) with
      | .error err, _ => (some err, store)
      | .ok _, .error err => (some err, store)
      | .ok key, .ok value =>
          let added := store.table.sadd key value env
          match added.1 with
          | .linked result =>
              let logged := store.aof.logAfter
                (formatRecord .sadd key.bytes (some value.bytes)) env
              (some result,
                { table := added.2,
                  aof := logged.appendFragments env
                    (valueFragments .sadd key value.bytes) 0 })
          | other => (other.reply, { store with table := added.2 })

/-- `kv_srem`. -/
def kvSrem (store : Store) (key value : Option CString) (env : CallEnv) : Int × Store :=
  match key, value with
  | none, _ => (kvErrInvalidParam, store)
  | _, none => (kvErrInvalidParam, store)
  | some key, some value =>
      let found := store.table.findEntryUnlocked key env.now
      match found.1 with
      | none => (0, { store with table := found.2 })
      | some entry =>
          match entry.value with
          | .set set =>
              if set.count = 0 then (0, { store with table := found.2 })
              else if set.contains value then
                let removed := (found.2.setPayload key (.set (set.remove value))).refund
                  (sizeofSetNode + value.length + 1)
                let logged := store.aof.logAfter
                  (formatRecord .srem key.bytes (some value.bytes)) env
                let aof := logged.appendFragments env (valueFragments .srem key value.bytes) 0
                if (set.remove value).count = 0 then
                  (1, (kvDeleteInternal { table := removed, aof } (some key) env 5).2)
                else (1, { table := removed.touch key, aof })
              else (0, { store with table := found.2 })
          | _ => (kvErrWrongType, { store with table := found.2 })

/-- `kv_scard`. -/
def kvScard (store : Store) (key : Option CString) (env : CallEnv) : Int × Store :=
  match key with
  | none => (kvErrInvalidParam, store)
  | some key =>
      let found := store.table.findEntryUnlocked key env.now
      match found.1 with
      | none => (0, { store with table := found.2 })
      | some { value := .set set, .. } =>
          (toCInt set.count, { store with table := found.2.touch key })
      | some _ => (kvErrWrongType, { store with table := found.2 })

/-- `kv_smembers`: the members copied out and `*out_count`; `none` is a null result. -/
def kvSmembers (store : Store) (key : Option CString) (env : CallEnv)
    : (Option (List CString) × Nat) × Store :=
  match key with
  | none => ((none, 0), store)
  | some key =>
      let found := store.table.findEntryUnlocked key env.now
      match found.1 with
      | some { value := .set set, .. } =>
          if set.count = 0 then ((none, 0), { store with table := found.2 })
          else if env.alloc .result = false then ((none, 0), { store with table := found.2 })
          else ((some set.members, set.count), { store with table := found.2.touch key })
      | _ => ((none, 0), { store with table := found.2 })

-- Deadlines

/-- `kv_pexpireat`. The record is written, and broadcast, also without an open log. -/
def kvPexpireat (store : Store) (key : Option CString) (unixMs : Int64) (env : CallEnv)
    : Int × Store :=
  match key with
  | none => (kvErrInvalidParam, store)
  | some key =>
      let found := store.table.findEntryUnlocked key env.now
      match found.1 with
      | none => (0, { store with table := found.2 })
      | some _ =>
          let digits := decimalInt unixMs.toInt
          let logged := (store.aof.writeAofRecord
            (formatRecord .pexpireat key.bytes (some digits)) env.io).2.2
          (1,
            { table := found.2.modifyEntry key
                (fun entry => { entry with expireAtMs := unixMs }),
              aof := logged.appendFragments env (valueFragments .pexpireat key digits) 0 })

/-- `kv_expire`: the product and the sum wrap as the machine's do. -/
def kvExpire (store : Store) (key : Option CString) (seconds : Int64) (env : CallEnv)
    : Int × Store :=
  kvPexpireat store key (env.now + seconds * 1000) env

/-- `kv_pexpire`. -/
def kvPexpire (store : Store) (key : Option CString) (milliseconds : Int64) (env : CallEnv)
    : Int × Store :=
  kvPexpireat store key (env.now + milliseconds) env

/-- `kv_pttl`. -/
def kvPttl (store : Store) (key : Option CString) (env : CallEnv) : Int64 × Store :=
  match key with
  | none => (-2, store)
  | some key =>
      let found := store.table.findEntryUnlocked key env.now
      match found.1 with
      | none => (-2, { store with table := found.2 })
      | some entry =>
          if entry.expireAtMs = 0 then (-1, { store with table := found.2 })
          else
            let rem := entry.expireAtMs - env.now
            (if rem < 0 then 0 else rem, { store with table := found.2 })

/-- `kv_ttl`. -/
def kvTtl (store : Store) (key : Option CString) (env : CallEnv) : Int64 × Store :=
  let pt := kvPttl store key env
  if pt.1 < 0 then pt else ((pt.1 + 999) / 1000, pt.2)

/-- `kv_persist`. -/
def kvPersist (store : Store) (key : Option CString) (env : CallEnv) : Int × Store :=
  match key with
  | none => (kvErrInvalidParam, store)
  | some key =>
      let found := store.table.findEntryUnlocked key env.now
      match found.1 with
      | none => (0, { store with table := found.2 })
      | some entry =>
          if entry.expireAtMs = 0 then (0, { store with table := found.2 })
          else
            let logged := (store.aof.writeAofRecord
              (formatRecord .pexpireat key.bytes (some (decimalInt 0))) env.io).2.2
            (1,
              { table := found.2.modifyEntry key
                  (fun entry => { entry with expireAtMs := 0 }),
                aof := logged.appendFragments env
                  [Command.pexpireat.word ++ [tab], key.bytes, [tab, 48, lf]] 0 })

end MiniKv
