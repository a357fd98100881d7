import MiniKv.Foundations.Locking
import MiniKv.Store.Locks

/-! The mutex operations of the store, in the order in which the code makes them. What a test of the
code says is left to the run, unless it is about the arguments of the call or about a result that
the code has just been given. The locks are initialised, and a child of `fork` takes none.
-/

namespace MiniKv.Locks

open MiniKv.Foundations.Locking

/-- All mutexes of a server: of the list of clients, of each client, of the queue of tasks, of each
shard of the store, of the list of replicas and of the append-only file.
-/
inductive Mutex where
  | clients
  | client (id : Nat)
  | queue
  | shard (index : Nat)
  | replicas
  | aof
deriving DecidableEq

/-- Those that are initialised with `PTHREAD_MUTEX_RECURSIVE`. -/
def Mutex.isRecursive : Mutex → Bool
  | .shard _ | .replicas | .aof => true
  | .clients | .client _ | .queue => false

abbrev Code := Program Mutex

/-- A number of tests, one after the other, each of which may leave early. -/
def exitsOr {α : Type} : Nat → Code α → Code α → Code α
  | 0, _, rest => rest
  | count + 1, leave, rest => do
      if ← test then leave else exitsOr count leave rest

-- Shards

/-- `kv_acquire_bucket_lock`. -/
def kvAcquireBucketLock (numLocks : Nat) (key : CString) : Code Unit :=
  acquire (.shard (kvLockIndex numLocks key))

/-- `kv_release_bucket_lock`. -/
def kvReleaseBucketLock (numLocks : Nat) (key : CString) : Code Unit :=
  release (.shard (kvLockIndex numLocks key))

/-- `kv_acquire_all_locks`: the loop takes the shards in ascending order. -/
def kvAcquireAllLocks : Nat → Code Unit
  | 0 => pure ()
  | numLocks + 1 => do
      kvAcquireAllLocks numLocks
      acquire (.shard numLocks)

/-- `kv_release_all_locks`: the loop gives the shards back in descending order. -/
def kvReleaseAllLocks : Nat → Code Unit
  | 0 => pure ()
  | numLocks + 1 => do
      release (.shard numLocks)
      kvReleaseAllLocks numLocks

/-- The beginning of `kv_set`, `kv_lpush` and `kv_sadd`: whether the call holds all shards. The test
is made without a lock and again under the lock of the key, which is given back before all are
taken.
-/
def acquireForInsert (numLocks : Nat) (key : CString) : Code Bool := do
  if ← test then
    kvAcquireAllLocks numLocks
    return true
  else
    kvAcquireBucketLock numLocks key
    if ← test then
      kvReleaseBucketLock numLocks key
      kvAcquireAllLocks numLocks
      return true
    else
      return false

/-- The end of these calls. -/
def releaseAfterInsert (numLocks : Nat) (key : CString) (isGlobal : Bool) : Code Unit :=
  if isGlobal then kvReleaseAllLocks numLocks else kvReleaseBucketLock numLocks key

-- The append-only file

/-- `replication_broadcast`: a replica does nothing. -/
def replicationBroadcast : Code Unit := do
  if ← test then return ()
  else
    acquire .replicas
    release .replicas

/-- The critical section of `write_aof_record`. It fails when the position is unknown, when the
record is too long, when it is not written, not flushed or not synced.
-/
def appendToAof : Code Bool := do
  acquire .aof
  exitsOr 5 (do release .aof; return false) (do release .aof; return true)

/-- `write_aof_record`: whether it returns `KV_OK`. A record that fits is broadcast; without a
stream there is nothing to do, and a failing disk is noticed before the lock is taken.
-/
def writeAofRecord : Code Bool := do
  if ← test then
    replicationBroadcast
  if ← test then return true
  else if ← test then return false
  else appendToAof

/-- `rollback_aof_record`. -/
def rollbackAofRecord : Code Unit := do
  if ← test then return ()
  else
    acquire .aof
    release .aof

/-- `append_aof_rewrite_buffer`: whether a rewrite is running is tested again under the lock. -/
def appendAofRewriteBuffer : Code Unit := do
  if ← test then return ()
  else
    acquire .aof
    exitsOr 1 (release .aof) (release .aof)

/-- The consecutive calls for the pieces of a record. -/
def appendFragments : Nat → Code Unit
  | 0 => pure ()
  | count + 1 => do
      appendAofRewriteBuffer
      appendFragments count

/-- `kv_set_durability`. -/
def kvSetDurability : Code Unit := do
  acquire .aof
  release .aof

/-- `kv_sync`: it fails early, has no stream, or cannot flush or sync it. -/
def kvSync : Code Unit := do
  acquire .aof
  exitsOr 4 (release .aof) (release .aof)

-- Operations on one key

/-- `kv_set_internal`: whether it returns `KV_OK`. -/
def kvSetInternal : Code Bool := do
  if ← test then return false
  else
    appendFragments 5
    return true

/-- `kv_delete_internal`: whether it returns `KV_OK`. -/
def kvDeleteInternal : Code Bool := do
  if ← test then return false
  else
    appendFragments 3
    return true

/-- The record is undone when the mutation failed and there is still a stream. -/
def undoUnless (applied : Bool) : Code Unit := do
  if applied then return ()
  else if ← test then rollbackAofRecord
  else return ()

/-- What `kv_set` and `kv_delete` do under their lock: with a stream the record is written first,
and a failure to write it ends the call.
-/
def logAndApply (apply : Code Bool) (leave : Code Unit) : Code Unit := do
  if ← test then
    if ← writeAofRecord then
      undoUnless (← apply)
      leave
    else leave
  else
    undoUnless (← apply)
    leave

/-- `kv_set`; the first test is for invalid arguments. -/
def kvSet (numLocks : Nat) (key : CString) : Code Unit := do
  if ← test then return ()
  else
    let isGlobal ← acquireForInsert numLocks key
    logAndApply kvSetInternal (releaseAfterInsert numLocks key isGlobal)

/-- `kv_delete`; the first test is for an invalid key. -/
def kvDelete (numLocks : Nat) (key : CString) : Code Unit := do
  if ← test then return ()
  else
    kvAcquireBucketLock numLocks key
    logAndApply kvDeleteInternal (kvReleaseBucketLock numLocks key)

/-- With a stream, the record is written, whatever comes of it. -/
def logIfOpen : Code Unit := do
  if ← test then
    let _ ← writeAofRecord
    return ()
  else return ()

/-- `kv_lpush` and `kv_sadd`: the first test is for invalid arguments; then the call may leave early
a number of times, and in the end it logs.
-/
def insertMember (exits numLocks : Nat) (key : CString) : Code Unit := do
  if ← test then return ()
  else
    let isGlobal ← acquireForInsert numLocks key
    exitsOr exits (releaseAfterInsert numLocks key isGlobal) do
      logIfOpen
      appendFragments 5
      releaseAfterInsert numLocks key isGlobal

/-- `kv_lpush` leaves early: another type, no capacity, no budget, no entry, key or list, no budget,
no node or value.
-/
def kvLpush : Nat → CString → Code Unit := insertMember 9

/-- `kv_sadd` leaves early: another type, no capacity, no budget, no entry, key, set or buckets, a
member already, no budget, no node or value.
-/
def kvSadd : Nat → CString → Code Unit := insertMember 11

/-- `kv_rpop` and `kv_srem`: the call may leave early; then it logs, and deletes an emptied
container.
-/
def removeMember (exits fragments numLocks : Nat) (key : CString) : Code Unit := do
  kvAcquireBucketLock numLocks key
  exitsOr exits (kvReleaseBucketLock numLocks key) do
    logIfOpen
    appendFragments fragments
    if ← test then
      let _ ← kvDeleteInternal
      kvReleaseBucketLock numLocks key
    else kvReleaseBucketLock numLocks key

/-- `kv_rpop` leaves early: no entry, another type, no value, no memory. -/
def kvRpop : Nat → CString → Code Unit := removeMember 4 3

/-- `kv_srem` leaves early: no entry, another type, an empty set, no such member. -/
def kvSrem : Nat → CString → Code Unit := removeMember 4 5

/-- `kv_pexpireat` and `kv_persist`: without an entry they leave, otherwise they log. -/
def setDeadline (fragments numLocks : Nat) (key : CString) : Code Unit := do
  kvAcquireBucketLock numLocks key
  exitsOr 1 (kvReleaseBucketLock numLocks key) do
    let _ ← writeAofRecord
    appendFragments fragments
    kvReleaseBucketLock numLocks key

def kvPexpireat : Nat → CString → Code Unit := setDeadline 5

def kvPersist : Nat → CString → Code Unit := setDeadline 3

/-- Calls that only look at an entry. -/
def readEntry (exits numLocks : Nat) (key : CString) : Code Unit := do
  kvAcquireBucketLock numLocks key
  exitsOr exits (kvReleaseBucketLock numLocks key) (kvReleaseBucketLock numLocks key)

/-- `kv_get` leaves early: no entry, another type. -/
def kvGet : Nat → CString → Code Unit := readEntry 2

def kvExists : Nat → CString → Code Unit := readEntry 0

/-- `kv_llen` leaves early: no entry, another type. -/
def kvLlen : Nat → CString → Code Unit := readEntry 2

/-- `kv_scard` leaves early: no entry, another type. -/
def kvScard : Nat → CString → Code Unit := readEntry 2

/-- `kv_smembers` leaves early: no entry of that type, an empty set, no memory. -/
def kvSmembers : Nat → CString → Code Unit := readEntry 3

/-- `kv_pttl` leaves early: no entry, no deadline. -/
def kvPttl : Nat → CString → Code Unit := readEntry 2

-- Operations on the whole store

/-- Calls under all shards, with the early exits they have; whether the last one is reached. -/
def underAllLocks (exits numLocks : Nat) : Code Bool := do
  kvAcquireAllLocks numLocks
  exitsOr exits (do kvReleaseAllLocks numLocks; return false)
    (do kvReleaseAllLocks numLocks; return true)

/-- `kv_bgsave` leaves early: a child is running, `fork` fails. -/
def kvBgsave : Nat → Code Bool := underAllLocks 2

/-- `kv_bgrewriteaof` does nothing without a path. It leaves early: a child is running, `fork`
fails.
-/
def kvBgrewriteaof (numLocks : Nat) : Code Bool :=
  exitsOr 1 (pure false) (underAllLocks 2 numLocks)

/-- `kv_merge_aof_rewrite` does nothing without a path and a child. It leaves early: another child,
the file of the child cannot be opened, written, renamed or opened again.
-/
def kvMergeAofRewrite (numLocks : Nat) : Code Bool :=
  exitsOr 1 (pure false) (underAllLocks 5 numLocks)

def kvDiscardAofRewrite : Nat → Code Bool := underAllLocks 0

/-- `kv_expire_sample_sweep` leaves early when there are no entries. -/
def kvExpireSampleSweep : Nat → Code Bool := underAllLocks 1

def kvEvictLru : Nat → Code Bool := underAllLocks 0

def kvResize : Nat → Code Bool := underAllLocks 0

def kvSetAutoResize : Nat → Code Bool := underAllLocks 0

def kvSetMaxCapacity : Nat → Code Bool := underAllLocks 0

def kvSetMemoryBudget : Nat → Code Bool := underAllLocks 0

def kvSave : Nat → Code Bool := underAllLocks 0

/-- A call without a key returns at once. -/
def withKey (key : Option CString) (call : CString → Code Unit) : Code Unit :=
  match key with
  | none => pure ()
  | some key => call key

/-- A call whose result does not matter. -/
def ignore {α : Type} (call : Code α) : Code Unit := do
  let _ ← call
  return ()

/-- The mutex operations of an operation. -/
def ofOp (numLocks : Nat) : Op → Code Unit
  | .set key value => withKey key (fun key => withKey value (fun _ => kvSet numLocks key))
  | .get key => withKey key (kvGet numLocks)
  | .delete key => withKey key (kvDelete numLocks)
  | .exist key => withKey key (kvExists numLocks)
  | .lpush key value => withKey key (fun key => withKey value (fun _ => kvLpush numLocks key))
  | .rpop key => withKey key (kvRpop numLocks)
  | .llen key => withKey key (kvLlen numLocks)
  | .sadd key value => withKey key (fun key => withKey value (fun _ => kvSadd numLocks key))
  | .srem key value => withKey key (fun key => withKey value (fun _ => kvSrem numLocks key))
  | .scard key => withKey key (kvScard numLocks)
  | .smembers key => withKey key (kvSmembers numLocks)
  | .pexpireat key _ => withKey key (kvPexpireat numLocks)
  | .expire key _ => withKey key (kvPexpireat numLocks)
  | .pexpire key _ => withKey key (kvPexpireat numLocks)
  | .pttl key => withKey key (kvPttl numLocks)
  | .ttl key => withKey key (kvPttl numLocks)
  | .persist key => withKey key (kvPersist numLocks)
  | .resize newBucketCount =>
      if newBucketCount = 0 then pure () else ignore (kvResize numLocks)

/-- The mutex operations of the upkeep of the store. -/
def ofUpkeep (numLocks : Nat) : Upkeep → Code Unit
  | .expireSampleSweep _ _ => ignore (kvExpireSampleSweep numLocks)
  | .evictLru => ignore (kvEvictLru numLocks)
  | .setAutoResize _ => ignore (kvSetAutoResize numLocks)
  | .setMaxCapacity _ => ignore (kvSetMaxCapacity numLocks)
  | .setMemoryBudget _ => ignore (kvSetMemoryBudget numLocks)
  | .bgrewriteaof _ => ignore (kvBgrewriteaof numLocks)
  | .mergeAofRewrite _ _ => ignore (kvMergeAofRewrite numLocks)
  | .discardAofRewrite => ignore (kvDiscardAofRewrite numLocks)

/-- The operations of the store that take a mutex. -/
inductive StoreCall where
  | action (action : Action)
  | save
  | bgsave
  | sync
  | setDurability

def StoreCall.code (numLocks : Nat) : StoreCall → Code Unit
  | .action (.op op) => ofOp numLocks op
  | .action (.upkeep upkeep) => ofUpkeep numLocks upkeep
  | .save => ignore (kvSave numLocks)
  | .bgsave => ignore (kvBgsave numLocks)
  | .sync => kvSync
  | .setDurability => kvSetDurability

end MiniKv.Locks
