import MiniKv.Store.Types

/-! The hash table: lookup with lazy expiry, unlinking, and resizing.
Entries are addressed by their bucket and by cursors into its chain; a write through an entry
pointer is a rewrite of the first chain entry with that key.
-/

namespace MiniKv

open MiniKv.Foundations.ChainedTable
open MiniKv.Foundations.DoublyLinked

/-- The bytes `list_destroy` reports: the header and every node met along `next`. -/
def listDestroyBytes (list : KvList) : Nat :=
  list.toList.foldl (fun freed value => freed + (sizeofListNode + value.length + 1)) sizeofList

/-- The bytes `set_destroy` reports: the header, its bucket array and every node. -/
def setDestroyBytes (set : KvSet) : Nat :=
  set.members.foldl (fun freed value => freed + (sizeofSetNode + value.length + 1))
    (sizeofSet + set.bucketCount * sizeofPointer)

/-- The bytes an entry gives back when `expire_and_delete_unlocked` frees it. -/
def Entry.freedBytes (entry : Entry) : Nat :=
  sizeofEntry + entry.key.length + 1
  + match entry.value with
    | .string value => value.length + 1
    | .list list => listDestroyBytes list
    | .set set => setDestroyBytes set

/-- `entry_is_expired`. -/
def entryIsExpired (entry : Entry) (nowMs : Int64) : Bool :=
  0 < entry.expireAtMs && entry.expireAtMs ≤ nowMs

/-- Adds freshly owned bytes and moves the peak with them. -/
def Table.charge (table : Table) (bytes : Nat) : Table :=
  { table with
    allocatedBytes := table.allocatedBytes + bytes
    peakAllocatedBytes := max table.peakAllocatedBytes (table.allocatedBytes + bytes) }

/-- Gives bytes back, clamping at zero. -/
def Table.refund (table : Table) (bytes : Nat) : Table :=
  { table with allocatedBytes := table.allocatedBytes - bytes }

/-- `expire_and_delete_unlocked`: unlinks the entry under a cursor and frees it. -/
def Table.expireAndDeleteUnlocked (table : Table) (cursor : Cursor Entry) (index : Nat)
    : Table :=
  let unlinked := { table with
    buckets := table.buckets.modify index
      (fun chain => unlink chain cursor.prev cursor.pos)
    size := table.size - 1 }
  unlinked.refund cursor.item.freedBytes

/-- The chain walk shared by the lookups: a cursor on the entry with this key. -/
def Table.seekEntry (table : Table) (key : CString) : Option (Cursor Entry) :=
  seek (fun entry => entry.key = key) (table.chain key) none 0

/-- The entry with this key, expired or not. -/
def Table.lookup (table : Table) (key : CString) : Option Entry :=
  (table.chain key).find? (fun entry => entry.key = key)

/-- `find_entry_unlocked`: an expired entry is removed on the way and reported absent. -/
def Table.findEntryUnlocked (table : Table) (key : CString) (nowMs : Int64)
    : Option Entry × Table :=
  match table.seekEntry key with
  | none => (none, table)
  | some cursor =>
      if entryIsExpired cursor.item nowMs then
        (none, table.expireAndDeleteUnlocked cursor (hashKey key table.bucketCount))
      else (some cursor.item, table)

/-- Writes through the pointer to the entry with this key. -/
def Table.modifyEntry (table : Table) (key : CString) (change : Entry → Entry) : Table :=
  { table with
    buckets := table.buckets.modify (hashKey key table.bucketCount)
      (rewriteFirst (fun entry => entry.key = key) change) }

/-- `entry->last_accessed_time = ++store->lru_clock`. -/
def Table.touch (table : Table) (key : CString) : Table :=
  { table.modifyEntry key (fun entry => { entry with lastAccessedTime := table.lruClock + 1 })
    with lruClock := table.lruClock + 1 }

/-- Replaces the payload behind the entry pointer. -/
def Table.setPayload (table : Table) (key : CString) (value : Payload) : Table :=
  table.modifyEntry key (fun entry => { entry with value })

/-- Links a new persistent entry at the head of its chain and charges its bytes. -/
def Table.insertEntry (table : Table) (key : CString) (value : Payload) (bytes : Nat)
    : Table :=
  let entry : Entry :=
    { key, value, expireAtMs := 0, lastAccessedTime := table.lruClock + 1 }
  let linked := { table with
    buckets := table.buckets.modify (hashKey key table.bucketCount) (entry :: ·)
    size := table.size + 1
    lruClock := table.lruClock + 1 }
  linked.charge bytes

/-- `kv_resize_unlocked`. The new array is charged before the old one is given back. The products
and sums are not cut to 64 bits: from 2^61 buckets on the code may pass the budget where they do
not, and then fails to allocate the array.
-/
def Table.kvResizeUnlocked (table : Table) (newBucketCount : Nat) (env : CallEnv)
    : Int × Table :=
  if newBucketCount = 0 then (kvErrInvalidParam, table)
  else
    let newBucketsBytes := newBucketCount * sizeofPointer
    let oldBucketsBytes := table.bucketCount * sizeofPointer
    if 0 < table.maxMemoryBudget
        ∧ table.maxMemoryBudget < table.allocatedBytes + newBucketsBytes then
      (kvErrBudgetExceeded, table)
    else if env.alloc .buckets = false then (kvErrInternal, table)
    else
      let charged := table.charge newBucketsBytes
      let rehashed := { charged with
        buckets := rehash Entry.key hashKey table.buckets newBucketCount }
      (kvOk, rehashed.refund oldBucketsBytes)

/-- `(size + 1) * KV_LOAD_FACTOR_DEN >= bucket_count * KV_LOAD_FACTOR_NUM`, tested only when
auto-resize is on.
-/
def Table.loadFactorExceeded (table : Table) : Bool :=
  table.autoResize && table.bucketCount * 3 ≤ (table.size + 1) * 4

/-- The prologue of `kv_set`: whichever locks it takes, it doubles the array when the load
factor is exceeded and goes on whether or not that worked.
-/
def Table.growIfLoaded (table : Table) (env : CallEnv) : Table :=
  if table.loadFactorExceeded then
    (table.kvResizeUnlocked (table.bucketCount * 2) env).2
  else table

/-- `kv_set_expire_at_ms_internal`: no expiry test, an absent key is ignored. -/
def Table.kvSetExpireAtMsInternal (table : Table) (key : CString) (expireAtMs : Int64)
    : Table :=
  table.modifyEntry key (fun entry => { entry with expireAtMs })

end MiniKv
