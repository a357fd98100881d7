import MiniKv.Foundations.ChainedTable
import MiniKv.Foundations.DoublyLinked
import MiniKv.Store.CStrings

/-! The store's records, and the outside world one call of the store meets.
The record `kv_store` is split in two: the hash table with its accounting, and what belongs to
the append-only file. Sizes and counters are natural numbers: a `size_t` bounds memory that
exists, and the 64-bit access counter is incremented once for each access.
-/

namespace MiniKv

open MiniKv.Foundations.ChainedTable
open MiniKv.Foundations.DoublyLinked

/-- `kv_list_t` with its nodes. -/
abbrev KvList := DList CString

/-- `kv_set_t`: the array of collision chains and the cached number of members. -/
structure KvSet where
  buckets : List (List CString)
  count : Nat

/-- `set->bucket_count`, the length of the calloc'ed array. -/
def KvSet.bucketCount (set : KvSet) : Nat :=
  set.buckets.length

/-- The members in bucket and chain order. -/
def KvSet.members (set : KvSet) : List CString :=
  set.buckets.flatten

/-- The tagged union behind `entry->type` and `entry->value_ptr`. -/
inductive Payload where
  | string (value : CString)
  | list (list : KvList)
  | set (set : KvSet)

/-- `kv_entry_t` without its chain link. -/
structure Entry where
  key : CString
  value : Payload
  expireAtMs : Int64
  lastAccessedTime : Nat

/-- The hash table half of `kv_store_t`. `prng` is the process-wide `g_xorshift_state`. -/
structure Table where
  buckets : List (List Entry)
  size : Nat
  maxCapacity : Nat
  allocatedBytes : Nat
  peakAllocatedBytes : Nat
  maxMemoryBudget : Nat
  autoResize : Bool
  lruClock : Nat
  prng : UInt32

/-- `store->bucket_count`, the length of the calloc'ed array. -/
def Table.bucketCount (table : Table) : Nat :=
  table.buckets.length

/-- All entries in bucket and chain order. -/
def Table.entries (table : Table) : List Entry :=
  table.buckets.flatten

/-- The collision chain of a key. -/
def Table.chain (table : Table) (key : CString) : List Entry :=
  bucket table.buckets (hashKey key table.bucketCount)

/-- The append-only file half of `kv_store_t`. `fp` is the open stream as the position that
`ftell` reports, `log` the file at `path`, `rewriteTmp` the temporary file of the rewrite child,
and `broadcasts` the calls of `replication_broadcast`.
-/
structure Aof where
  path : Option CString
  fp : Option Nat
  log : List UInt8
  bgsavePid : Int
  rewritePid : Int
  rewriteBuf : Option (List UInt8)
  rewriteBufLen : Nat
  rewriteBufCap : Nat
  rewriteTmp : Option (List UInt8)
  broadcasts : List (List UInt8)

/-- `kv_store_t`. -/
structure Store where
  table : Table
  aof : Aof

/-- The places where a call allocates; each is reached at most once in one call. -/
inductive AllocSite where
  | buckets
  | locks
  | path
  | entry
  | key
  | value
  | list
  | set
  | setBuckets
  | node
  | result
  | rewriteBuffer (nth : Nat)
deriving DecidableEq

/-- What the file system does with one record: everything succeeds, nothing is attempted
(`g_io_fail` or a failing `ftell`), or a write or flush fails after some bytes.
-/
inductive IoOutcome where
  | ok
  | refused
  | failed (written : Nat)
deriving DecidableEq

/-- The clock, the allocator and the file system as one call meets them. -/
structure CallEnv where
  now : Int64
  alloc : AllocSite → Bool
  io : IoOutcome

/-- No allocation fails during the call. -/
def CallEnv.Allocates (env : CallEnv) : Prop :=
  ∀ site, env.alloc site = true

/-- No allocation and no file operation fails during the call. -/
def CallEnv.Clean (env : CallEnv) : Prop :=
  (∀ site, env.alloc site = true) ∧ env.io = .ok

/-- A call at a given time in which nothing fails. -/
def CallEnv.at (now : Int64) : CallEnv :=
  { now, alloc := fun _ => true, io := .ok }

/-- The failure-free environment is clean. -/
theorem CallEnv.clean_at (now : Int64) : (CallEnv.at now).Clean :=
  ⟨fun _ => rfl, rfl⟩

def sizeofPointer : Nat := 8
def sizeofEntry : Nat := 48
def sizeofList : Nat := 24
def sizeofListNode : Nat := 24
def sizeofSet : Nat := 24
def sizeofSetNode : Nat := 16

end MiniKv
