import MiniKv.Store.Calls

/-! The lock shards. Their number is fixed when the store is opened, and a key is assigned to one by
the same hash that assigns it to a bucket.
-/

namespace MiniKv

/-- `KV_DEFAULT_NUM_LOCKS`. -/
def kvDefaultNumLocks : Nat := 32

/-- The number of locks `kv_init_full` creates. -/
def numLocks (bucketCount : Nat) : Nat :=
  if 64 < bucketCount then 64
  else if bucketCount < kvDefaultNumLocks then kvDefaultNumLocks
  else bucketCount

/-- `kv_lock_index`. -/
def kvLockIndex (numLocks : Nat) (key : CString) : Nat :=
  if numLocks = 0 then 0 else hashKey key numLocks

theorem numLocks_ne_zero (bucketCount : Nat) : numLocks bucketCount ≠ 0 := by
  unfold numLocks kvDefaultNumLocks
  split
  · decide
  · split
    · decide
    · omega

end MiniKv
