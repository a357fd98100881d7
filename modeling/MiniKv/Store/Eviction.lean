import MiniKv.Store.Table

/-! Sampled LRU eviction, the expiry sweep, and the eviction loops of the insertions. -/

namespace MiniKv

open MiniKv.Foundations.ChainedTable

/-- `xorshift32`: the new state is also the result. -/
def xorshift32 (state : UInt32) : UInt32 :=
  let x := if state = 0 then 2463534242 else state
  let x := x ^^^ (x <<< 13)
  let x := x ^^^ (x >>> 17)
  x ^^^ (x <<< 5)

/-- `UINT64_MAX`, where `min_clock` starts. -/
def uint64Max : Nat := 2 ^ 64 - 1

/-- `best_entry`, `best_prev` and `best_idx`. -/
structure Victim where
  index : Nat
  cursor : Cursor Entry

/-- `min_clock` with the candidate it belongs to. -/
structure Oldest where
  minClock : Nat
  best : Option Victim

/-- Walks one chain and keeps the entry with the smallest access time. -/
def scanChain (index : Nat) : List Entry → Option Nat → Nat → Oldest → Oldest
  | [], _, _, oldest => oldest
  | entry :: rest, prev, pos, oldest =>
      scanChain index rest (some pos) (pos + 1)
        (if entry.lastAccessedTime < oldest.minClock then
          ⟨entry.lastAccessedTime, some ⟨index, ⟨prev, pos, entry⟩⟩⟩
        else oldest)

/-- Draws buckets until 16 non-empty ones were scanned or the tries are used up. -/
def Table.sampleBuckets (table : Table) : Nat → UInt32 → Nat → Oldest → UInt32 × Oldest
  | 0, prng, _, oldest => (prng, oldest)
  | tries + 1, prng, samplesFound, oldest =>
      if samplesFound < 16 then
        let prng := xorshift32 prng
        let index := prng.toNat % table.bucketCount
        match bucket table.buckets index with
        | [] => table.sampleBuckets tries prng samplesFound oldest
        | entry :: rest =>
            table.sampleBuckets tries prng (samplesFound + 1)
              (scanChain index (entry :: rest) none 0 oldest)
      else (prng, oldest)

/-- Scans all buckets from `index` on. -/
def scanBuckets : List (List Entry) → Nat → Oldest → Oldest
  | [], _, oldest => oldest
  | chain :: rest, index, oldest =>
      scanBuckets rest (index + 1) (scanChain index chain none 0 oldest)

/-- `kv_evict_lru_unlocked`. -/
def Table.kvEvictLruUnlocked (table : Table) : Int × Table :=
  if table.size = 0 then (kvErrNotFound, table)
  else
    let sampled := table.sampleBuckets 64 table.prng 0 ⟨uint64Max, none⟩
    let drawn := { table with prng := sampled.1 }
    let oldest :=
      match sampled.2.best with
      | some _ => sampled.2
      -- No sampled bucket held an entry: scan the whole table.
      | none => scanBuckets table.buckets 0 sampled.2
    match oldest.best with
    | some victim => (kvOk, drawn.expireAndDeleteUnlocked victim.cursor victim.index)
    | none => (kvErrInternal, drawn)

/-- One chain of `kv_expire_sample_sweep`, deleting behind a trailing pointer; `pos` is the
position of the current entry in the chain as it is by then.
-/
def sweepChain (nowMs : Int64) (maxKeysToDelete index : Nat)
    : List Entry → Option Nat → Nat → Nat × Table → Nat × Table
  | [], _, _, swept => swept
  | entry :: rest, prev, pos, (deleted, table) =>
      if deleted < maxKeysToDelete then
        if entryIsExpired entry nowMs then
          sweepChain nowMs maxKeysToDelete index rest prev pos
            (deleted + 1, table.expireAndDeleteUnlocked ⟨prev, pos, entry⟩ index)
        else
          sweepChain nowMs maxKeysToDelete index rest (some pos) (pos + 1) (deleted, table)
      else (deleted, table)

/-- The pass over randomly drawn buckets. -/
def sweepSamples (nowMs : Int64) (maxKeysToDelete : Nat)
    : Nat → Nat × Table → Nat × Table
  | 0, swept => swept
  | tries + 1, (deleted, table) =>
      if deleted < maxKeysToDelete ∧ 0 < table.size then
        let prng := xorshift32 table.prng
        let index := prng.toNat % table.bucketCount
        sweepSamples nowMs maxKeysToDelete tries
          (sweepChain nowMs maxKeysToDelete index (bucket table.buckets index) none 0
            (deleted, { table with prng }))
      else (deleted, table)

/-- The pass over all buckets in index order. -/
def sweepAll (nowMs : Int64) (maxKeysToDelete : Nat)
    : List Nat → Nat × Table → Nat × Table
  | [], swept => swept
  | index :: rest, (deleted, table) =>
      if deleted < maxKeysToDelete ∧ 0 < table.size then
        sweepAll nowMs maxKeysToDelete rest
          (sweepChain nowMs maxKeysToDelete index (bucket table.buckets index) none 0
            (deleted, table))
      else (deleted, table)

/-- `kv_expire_sample_sweep`. -/
def Table.kvExpireSampleSweep (table : Table) (sampleSize maxKeysToDelete : Nat)
    (nowMs : Int64)
    : Nat × Table :=
  if table.size = 0 then (0, table)
  else
    let tries := if sampleSize < 16 then 16 else sampleSize
    let sampled := sweepSamples nowMs maxKeysToDelete tries (0, table)
    if 100 ≤ sampleSize ∨ (sampled.1 = 0 ∧ 0 < sampled.2.size) then
      sweepAll nowMs maxKeysToDelete (List.range sampled.2.bucketCount) sampled
    else sampled

/-- The loop `while (allocated_bytes + bytes > budget && size > 0)` with its break; a
successful eviction takes one off `size`, which is the fuel.
-/
def Table.evictWhileOver (bytes : Nat) : Nat → Table → Table
  | 0, table => table
  | fuel + 1, table =>
      if table.maxMemoryBudget < table.allocatedBytes + bytes ∧ 0 < table.size then
        let evicted := table.kvEvictLruUnlocked
        if evicted.1 = kvOk then Table.evictWhileOver bytes fuel evicted.2 else evicted.2
      else table

/-- The budget step in front of an allocation: evict while over budget, then test again.
Without a budget nothing happens.
-/
def Table.makeRoom (table : Table) (bytes : Nat) : Bool × Table :=
  if 0 < table.maxMemoryBudget then
    let evicted := table.evictWhileOver bytes table.size
    (evicted.allocatedBytes + bytes ≤ evicted.maxMemoryBudget, evicted)
  else (true, table)

/-- The capacity test in front of an insertion. -/
def Table.atCapacity (table : Table) : Bool :=
  0 < table.maxCapacity && table.maxCapacity ≤ table.size

end MiniKv
