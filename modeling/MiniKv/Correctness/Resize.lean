import MiniKv.Invariants.Accounting

/-! `kv_resize` relinks every entry once, or changes nothing at all. -/

namespace MiniKv

open MiniKv.Foundations.ChainedTable

variable {store : Store}

/-- What a resize returns and does. The three refusals leave the table alone. -/
theorem Table.kvResizeUnlocked_cases (table : Table) {newBucketCount : Nat}
    (positive : 0 < newBucketCount) (env : CallEnv)
    : table.kvResizeUnlocked newBucketCount env
        = (kvOk, Table.refund
            { table.charge (newBucketCount * sizeofPointer) with
              buckets := rehash Entry.key hashKey table.buckets newBucketCount }
            (table.bucketCount * sizeofPointer))
      ∨ ∃ code, code ≠ kvOk ∧ table.kvResizeUnlocked newBucketCount env = (code, table) := by
  simp only [Table.kvResizeUnlocked, if_neg (Nat.ne_of_gt positive)]
  split
  · exact .inr ⟨kvErrBudgetExceeded, by decide, rfl⟩
  · split
    · exact .inr ⟨kvErrInternal, by decide, rfl⟩
    · exact .inl rfl

/-- The bucket array is charged in every state of a run. -/
theorem Store.Books.array_charged {path : Option CString} (books : store.Books path)
    : store.table.bucketCount * sizeofPointer ≤ store.table.allocatedBytes := by
  have total := books.accounted.exact
  omega

/-- After a resize that succeeds, the entries are the same ones, each in the chain that its key
selects in the new array, and the accounts have moved by the difference of the two arrays; the new
array was charged while the old one was still there. After a resize that fails, the store is the
old one. The difference is exact as long as the old array is charged, which it is in every state of
a run.
-/
theorem kv_resize_moves_or_keeps (invariant : store.table.RepresentationInvariant)
    {newBucketCount : Nat} (positive : 0 < newBucketCount) (env : CallEnv)
    : let table := store.table
      let resized := (Op.resize newBucketCount).call env store
      (resized.1 = .status kvOk →
        let after := resized.2.table
        after.entries.Perm table.entries
        ∧ after.bucketCount = newBucketCount
        ∧ (∀ index entry, entry ∈ bucket after.buckets index
            ↔ entry ∈ table.entries ∧ hashKey entry.key newBucketCount = index)
        ∧ after.size = table.size
        ∧ (table.bucketCount * sizeofPointer ≤ table.allocatedBytes →
          (after.allocatedBytes : Int) - table.allocatedBytes
            = ((newBucketCount : Int) - table.bucketCount) * sizeofPointer)
        ∧ table.allocatedBytes + newBucketCount * sizeofPointer ≤ after.peakAllocatedBytes
        ∧ resized.2.aof = store.aof)
      ∧ (resized.1 ≠ .status kvOk → resized.2 = store)
      ∧ ∀ {bucketCount maxCapacity maxMemoryBudget : Nat} {path : Option CString}
          {log : List UInt8} {prng : UInt32} {env : CallEnv} {lineEnvs : Nat → CallEnv}
          {start : Store} {calls : List Call},
          kvInitFull bucketCount maxCapacity maxMemoryBudget path log prng env lineEnvs
            = .ok start →
          (start.run calls).2.table.bucketCount * sizeofPointer
            ≤ (start.run calls).2.table.allocatedBytes := by
  intro table resized
  have call : resized = ((.status (table.kvResizeUnlocked newBucketCount env).1),
      { store with table := (table.kvResizeUnlocked newBucketCount env).2 }) := rfl
  refine ⟨fun ok => ?_, fun failed => ?_, fun opened => ?_⟩
  · have placed : Placed Entry.key hashKey table.buckets :=
      ⟨invariant.nonempty, invariant.homes, invariant.distinct⟩
    obtain ⟨length, homes, moved⟩ :=
      placed.rehash positive (fun key => hashKey_lt key positive)
    rcases table.kvResizeUnlocked_cases positive env with done | ⟨code, error, refused⟩
    · rw [call, done]
      refine ⟨moved, length, fun index entry => ?_, rfl, fun charged => ?_, le_max_right .., rfl⟩
      · constructor
        · intro inChain
          have home := homes.placed index entry inChain
          rw [length] at home
          exact ⟨moved.mem_iff.mp (mem_flatten_iff.mpr ⟨index, inChain⟩), home⟩
        · rintro ⟨member, rfl⟩
          obtain ⟨index, inChain⟩ := mem_flatten_iff.mp (moved.mem_iff.mpr member)
          have home := homes.placed index entry inChain
          rw [length] at home
          exact home ▸ inChain
      · simp only [Table.refund, Table.charge]
        rw [Int.sub_mul]
        omega
    · rw [call, refused] at ok
      exact absurd (Reply.status.inj ok) error
  · rcases table.kvResizeUnlocked_cases positive env with done | ⟨code, error, refused⟩
    · rw [call, done] at failed
      exact absurd rfl failed
    · rw [call, refused]
  · exact ((kvInitFull_books opened).1.run _).array_charged

/-- A store with two strings shrinks to one bucket. -/
theorem kv_resize_moves_or_keeps_shrunk
    : ∃ start, kvInitFull 2 0 0 none [] 7 (.at 0) (fun _ => .at 0) = .ok start
        ∧ let store := (start.run
            [⟨.op (.set (some ⟨[97], by decide⟩) (some ⟨[120], by decide⟩)), .at 1, 0⟩,
              ⟨.op (.set (some ⟨[98], by decide⟩) (some ⟨[121], by decide⟩)), .at 2, 9⟩]).2
          let resized := (Op.resize 1).call (.at 3) store
          resized.1 = .status kvOk
          ∧ resized.2.table.entries.Perm store.table.entries ∧ resized.2.table.size = 2 := by
  refine ⟨_, rfl, ?_⟩
  intro store resized
  have opened : kvInitFull 2 0 0 none [] 7 (.at 0) (fun _ => .at 0) = .ok _ := rfl
  have invariant : store.table.RepresentationInvariant :=
    ((kvInitFull_sound opened).run (by decide)).wellFormed.representationInvariant
  have two : store.table.size = 2 := by decide +kernel
  obtain ⟨moved, _, _, size, _⟩ :=
    (kv_resize_moves_or_keeps invariant (Nat.zero_lt_one) (.at 3)).1 rfl
  exact ⟨rfl, moved, size.trans two⟩

end MiniKv
