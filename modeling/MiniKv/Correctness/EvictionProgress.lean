import MiniKv.Invariants.Eviction
import MiniKv.Invariants.Reachable

/-! Sampled eviction makes progress: from a table with entries it takes exactly the candidate it
settled on, so that the loops in front of an allocation end.
-/

namespace MiniKv

open MiniKv.Foundations.ChainedTable

variable {table : Table}

theorem Table.RepresentationInvariant.evictable (invariant : table.RepresentationInvariant)
    (early : ∀ entry ∈ table.entries, entry.lastAccessedTime < uint64Max)
    : table.Evictable :=
  ⟨invariant.size, early⟩

/-- Freeing the entry under a cursor keeps the invariant: the others stay as they are. -/
theorem Table.RepresentationInvariant.expireAndDelete (invariant : table.RepresentationInvariant)
    {cursor : Cursor Entry} {index : Nat} (prev : cursor.prev = trailing cursor.pos)
    (here : (bucket table.buckets index)[cursor.pos]? = some cursor.item)
    : (table.expireAndDeleteUnlocked cursor index).RepresentationInvariant := by
  have placed : Placed Entry.key hashKey table.buckets :=
    ⟨invariant.nonempty, invariant.homes, invariant.distinct⟩
  obtain ⟨after, split⟩ := placed.erase here
  rw [← table.expireAndDelete_buckets index prev] at after split
  have kept : ∀ entry ∈ (table.expireAndDeleteUnlocked cursor index).entries,
      entry ∈ table.entries :=
    fun entry member => split.mem_iff.mpr (List.mem_cons_of_mem _ member)
  refine ⟨after.nonempty, after.placed, after.distinct, ?_, ?_, ?_, ?_, ?_, ?_⟩
  · have lengths := split.length_eq
    have size := invariant.size
    rw [Table.entries, lengths, List.length_cons] at size
    show table.size - 1 = _
    rw [size]
    rfl
  · exact fun entry member => invariant.keys entry (kept entry member)
  · exact fun entry member => invariant.lists entry (kept entry member)
  · exact fun entry member => invariant.sets entry (kept entry member)
  · have times := (split.map Entry.lastAccessedTime).nodup_iff.mp invariant.times
    exact (List.nodup_cons.mp times).2
  · exact fun entry member => invariant.clock entry (kept entry member)

theorem Table.RepresentationInvariant.drawn (invariant : table.RepresentationInvariant)
    (prng : UInt32)
    : Table.RepresentationInvariant { table with prng } :=
  ⟨invariant.nonempty, invariant.homes, invariant.distinct, invariant.size, invariant.keys,
    invariant.lists, invariant.sets, invariant.times, invariant.clock⟩

theorem Table.RepresentationInvariant.removals {Lost : Binding → Prop} {after : Table}
    (invariant : table.RepresentationInvariant) (removals : Table.Removals Lost table after)
    : after.RepresentationInvariant := by
  induction removals with
  | refl => exact invariant
  | tail _ last ih =>
      cases last with
      | draw prng => exact ih.drawn prng
      | free prev here lost => exact ih.expireAndDelete prev here

/-- More fuel than entries does not matter: every round takes one entry. -/
theorem Table.Evictable.evictWhileOver_fuel (evictable : table.Evictable) (bytes : Nat)
    {fuel : Nat} (enough : table.size ≤ fuel)
    : table.evictWhileOver bytes fuel = table.evictWhileOver bytes table.size := by
  induction fuel generalizing table with
  | zero => rw [Nat.le_zero.mp enough]
  | succ fuel ih =>
      by_cases excess : table.maxMemoryBudget < table.allocatedBytes + bytes ∧ 0 < table.size
      · obtain ⟨_, _, _, evicted, _⟩ := evictable.evictLru_victim excess.2
        have fewer := evictable.evictLru_size excess.2
        have rest := ih (evictable.next excess.2) (by omega)
        rw [← fewer, Table.evictWhileOver, Table.evictWhileOver, if_pos excess, if_pos excess]
        simp only [if_pos evicted, rest]
      · rw [Table.evictWhileOver, if_neg excess]
        cases table.size with
        | zero => rfl
        | succ size => rw [Table.evictWhileOver, if_neg excess]

/-- An eviction from a table with entries succeeds. It takes one node out of one chain and leaves
the other nodes where they are. The entry taken was used least recently of all entries in the
buckets that were drawn, or of all entries when these buckets were empty. So the loop that evicts
until some bytes fit ends with room for them or with an empty table, after at most as many rounds as
there are entries.
-/
theorem evict_lru_progress (invariant : table.RepresentationInvariant)
    (early : ∀ entry ∈ table.entries, entry.lastAccessedTime < uint64Max)
    (occupied : 0 < table.size)
    : let evicted := table.kvEvictLruUnlocked
      evicted.1 = kvOk
      ∧ (∃ index pos victim, (bucket table.buckets index)[pos]? = some victim
          ∧ evicted.2.buckets = table.buckets.modify index (fun chain => chain.eraseIdx pos)
          ∧ table.entries.Perm (victim :: evicted.2.entries)
          ∧ (∀ entry ∈ table.drawnEntries 64 table.prng 0,
              victim.lastAccessedTime ≤ entry.lastAccessedTime)
          ∧ (table.drawnEntries 64 table.prng 0 = [] → ∀ entry ∈ table.entries,
              victim.lastAccessedTime ≤ entry.lastAccessedTime))
      ∧ evicted.2.size + 1 = table.size
      ∧ evicted.2.RepresentationInvariant
      ∧ ∀ bytes, ∃ after : Table, after.RepresentationInvariant
          ∧ (∀ fuel, table.size ≤ fuel → table.evictWhileOver bytes fuel = after)
          ∧ (after.allocatedBytes + bytes ≤ after.maxMemoryBudget ∨ after.entries = []) := by
  intro evicted
  have evictable := invariant.evictable early
  obtain ⟨victim, ⟨prev, here⟩, _, least, effect⟩ := evictable.evictLru occupied
  refine ⟨by simp only [evicted, effect], ?_, evictable.evictLru_size occupied,
    invariant.removals table.evictLru_removals, fun bytes => ?_⟩
  · refine ⟨victim.index, victim.cursor.pos, victim.cursor.item, here, ?_, ?_, ?_, ?_⟩
    · simp only [evicted, effect]
      exact Table.expireAndDelete_buckets _ _ prev
    · simp only [evicted, effect]
      exact Table.expireAndDelete_perm { table with prng := table.choice.1 } prev here
    · intro entry drawn
      apply least
      rw [Table.candidates]
      split
      · next none => exact absurd none (List.ne_nil_of_mem drawn)
      · next same => exact same ▸ drawn
    · intro none entry member
      apply least
      rwa [Table.candidates, none]
  · have removals := Table.evictWhileOver_removals bytes table.size table
    refine ⟨table.evictWhileOver bytes table.size, invariant.removals removals, ?_, ?_⟩
    · exact fun fuel enough => evictable.evictWhileOver_fuel bytes enough
    · rw [removals.maxMemoryBudget]
      exact evictable.evictWhileOver_ends bytes le_rfl

/-- Two strings in a store with two buckets. -/
theorem evict_lru_progress_two
    : ∃ start, kvInitFull 2 0 0 none [] 7 (.at 0) (fun _ => .at 0) = .ok start
        ∧ let table := (start.run
            [⟨.op (.set (some ⟨[97], by decide⟩) (some ⟨[120], by decide⟩)), .at 1, 0⟩,
              ⟨.op (.set (some ⟨[98], by decide⟩) (some ⟨[121], by decide⟩)), .at 2, 9⟩]).2.table
          table.size = 2 ∧ table.kvEvictLruUnlocked.1 = kvOk
          ∧ table.kvEvictLruUnlocked.2.size + 1 = table.size := by
  refine ⟨_, rfl, ?_⟩
  intro table
  have opened : kvInitFull 2 0 0 none [] 7 (.at 0) (fun _ => .at 0) = .ok _ := rfl
  have invariant : table.RepresentationInvariant :=
    ((kvInitFull_sound opened).run (by decide)).wellFormed.representationInvariant
  have two : table.size = 2 := by decide +kernel
  have early : ∀ entry ∈ table.entries, entry.lastAccessedTime < uint64Max := by decide +kernel
  have progress := evict_lru_progress invariant early (two ▸ by decide)
  exact ⟨two, progress.1, progress.2.2.1⟩

end MiniKv
