import MiniKv.Invariants.Reachable

/-! The expiry sweep: a pass over randomly drawn buckets and, when it was asked for or when the
first one deleted nothing, a pass over all buckets, under one cap on the number of deletions.
-/

namespace MiniKv

open MiniKv.Foundations.ChainedTable

/-- No entry that a sweep looks for is in this list. -/
def NoneExpired (nowMs : Int64) (entries : List Entry) : Prop :=
  ∀ entry ∈ entries, entryIsExpired entry nowMs = false

theorem NoneExpired.sublist {nowMs : Int64} {entries fewer : List Entry}
    (none : NoneExpired nowMs entries) (sublist : fewer.Sublist entries)
    : NoneExpired nowMs fewer :=
  fun entry member => none entry (sublist.subset member)

/-- What a part of the sweep does to the count of deletions and to the table: it takes the expired
entries `removed` out of their chains and counts them.
-/
structure Sweeps (nowMs : Int64) (before after : Nat × Table) (removed : List Entry) : Prop where
  expired : ∀ entry ∈ removed, entryIsExpired entry nowMs = true
  count : after.1 = before.1 + removed.length
  size : after.2.size + removed.length = before.2.size
  split : before.2.entries.Perm (removed ++ after.2.entries)
  bucketCount : after.2.bucketCount = before.2.bucketCount
  chains : ∀ index, (bucket after.2.buckets index).Sublist (bucket before.2.buckets index)

variable {nowMs : Int64} {maxKeysToDelete : Nat} {table : Table}

theorem Sweeps.refl (nowMs : Int64) (swept : Nat × Table) : Sweeps nowMs swept swept [] where
  expired := by simp
  count := rfl
  size := rfl
  split := .refl _
  bucketCount := rfl
  chains := fun _ => .refl _

theorem Sweeps.trans {first second third : Nat × Table} {early late : List Entry}
    (before : Sweeps nowMs first second early) (after : Sweeps nowMs second third late)
    : Sweeps nowMs first third (early ++ late) where
  expired := by
    intro entry member
    rcases List.mem_append.mp member with old | new
    · exact before.expired entry old
    · exact after.expired entry new
  count := by
    rw [after.count, before.count, List.length_append, Nat.add_assoc]
  size := by
    rw [← before.size, ← after.size, List.length_append]
    omega
  split := by
    rw [List.append_assoc]
    exact before.split.trans (after.split.append_left early)
  bucketCount := after.bucketCount.trans before.bucketCount
  chains := fun index => (after.chains index).trans (before.chains index)

/-- The size stays the number of entries. -/
theorem Sweeps.sized {before after : Nat × Table} {removed : List Entry}
    (sweeps : Sweeps nowMs before after removed)
    (sized : before.2.size = before.2.entries.length)
    : after.2.size = after.2.entries.length := by
  have lengths := sweeps.split.length_eq
  have size := sweeps.size
  rw [List.length_append] at lengths
  omega

/-- One step: the entry under the cursor goes, or none. -/
theorem SweepStep.sweeps {before after : Nat × Table} (step : SweepStep nowMs before after)
    (sized : before.2.size = before.2.entries.length)
    : ∃ removed, Sweeps nowMs before after removed := by
  cases step with
  | draw deleted table prng =>
      exact ⟨[], by simp, rfl, rfl, .refl _, rfl, fun _ => .refl _⟩
  | @delete deleted table cursor index prev here expired =>
      have split := table.expireAndDelete_perm prev here
      refine ⟨[cursor.item], by simpa using expired, rfl, ?_, split, ?_, ?_⟩
      · have occupied : table.size = _ := sized.trans split.length_eq
        rw [List.length_cons] at occupied
        show table.size - 1 + 1 = table.size
        omega
      · rw [Table.bucketCount, Table.bucketCount, table.expireAndDelete_buckets index prev,
          List.length_modify]
      · intro other
        by_cases same : other = index
        · subst same
          dsimp only
          rw [table.expireAndDelete_chain prev here]
          exact List.eraseIdx_sublist ..
        · dsimp only
          rw [table.expireAndDelete_buckets index prev, bucket_modify (index_lt_of_bucket here),
            if_neg same]

/-- A run of the sweep, by induction on its steps. -/
theorem SweepRun.sweeps {before after : Nat × Table} (run : SweepRun nowMs before after)
    (sized : before.2.size = before.2.entries.length)
    : ∃ removed, Sweeps nowMs before after removed := by
  induction run with
  | refl => exact ⟨[], .refl _ _⟩
  | tail _ last ih =>
      obtain ⟨early, first⟩ := ih
      obtain ⟨late, second⟩ := last.sweeps (first.sized sized)
      exact ⟨early ++ late, first.trans second⟩

/-- One chain. The sweep ends at the cap, or behind a chain without expired entries: those in
front of the trailing pointer have been kept. By induction on the rest of the chain.
-/
theorem sweepChain_complete {index deleted pos : Nat} {chain : List Entry}
    (capped : deleted ≤ maxKeysToDelete) (rest : (bucket table.buckets index).drop pos = chain)
    (kept : NoneExpired nowMs ((bucket table.buckets index).take pos))
    : let swept := sweepChain nowMs maxKeysToDelete index chain (trailing pos) pos (deleted, table)
      swept.1 ≤ maxKeysToDelete
      ∧ (swept.1 = maxKeysToDelete ∨ NoneExpired nowMs (bucket swept.2.buckets index)) := by
  induction chain generalizing pos deleted table with
  | nil =>
      refine ⟨capped, .inr ?_⟩
      rwa [List.take_of_length_le (List.drop_eq_nil_iff.mp rest)] at kept
  | cons entry chain ih =>
      obtain ⟨here, next⟩ := of_drop_eq_cons rest
      by_cases more : deleted < maxKeysToDelete
      · by_cases expired : entryIsExpired entry nowMs = true
        · have shorter :=
            @Table.expireAndDelete_chain table ⟨trailing pos, pos, entry⟩ index rfl here
          simp only [sweepChain, if_pos more, if_pos expired]
          refine ih more ?_ ?_
          · rw [shorter, drop_eraseIdx rest]
          · rwa [shorter, List.take_eraseIdx_eq_take_of_le _ _ _ le_rfl]
        · simp only [sweepChain, if_pos more, if_neg expired]
          refine @ih table deleted (pos + 1) capped next ?_
          rw [List.take_add_one, here]
          intro other member
          rcases List.mem_append.mp member with old | new
          · exact kept other old
          · obtain rfl : other = entry := by simpa using new
            simpa using expired
      · simp only [sweepChain, if_neg more]
        exact ⟨capped, .inl (Nat.le_antisymm capped (Nat.le_of_not_lt more))⟩

/-- The pass over some buckets ends at the cap or leaves no expired entry in them. By induction on
the buckets: a chain that was swept stays without expired entries.
-/
theorem sweepAll_complete {indices : List Nat} {deleted : Nat}
    (sized : table.size = table.entries.length) (capped : deleted ≤ maxKeysToDelete)
    : let swept := sweepAll nowMs maxKeysToDelete indices (deleted, table)
      swept.1 ≤ maxKeysToDelete
      ∧ (swept.1 = maxKeysToDelete
        ∨ ∀ index ∈ indices, NoneExpired nowMs (bucket swept.2.buckets index)) := by
  induction indices generalizing deleted table with
  | nil => exact ⟨capped, .inr (by simp)⟩
  | cons index rest ih =>
      by_cases more : deleted < maxKeysToDelete ∧ 0 < table.size
      · simp only [sweepAll, if_pos more]
        have chain := @sweepChain_run table nowMs maxKeysToDelete index
          (bucket table.buckets index) 0 deleted rfl
        obtain ⟨below, done⟩ := @sweepChain_complete nowMs maxKeysToDelete table index deleted 0
          (bucket table.buckets index) capped rfl (by simp [NoneExpired])
        rw [trailing] at chain below done
        generalize sweepChain nowMs maxKeysToDelete index (bucket table.buckets index) none 0
          (deleted, table) = middle at chain below done ⊢
        obtain ⟨_, swept⟩ := chain.sweeps sized
        obtain ⟨ends, clean⟩ := ih (swept.sized sized) below
        obtain ⟨late, others⟩ :=
          (@sweepAll_run middle.2 nowMs maxKeysToDelete rest middle.1).sweeps (swept.sized sized)
        refine ⟨ends, ?_⟩
        rcases clean with full | clean
        · exact .inl full
        · rcases done with full | none
          · refine .inl (Nat.le_antisymm ends ?_)
            calc maxKeysToDelete
                = middle.1 := full.symm
              _ ≤ middle.1 + late.length := Nat.le_add_right ..
              _ = _ := others.count.symm
          · right
            intro other member
            rcases List.mem_cons.mp member with rfl | later
            · exact none.sublist (others.chains _)
            · exact clean other later
      · simp only [sweepAll, if_neg more]
        refine ⟨capped, ?_⟩
        rcases Nat.lt_or_ge deleted maxKeysToDelete with below | full
        · right
          have empty : table.entries = [] := by
            apply List.eq_nil_of_length_eq_zero
            rw [← sized]
            omega
          intro other _ entry member
          have inTable : entry ∈ table.entries := mem_flatten_iff.mpr ⟨other, member⟩
          simp [empty] at inTable
        · exact .inl (Nat.le_antisymm capped full)

theorem noneExpired_of_buckets (none : ∀ index < table.bucketCount,
      NoneExpired nowMs (bucket table.buckets index))
    : NoneExpired nowMs table.entries := by
  intro entry member
  obtain ⟨index, inChain⟩ := mem_flatten_iff.mp member
  obtain ⟨pos, here⟩ := List.mem_iff_getElem?.mp inChain
  exact none index (index_lt_of_bucket here) entry inChain

/-- The buckets that a sampled pass draws, one after the other. -/
def drawnFrom (bucketCount : Nat) : Nat → UInt32 → List Nat
  | 0, _ => []
  | tries + 1, prng =>
      let prng := xorshift32 prng
      (prng.toNat % bucketCount) :: drawnFrom bucketCount tries prng

/-- The buckets that the sampled pass of a sweep draws, at least 16 of them. -/
def Table.drawnBuckets (table : Table) (sampleSize : Nat) : List Nat :=
  drawnFrom table.bucketCount (if sampleSize < 16 then 16 else sampleSize) table.prng

/-- The state of the generator does not matter to the pass over one chain. -/
theorem sweepChain_prng (prng : UInt32) (index : Nat) (chain : List Entry) (prev : Option Nat)
    (pos deleted : Nat) (table : Table)
    : let swept := sweepChain nowMs maxKeysToDelete index chain prev pos (deleted, table)
      sweepChain nowMs maxKeysToDelete index chain prev pos (deleted, { table with prng })
        = (swept.1, { swept.2 with prng }) := by
  induction chain generalizing prev pos deleted table with
  | nil => rfl
  | cons entry rest ih =>
      simp only [sweepChain]
      split
      · split
        · exact ih prev pos (deleted + 1) (table.expireAndDeleteUnlocked ⟨prev, pos, entry⟩ index)
        · exact ih (some pos) (pos + 1) deleted table
      · rfl

theorem sweepAll_prng (prng : UInt32) (indices : List Nat) (deleted : Nat) (table : Table)
    : let swept := sweepAll nowMs maxKeysToDelete indices (deleted, table)
      sweepAll nowMs maxKeysToDelete indices (deleted, { table with prng })
        = (swept.1, { swept.2 with prng }) := by
  induction indices generalizing deleted table with
  | nil => rfl
  | cons index rest ih =>
      simp only [sweepAll, sweepChain_prng]
      split
      · exact ih _ _
      · rfl

/-- The sampled pass is a pass over the buckets it draws, by induction on its tries. -/
theorem sweepSamples_eq (sized : table.size = table.entries.length) (tries deleted : Nat)
    : ∃ prng,
        let indices := drawnFrom table.bucketCount tries table.prng
        let swept := sweepAll nowMs maxKeysToDelete indices (deleted, table)
        sweepSamples nowMs maxKeysToDelete tries (deleted, table)
          = (swept.1, { swept.2 with prng }) := by
  induction tries generalizing deleted table with
  | zero => exact ⟨table.prng, rfl⟩
  | succ tries ih =>
      simp only [sweepSamples, drawnFrom, sweepAll, sweepChain_prng]
      generalize xorshift32 table.prng = prng
      generalize prng.toNat % table.bucketCount = index
      split
      · obtain ⟨_, chain⟩ := (@sweepChain_run table nowMs maxKeysToDelete index
          (bucket table.buckets index) 0 deleted rfl).sweeps sized
        rw [trailing] at chain
        generalize sweepChain nowMs maxKeysToDelete index (bucket table.buckets index) none 0
          (deleted, table) = middle at chain ⊢
        obtain ⟨last, swept⟩ := @ih { middle.2 with prng } (chain.sized sized) middle.1
        refine ⟨last, swept.trans ?_⟩
        have count : ({ middle.2 with prng } : Table).bucketCount = table.bucketCount :=
          chain.bucketCount
        rw [count, sweepAll_prng]
      · exact ⟨table.prng, rfl⟩

/-- What `kv_expire_sample_sweep` does to a table whose size counts its entries. When its sampled
pass deletes nothing or 100 buckets are asked for, it passes over all buckets, and ends at the cap
or leaves no expired entry; otherwise the sampled pass is all.
-/
theorem Table.expireSampleSweep_passes (sized : table.size = table.entries.length)
    (sampleSize maxKeysToDelete : Nat) (nowMs : Int64)
    : let sampled := sweepAll nowMs maxKeysToDelete (table.drawnBuckets sampleSize) (0, table)
      let swept := table.kvExpireSampleSweep sampleSize maxKeysToDelete nowMs
      swept.1 ≤ maxKeysToDelete ∧ sampled.1 ≤ swept.1
      ∧ (100 ≤ sampleSize ∨ sampled.1 = 0 →
          swept.1 = maxKeysToDelete ∨ NoneExpired nowMs swept.2.entries)
      ∧ (¬ (100 ≤ sampleSize ∨ sampled.1 = 0) → swept.2.buckets = sampled.2.buckets) := by
  have nothing : ∀ {table : Table}, table.size = table.entries.length → table.size = 0 →
      NoneExpired nowMs table.entries := by
    intro table sized none entry member
    rw [List.eq_nil_of_length_eq_zero (sized.symm.trans none)] at member
    simp at member
  intro sampled
  obtain ⟨below, _⟩ := @sweepAll_complete nowMs maxKeysToDelete table
    (table.drawnBuckets sampleSize) 0 sized (Nat.zero_le _)
  obtain ⟨_, samples⟩ := (@sweepAll_run table nowMs maxKeysToDelete
    (table.drawnBuckets sampleSize) 0).sweeps sized
  have sampledSized := samples.sized sized
  obtain ⟨prng, passes⟩ : ∃ prng, sweepSamples nowMs maxKeysToDelete
      (if sampleSize < 16 then 16 else sampleSize) (0, table)
        = (sampled.1, { sampled.2 with prng }) :=
    sweepSamples_eq sized _ 0
  simp only [Table.kvExpireSampleSweep, passes]
  split
  · next none =>
      have count : sampled.1 = 0 + _ := samples.count
      have size : _ = table.size := samples.size
      have zero : sampled.1 = 0 := by omega
      exact ⟨Nat.zero_le _, Nat.le_of_eq zero, fun _ => .inr (nothing sized none),
        fun skipped => absurd (.inr zero) skipped⟩
  · split
    · next enters =>
        let middle : Table := { sampled.2 with prng }
        let indices := List.range middle.bucketCount
        obtain ⟨_, full⟩ := (@sweepAll_run middle nowMs maxKeysToDelete indices sampled.1).sweeps
          sampledSized
        obtain ⟨ends, clean⟩ := @sweepAll_complete nowMs maxKeysToDelete middle indices sampled.1
          sampledSized below
        refine ⟨ends, full.count ▸ Nat.le_add_right .., fun _ => ?_,
          fun skipped => absurd (enters.imp_right And.left) skipped⟩
        refine clean.imp_right (fun clean => noneExpired_of_buckets (fun index bound => ?_))
        exact clean index (List.mem_range.mpr (full.bucketCount ▸ bound))
    · next skipped =>
        refine ⟨below, le_rfl, fun enters => .inr (nothing sampledSized ?_), fun _ => rfl⟩
        by_contra occupied
        exact skipped (enters.imp_right (fun zero => ⟨zero, Nat.pos_of_ne_zero occupied⟩))

theorem entryIsExpired_iff {entry : Entry}
    : entryIsExpired entry nowMs = true ↔ 0 < entry.expireAtMs ∧ entry.expireAtMs ≤ nowMs := by
  simp [entryIsExpired]

/-- A sweep takes exactly as many entries as it reports, all of them with a deadline in the past,
and no more than it may. When it reports none although it may take some, or looks at 100 buckets or
more without using up its cap, no expired entry is left.
-/
theorem sweep_sound_and_complete (invariant : table.RepresentationInvariant)
    (sampleSize maxKeysToDelete : Nat) (nowMs : Int64)
    : let swept := table.kvExpireSampleSweep sampleSize maxKeysToDelete nowMs
      let noneLeft := ∀ entry ∈ swept.2.entries,
        ¬ (0 < entry.expireAtMs ∧ entry.expireAtMs ≤ nowMs)
      swept.1 ≤ maxKeysToDelete
      ∧ (∃ removed : List Entry, removed.length = swept.1
          ∧ (∀ entry ∈ removed, 0 < entry.expireAtMs ∧ entry.expireAtMs ≤ nowMs)
          ∧ table.entries.Perm (removed ++ swept.2.entries))
      ∧ swept.2.size + swept.1 = table.size
      ∧ (swept.1 = 0 → 0 < maxKeysToDelete → noneLeft)
      ∧ (100 ≤ sampleSize → swept.1 = maxKeysToDelete ∨ noneLeft) := by
  intro swept noneLeft
  obtain ⟨removed, sweeps⟩ :=
    (table.expireSampleSweep_run sampleSize maxKeysToDelete nowMs).sweeps invariant.size
  obtain ⟨capped, sampled, complete, _⟩ :=
    table.expireSampleSweep_passes invariant.size sampleSize maxKeysToDelete nowMs
  have none : NoneExpired nowMs swept.2.entries → noneLeft := by
    intro clean entry member expired
    rw [← entryIsExpired_iff, clean entry member] at expired
    contradiction
  have count : swept.1 = removed.length := sweeps.count.trans (Nat.zero_add _)
  refine ⟨capped, ⟨removed, count.symm, ?_, sweeps.split⟩, ?_, ?_, ?_⟩
  · exact fun entry member => entryIsExpired_iff.mp (sweeps.expired entry member)
  · rw [count]
    exact sweeps.size
  · intro zero positive
    rcases complete (.inr (Nat.le_zero.mp (zero ▸ sampled))) with full | clean
    · exact absurd (zero.symm.trans full) (Nat.ne_of_lt positive)
    · exact none clean
  · exact fun large => (complete (.inl large)).imp_right none

/-- Two keys, one of them expired, and a sweep over all buckets. -/
theorem sweep_sound_and_complete_two
    : ∃ start, kvInitFull 2 0 0 none [] 7 (.at 0) (fun _ => .at 0) = .ok start
        ∧ let table := (start.run
            [⟨.op (.set (some ⟨[97], by decide⟩) (some ⟨[120], by decide⟩)), .at 1, 0⟩,
              ⟨.op (.pexpireat (some ⟨[97], by decide⟩) 5), .at 2, 0⟩,
              ⟨.op (.set (some ⟨[98], by decide⟩) (some ⟨[121], by decide⟩)), .at 3, 0⟩]).2.table
          (table.kvExpireSampleSweep 100 10 9).1 = 1
          ∧ ∀ entry ∈ (table.kvExpireSampleSweep 100 10 9).2.entries,
              ¬ (0 < entry.expireAtMs ∧ entry.expireAtMs ≤ 9) := by
  refine ⟨_, rfl, ?_⟩
  intro table
  have one : (table.kvExpireSampleSweep 100 10 9).1 = 1 := by decide +kernel
  have opened : kvInitFull 2 0 0 none [] 7 (.at 0) (fun _ => .at 0) = .ok _ := rfl
  have invariant : table.RepresentationInvariant :=
    ((kvInitFull_sound opened).run (by decide)).wellFormed.representationInvariant
  have complete := (sweep_sound_and_complete invariant 100 10 9).2.2.2.2 (by decide)
  refine ⟨one, complete.resolve_left ?_⟩
  rw [one]
  decide

end MiniKv
