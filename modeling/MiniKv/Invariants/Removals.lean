import Mathlib.Logic.Relation
import MiniKv.Invariants.WellFormed

/-! Removals that no client asked for: sampled LRU eviction, the expiry sweep, and the eviction
loops in front of an allocation.
-/

namespace MiniKv

open MiniKv.Foundations.ChainedTable
open MiniKv.Foundations.FiniteMaps

/-- (Loses before after Lost) says that `after` is `before` without some bindings, all of which
satisfy `Lost`.
-/
def LogicalMap.Loses (before after : LogicalMap) (Lost : Binding → Prop) : Prop :=
  ∀ key, after.lookup key = before.lookup key
    ∨ after.lookup key = none ∧ ∃ binding, before.lookup key = some binding ∧ Lost binding

theorem LogicalMap.Loses.refl (map : LogicalMap) (Lost : Binding → Prop)
    : LogicalMap.Loses map map Lost :=
  fun _ => .inl rfl

theorem LogicalMap.Loses.trans {first second third : LogicalMap} {Lost : Binding → Prop}
    (early : LogicalMap.Loses first second Lost) (late : LogicalMap.Loses second third Lost)
    : LogicalMap.Loses first third Lost := by
  intro key
  rcases late key with same | ⟨gone, binding, found, lost⟩
  · rw [same]
    exact early key
  · rcases early key with same | ⟨absent, _⟩
    · exact .inr ⟨gone, binding, same ▸ found, lost⟩
    · rw [absent] at found
      contradiction

theorem LogicalMap.loses_erase {map : LogicalMap} {key : CString} {binding : Binding}
    {Lost : Binding → Prop} (found : map.lookup key = some binding) (lost : Lost binding)
    : LogicalMap.Loses map (map.erase key) Lost := by
  intro other
  by_cases same : other = key
  · subst same
    exact .inr ⟨Finmap.lookup_erase .., binding, found, lost⟩
  · exact .inl (Finmap.lookup_erase_ne same)

/-- A victim that is where its cursor says. -/
def Victim.Found (buckets : List (List Entry)) (victim : Victim) : Prop :=
  victim.cursor.prev = trailing victim.cursor.pos
  ∧ (bucket buckets victim.index)[victim.cursor.pos]? = some victim.cursor.item

/-- Scanning a chain to its end keeps the best candidate a real one, by induction on the rest
of the chain.
-/
theorem scanChain_found {buckets : List (List Entry)} {index : Nat} {chain : List Entry}
    {pos : Nat} {oldest : Oldest}
    (rest : (bucket buckets index).drop pos = chain)
    (found : ∀ victim ∈ oldest.best, victim.Found buckets)
    : ∀ victim ∈ (scanChain index chain (trailing pos) pos oldest).best,
        victim.Found buckets := by
  induction chain generalizing pos oldest with
  | nil => exact found
  | cons entry chain ih =>
      obtain ⟨here, next⟩ := of_drop_eq_cons rest
      rw [scanChain]
      refine @ih (pos + 1) _ next ?_
      split
      · intro victim best
        rw [Option.mem_def, Option.some.injEq] at best
        subst best
        exact ⟨rfl, here⟩
      · exact found

theorem sampleBuckets_found {table : Table} {tries samplesFound : Nat} {prng : UInt32}
    {oldest : Oldest} (found : ∀ victim ∈ oldest.best, victim.Found table.buckets)
    : ∀ victim ∈ (table.sampleBuckets tries prng samplesFound oldest).2.best,
        victim.Found table.buckets := by
  induction tries generalizing prng samplesFound oldest with
  | zero => exact found
  | succ tries ih =>
      simp only [Table.sampleBuckets]
      split
      · split
        · exact ih found
        · next chain => exact ih (@scanChain_found _ _ _ 0 _ chain found)
      · exact found

theorem scanBuckets_found {buckets chains : List (List Entry)} {index : Nat}
    {oldest : Oldest} (rest : buckets.drop index = chains)
    (found : ∀ victim ∈ oldest.best, victim.Found buckets)
    : ∀ victim ∈ (scanBuckets chains index oldest).best, victim.Found buckets := by
  induction chains generalizing index oldest with
  | nil => exact found
  | cons chain chains ih =>
      obtain ⟨inside, next⟩ := of_drop_eq_cons rest
      have here : bucket buckets index = chain := by
        rw [bucket, List.getD_eq_getElem?_getD, inside, Option.getD_some]
      exact ih next (@scanChain_found _ _ _ 0 _ here found)

/-- One step of a removal that no client asked for: a random number is drawn, or an entry whose
binding satisfies `Lost` is unlinked and freed.
-/
inductive Table.Removal (Lost : Binding → Prop) : Table → Table → Prop where
  | draw (table : Table) (prng : UInt32) : Table.Removal Lost table { table with prng }
  | free {table : Table} {cursor : Cursor Entry} {index : Nat}
      (prev : cursor.prev = trailing cursor.pos)
      (here : (bucket table.buckets index)[cursor.pos]? = some cursor.item)
      (lost : Lost cursor.item.binding)
      : Table.Removal Lost table (table.expireAndDeleteUnlocked cursor index)

/-- Removals, one after the other. -/
def Table.Removals (Lost : Binding → Prop) : Table → Table → Prop :=
  Relation.ReflTransGen (Table.Removal Lost)

variable {Lost : Binding → Prop} {table : Table}

theorem Table.Removals.refl (Lost : Binding → Prop) (table : Table)
    : Table.Removals Lost table table :=
  Relation.ReflTransGen.refl

theorem Table.Removals.trans {first second third : Table}
    (early : Table.Removals Lost first second) (late : Table.Removals Lost second third)
    : Table.Removals Lost first third :=
  Relation.ReflTransGen.trans early late

theorem Table.Removal.removals {after : Table} (removal : Table.Removal Lost table after)
    : Table.Removals Lost table after :=
  Relation.ReflTransGen.single removal

/-- One step keeps the invariant, and the map loses at most one binding. -/
theorem Table.Removal.spec {after : Table} (removal : Table.Removal Lost table after)
    (wf : table.WellFormed)
    : ∃ map, table.Becomes after map ∧ LogicalMap.Loses table.logical map Lost := by
  cases removal with
  | draw prng => exact ⟨_, ⟨wf.congr rfl rfl rfl, rfl, rfl, rfl⟩, .refl _ _⟩
  | @free cursor index prev here lost =>
      have member : cursor.item ∈ table.entries :=
        mem_flatten_iff.mpr ⟨_, List.mem_of_getElem? here⟩
      exact ⟨_, (wf.expireAndDelete prev here).1,
        LogicalMap.loses_erase (wf.logical_of_mem member) lost⟩

/-- Removals keep the invariant and take bindings away, by induction on their number. -/
theorem Table.Removals.spec {after : Table} (removals : Table.Removals Lost table after)
    (wf : table.WellFormed)
    : ∃ map, table.Becomes after map ∧ LogicalMap.Loses table.logical map Lost := by
  induction removals with
  | refl => exact ⟨_, .refl wf, .refl _ _⟩
  | tail _ last ih =>
      obtain ⟨middle, becomes, loses⟩ := ih
      obtain ⟨map, later, losesLater⟩ := last.spec becomes.wellFormed
      rw [becomes.logical] at losesLater
      exact ⟨map, becomes.trans later, loses.trans losesLater⟩

/-- Only entries that were there before are left. -/
theorem Table.Removals.mem {after : Table} (removals : Table.Removals Lost table after)
    (wf : table.WellFormed) {entry : Entry} (member : entry ∈ after.entries)
    : entry ∈ table.entries := by
  induction removals with
  | refl => exact member
  | tail before last ih =>
      obtain ⟨_, becomes, _⟩ := Table.Removals.spec before wf
      apply ih
      cases last with
      | draw prng => exact member
      | free prev here lost =>
          have split := (becomes.wellFormed.expireAndDelete prev here).2
          exact split.mem_iff.mpr (List.mem_cons_of_mem _ member)

theorem Table.Removals.lookup {after : Table} (removals : Table.Removals Lost table after)
    (wf : table.WellFormed) {key : CString} {entry : Entry}
    (found : after.lookup key = some entry)
    : table.lookup key = some entry := by
  obtain ⟨member, rfl⟩ := Table.WellFormed.mem_of_lookup found
  exact wf.lookup_of_mem (removals.mem wf member)

theorem Table.Removals.absent {after : Table} (removals : Table.Removals Lost table after)
    (wf : table.WellFormed) {key : CString} (absent : table.lookup key = none)
    : after.lookup key = none := by
  cases found : after.lookup key with
  | none => rfl
  | some entry =>
      rw [removals.lookup wf found] at absent
      contradiction

/-- A table below its capacity stays below it. -/
theorem Table.Removals.notFull {after : Table} (removals : Table.Removals Lost table after)
    (notFull : table.atCapacity = false)
    : after.atCapacity = false := by
  induction removals with
  | refl => exact notFull
  | @tail middle _ _ last ih =>
      cases last with
      | draw prng => exact ih
      | free prev here lost =>
          rw [Table.atCapacity_eq_false] at ih ⊢
          exact fun limited => (Nat.sub_le ..).trans_lt (ih limited)

/-- What the two scans of an eviction settle on. -/
def Table.choice (table : Table) : UInt32 × Oldest :=
  let sampled := table.sampleBuckets 64 table.prng 0 ⟨uint64Max, none⟩
  (sampled.1,
    match sampled.2.best with
    | some _ => sampled.2
    | none => scanBuckets table.buckets 0 sampled.2)

theorem Table.kvEvictLruUnlocked_eq (occupied : table.size ≠ 0)
    : table.kvEvictLruUnlocked
      = match table.choice.2.best with
        | some victim =>
            (kvOk, Table.expireAndDeleteUnlocked { table with prng := table.choice.1 }
              victim.cursor victim.index)
        | none => (kvErrInternal, { table with prng := table.choice.1 }) := by
  rw [Table.kvEvictLruUnlocked, if_neg occupied]
  rfl

/-- The victim an eviction picks is where its cursor says. -/
theorem Table.choice_found : ∀ victim ∈ table.choice.2.best, victim.Found table.buckets := by
  have nothing : ∀ victim ∈ (none : Option Victim), victim.Found table.buckets := by simp
  have sampled := @sampleBuckets_found table 64 0 table.prng ⟨uint64Max, none⟩ nothing
  simp only [Table.choice]
  split
  · exact sampled
  · exact scanBuckets_found List.drop_zero sampled

theorem Table.evictLru_removals (table : Table)
    : Table.Removals (fun _ => True) table table.kvEvictLruUnlocked.2 := by
  by_cases occupied : table.size = 0
  · rw [Table.kvEvictLruUnlocked, if_pos occupied]
    exact .refl _ _
  · have drawn : Table.Removals (fun _ => True) table { table with prng := table.choice.1 } :=
      (Table.Removal.draw table table.choice.1).removals
    rw [Table.kvEvictLruUnlocked_eq occupied]
    split
    · next victim best =>
        obtain ⟨prev, here⟩ := Table.choice_found victim best
        have freed : Table.Removal (fun _ => True) { table with prng := table.choice.1 }
            (Table.expireAndDeleteUnlocked { table with prng := table.choice.1 } victim.cursor
              victim.index) := .free prev here trivial
        exact drawn.trans freed.removals
    · exact drawn

/-- The eviction loop, by induction on its fuel. -/
theorem Table.evictWhileOver_removals (bytes fuel : Nat) (table : Table)
    : Table.Removals (fun _ => True) table (table.evictWhileOver bytes fuel) := by
  induction fuel generalizing table with
  | zero => exact .refl _ _
  | succ fuel ih =>
      simp only [Table.evictWhileOver]
      split
      · split
        · exact table.evictLru_removals.trans (ih _)
        · exact table.evictLru_removals
      · exact .refl _ _

theorem Table.makeRoom_removals (table : Table) (bytes : Nat)
    : Table.Removals (fun _ => True) table (table.makeRoom bytes).2 := by
  rw [Table.makeRoom]
  split
  · exact Table.evictWhileOver_removals bytes table.size table
  · exact .refl _ _

/-- Without a budget there is always room. -/
theorem Table.makeRoom_of_unlimited (unlimited : table.maxMemoryBudget = 0) (bytes : Nat)
    : table.makeRoom bytes = (true, table) := by
  simp [Table.makeRoom, unlimited]

/-- An eviction removes one entry or none. -/
theorem Table.WellFormed.evictLru (wf : table.WellFormed)
    : ∃ map, table.Becomes table.kvEvictLruUnlocked.2 map
        ∧ LogicalMap.Loses table.logical map (fun _ => True) :=
  table.evictLru_removals.spec wf

/-- What a sweep may take away. -/
abbrev Expired (nowMs : Int64) (binding : Binding) : Prop :=
  binding.isExpired nowMs = true

/-- One step of the expiry sweep, on the number of deletions and the table: a random number is
drawn, or an expired entry is deleted and counted.
-/
inductive SweepStep (nowMs : Int64) : Nat × Table → Nat × Table → Prop where
  | draw (deleted : Nat) (table : Table) (prng : UInt32)
      : SweepStep nowMs (deleted, table) (deleted, { table with prng })
  | delete (deleted : Nat) {table : Table} {cursor : Cursor Entry} {index : Nat}
      (prev : cursor.prev = trailing cursor.pos)
      (here : (bucket table.buckets index)[cursor.pos]? = some cursor.item)
      (expired : entryIsExpired cursor.item nowMs = true)
      : SweepStep nowMs (deleted, table)
          (deleted + 1, table.expireAndDeleteUnlocked cursor index)

/-- Steps of the sweep, one after the other. -/
def SweepRun (nowMs : Int64) : Nat × Table → Nat × Table → Prop :=
  Relation.ReflTransGen (SweepStep nowMs)

variable {nowMs : Int64}

theorem SweepRun.refl (nowMs : Int64) (swept : Nat × Table) : SweepRun nowMs swept swept :=
  Relation.ReflTransGen.refl

theorem SweepRun.trans {first second third : Nat × Table} (early : SweepRun nowMs first second)
    (late : SweepRun nowMs second third)
    : SweepRun nowMs first third :=
  Relation.ReflTransGen.trans early late

theorem SweepStep.run {before after : Nat × Table} (step : SweepStep nowMs before after)
    : SweepRun nowMs before after :=
  Relation.ReflTransGen.single step

/-- To the table, the steps of a sweep are removals of expired entries. -/
theorem SweepRun.removals {before after : Nat × Table} (run : SweepRun nowMs before after)
    : Table.Removals (Expired nowMs) before.2 after.2 := by
  refine Relation.ReflTransGen.lift Prod.snd ?_ _ _ run
  intro earlier later step
  cases step with
  | draw deleted table prng => exact .draw table prng
  | delete deleted prev here expired => exact .free prev here expired

/-- Sweeping one chain behind a trailing pointer, by induction on the rest of the chain. The
chain in front of the pointer has been kept, so its length is the position.
-/
theorem sweepChain_run {maxKeysToDelete index : Nat} {chain : List Entry} {pos deleted : Nat}
    (rest : (bucket table.buckets index).drop pos = chain)
    : SweepRun nowMs (deleted, table)
        (sweepChain nowMs maxKeysToDelete index chain (trailing pos) pos (deleted, table)) := by
  induction chain generalizing pos deleted table with
  | nil => exact .refl _ _
  | cons entry chain ih =>
      obtain ⟨here, next⟩ := of_drop_eq_cons rest
      simp only [sweepChain]
      split
      · split
        · next expired =>
            let cursor : Cursor Entry := ⟨trailing pos, pos, entry⟩
            have step : SweepStep nowMs (deleted, table)
                (deleted + 1, table.expireAndDeleteUnlocked cursor index) :=
              .delete deleted rfl here expired
            have shorter : (bucket (table.expireAndDeleteUnlocked cursor index).buckets index).drop
                pos = chain := by
              rw [table.expireAndDelete_chain rfl here, drop_eraseIdx rest]
            exact step.run.trans (ih shorter)
        · exact @ih table (pos + 1) deleted next
      · exact .refl _ _

theorem sweepSamples_run {maxKeysToDelete tries deleted : Nat}
    : SweepRun nowMs (deleted, table)
        (sweepSamples nowMs maxKeysToDelete tries (deleted, table)) := by
  induction tries generalizing deleted table with
  | zero => exact .refl _ _
  | succ tries ih =>
      simp only [sweepSamples]
      split
      · let index := (xorshift32 table.prng).toNat % table.bucketCount
        have drawn : SweepRun nowMs (deleted, table)
            (deleted, { table with prng := xorshift32 table.prng }) :=
          (SweepStep.draw deleted table _).run
        exact (drawn.trans
          (@sweepChain_run { table with prng := xorshift32 table.prng } nowMs
            maxKeysToDelete index (bucket table.buckets index) 0 deleted rfl)).trans ih
      · exact .refl _ _

theorem sweepAll_run {maxKeysToDelete : Nat} {indices : List Nat} {deleted : Nat}
    : SweepRun nowMs (deleted, table)
        (sweepAll nowMs maxKeysToDelete indices (deleted, table)) := by
  induction indices generalizing deleted table with
  | nil => exact .refl _ _
  | cons index rest ih =>
      simp only [sweepAll]
      split
      · exact (@sweepChain_run table nowMs maxKeysToDelete index
          (bucket table.buckets index) 0 deleted rfl).trans ih
      · exact .refl _ _

/-- The whole sweep is a run of its steps. -/
theorem Table.expireSampleSweep_run (table : Table) (sampleSize maxKeysToDelete : Nat)
    (nowMs : Int64)
    : SweepRun nowMs (0, table) (table.kvExpireSampleSweep sampleSize maxKeysToDelete nowMs) := by
  simp only [Table.kvExpireSampleSweep]
  split
  · exact .refl _ _
  · generalize (if sampleSize < 16 then 16 else sampleSize) = tries
    split
    · exact sweepSamples_run.trans sweepAll_run
    · exact sweepSamples_run

theorem Table.expireSampleSweep_removals (table : Table) (sampleSize maxKeysToDelete : Nat)
    (nowMs : Int64)
    : Table.Removals (Expired nowMs) table
        (table.kvExpireSampleSweep sampleSize maxKeysToDelete nowMs).2 :=
  (table.expireSampleSweep_run sampleSize maxKeysToDelete nowMs).removals

/-- What a pass of the sweep keeps: the invariant, and only expired bindings go. -/
def SweepKeeps (nowMs : Int64) (before after : Table) : Prop :=
  ∃ map, before.Becomes after map
    ∧ LogicalMap.Loses before.logical map (fun binding => binding.isExpired nowMs = true)

/-- A sweep keeps the invariant and removes expired entries only. -/
theorem Table.WellFormed.expireSampleSweep (wf : table.WellFormed)
    (sampleSize maxKeysToDelete : Nat) (nowMs : Int64)
    : SweepKeeps nowMs table
        (table.kvExpireSampleSweep sampleSize maxKeysToDelete nowMs).2 :=
  (table.expireSampleSweep_removals sampleSize maxKeysToDelete nowMs).spec wf

end MiniKv
