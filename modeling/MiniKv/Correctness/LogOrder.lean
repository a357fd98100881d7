import MiniKv.Correctness.KeyOrder
import MiniKv.Correctness.KeyReplay

/-! The order of the log and the order of memory. Threads append under one lock and apply under
others, so the two orders differ; for each key they agree, and so a replay in the order of the log
gives what the calls left in memory.
-/

namespace MiniKv

open MiniKv.Foundations.KeyedUpdates

variable {machine : Machine} {id : Nat} {thread : Thread} {store : Store}

/-- Every call has returned success. -/
def Machine.Succeeded (machine : Machine) : Prop :=
  ∀ thread ∈ machine.threads, thread.phase = .returned kvOk

theorem Machine.Succeeded.whole (succeeded : machine.Succeeded) : ¬ machine.Spoiled := by
  rintro ⟨id, thread, here, spoiled⟩
  have returned := succeeded thread (List.mem_of_getElem? here)
  simp [Thread.spoiled, returned] at spoiled

/-- In the end nothing pends. -/
theorem Machine.Succeeded.settled (succeeded : machine.Succeeded)
    {wrote applied : List (Nat × Mutation)} {key : CString}
    (inTurn : machine.InTurn wrote applied key)
    : callsFor key wrote = callsFor key applied := by
  rcases inTurn with ⟨_, same⟩ | ⟨id, thread, here, pends, _, _⟩
  · exact same
  · have returned := succeeded thread (List.mem_of_getElem? here)
    simp [Thread.pends, returned] at pends

theorem Machine.start_ready {numLocks : Nat} {calls : List (Mutation × CallEnv)}
    (here : (Machine.start store numLocks calls).threads[id]? = some thread)
    : thread.phase = .ready := by
  simp only [Machine.start, List.getElem?_map, Option.map_eq_some_iff] at here
  obtain ⟨call, _, rfl⟩ := here
  rfl

section Runs

variable {numLocks : Nat} {calls : List (Mutation × CallEnv)} {turns : List Turn}

theorem Machine.start_honest : (Machine.start store numLocks calls).Honest := by
  intro id thread here all pos status failed
  rw [Machine.start_ready here] at failed
  cases failed

theorem Machine.start_apart : (Machine.start store numLocks calls).Apart := by
  intro first second thread rival _ here _ holds _
  simp [Thread.holdsAll, Machine.start_ready here] at holds

theorem Machine.start_inTurn (key : CString)
    : (Machine.start store numLocks calls).InTurn [] [] key := by
  refine .inl ⟨?_, rfl⟩
  intro id thread here pends
  simp [Thread.pends, Machine.start_ready here] at pends

/-- The log and memory have seen the calls for each key in the same order. -/
theorem Machine.run_ordered
    (succeeded : ((Machine.start store numLocks calls).run turns).2.Succeeded) (key : CString)
    : callsFor key ((Machine.start store numLocks calls).logOrder turns)
      = callsFor key ((Machine.start store numLocks calls).applyOrder turns) := by
  have ended := @Machine.run_progress _ (fun machine wrote applied => machine.Apart
      ∧ ∀ key, machine.InTurn wrote applied key)
    (fun _ _ _ _ _ progress held =>
      ⟨held.1.progress progress, Machine.InTurn.progress held.2 held.1 progress⟩)
    Machine.start_honest [] [] ⟨Machine.start_apart, Machine.start_inTurn⟩ turns succeeded.whole
  exact succeeded.settled (ended.2 key)

/-- The log holds the records in that order behind what it held. -/
theorem Machine.run_logged (opened : store.aof.fp ≠ none)
    (succeeded : ((Machine.start store numLocks calls).run turns).2.Succeeded)
    : ((Machine.start store numLocks calls).run turns).2.store.aof.log
      = store.aof.log
        ++ ((Machine.start store numLocks calls).logOrder turns).flatMap
          (fun call => call.2.record) := by
  have ended := @Machine.run_progress _ (fun machine wrote _ => machine.Logged store.aof.log wrote)
    (fun _ _ _ _ _ progress held => held.progress progress)
    Machine.start_honest [] [] ⟨opened, by simp [Machine.start]⟩ turns succeeded.whole
  exact ended.2

/-- Memory shows what the calls in their order made of the map. -/
theorem Machine.run_shows (sound : store.Sound)
    (succeeded : ((Machine.start store numLocks calls).run turns).2.Succeeded)
    : ((Machine.start store numLocks calls).run turns).2.Shows store.table.logical
        ((Machine.start store numLocks calls).applyOrder turns) :=
  @Machine.run_progress _ (fun machine _ applied => machine.Shows store.table.logical applied)
    (fun _ _ _ _ _ progress held => held.progress progress)
    Machine.start_honest [] [] ⟨sound, rfl, fun _ member => absurd member List.not_mem_nil⟩ turns
    succeeded.whole

theorem Machine.run_known
    (succeeded : ((Machine.start store numLocks calls).run turns).2.Succeeded)
    : ∀ call ∈ (Machine.start store numLocks calls).applyOrder turns,
        call.2 ∈ calls.map Prod.fst := by
  have ended := @Machine.run_progress _
    (fun machine _ applied => machine.Known (calls.map Prod.fst) applied)
    (fun _ _ _ _ _ progress held => held.progress progress)
    Machine.start_honest [] []
    ⟨by simp [Machine.start, Function.comp_def], fun _ member => absurd member List.not_mem_nil⟩
    turns succeeded.whole
  exact ended.2

/-- When every call of a run succeeds, the log holds their records in an order that is, for each
key, the order in which memory saw the calls. If the values can be read back, no budget evicts and
the capacity has room for every key, a replay of the log gives the map in memory.
-/
theorem log_order_agrees (opened : store.aof.fp ≠ none)
    (succeeded : ((Machine.start store numLocks calls).run turns).2.Succeeded)
    : let machine := Machine.start store numLocks calls
      let final := (machine.run turns).2.store
      final.aof.log
        = store.aof.log ++ (machine.logOrder turns).flatMap (fun call => call.2.record)
      ∧ (∀ key, callsFor key (machine.logOrder turns) = callsFor key (machine.applyOrder turns))
      ∧ (store.Sound →
          ∀ (before : List Record) (bucketCount capacity : Nat) (prng : UInt32) (now : Int64),
            0 < bucketCount → store.aof.log = encode before →
            (∀ record ∈ before, record.Readable) →
            applyRecords capacity now before ∅ = store.table.logical →
            (∀ call ∈ calls, ∀ value, call.1.logged.value = some value → value.IsField) →
            (capacity = 0 ∨ (store.table.logical.keys
              ∪ (calls.map (fun call => call.1.key)).toFinset).card ≤ capacity) →
              recoveredMap bucketCount capacity prng now final.aof.log = final.table.logical) := by
  intro machine final
  have ordered := Machine.run_ordered succeeded
  have log := Machine.run_logged opened succeeded
  refine ⟨log, ordered, ?_⟩
  intro sound before bucketCount capacity prng now positive base readable recovered fields room
  have memory := Machine.run_shows sound succeeded
  have applied : ∀ call ∈ machine.logOrder turns, call ∈ machine.applyOrder turns := by
    intro call member
    have own : call ∈ callsFor call.2.key (machine.logOrder turns) :=
      List.mem_filter.mpr ⟨member, decide_eq_true rfl⟩
    rw [ordered] at own
    exact (List.mem_filter.mp own).1
  have known : ∀ call ∈ machine.logOrder turns, call.2 ∈ calls.map Prod.fst :=
    fun call member => Machine.run_known succeeded call (applied call member)
  -- The file is the encoding of the old records and of those of the calls.
  have encoded : final.aof.log
      = encode (before ++ (machine.logOrder turns).map (fun call => call.2.logged)) := by
    rw [log, base, encode, encode, List.flatMap_append, List.flatMap_map]
    simp only [Mutation.record_eq]
    rfl
  have readable : ∀ record ∈ before ++ (machine.logOrder turns).map (fun call => call.2.logged),
      record.Readable := by
    intro record member
    rcases List.mem_append.mp member with earlier | later
    · exact readable record earlier
    · obtain ⟨call, inLog, rfl⟩ := List.mem_map.mp later
      obtain ⟨started, isCall, same⟩ := List.mem_map.mp (known call inLog)
      exact ⟨memory.valid call (applied call inLog), same ▸ fields started isCall⟩
  rw [encoded, recoveredMap_encode positive capacity prng now readable, applyRecords,
    List.foldl_append]
  change applyRecords capacity now ((machine.logOrder turns).map (fun call => call.2.logged))
    (applyRecords capacity now before ∅) = final.table.logical
  rw [recovered]
  have within : ∀ call ∈ machine.logOrder turns, call.2.key ∈ store.table.logical.keys
      ∪ (calls.map (fun call => call.1.key)).toFinset := by
    intro call member
    obtain ⟨started, isCall, same⟩ := List.mem_map.mp (known call member)
    exact Finset.mem_union_right _ (List.mem_toFinset.mpr
      (List.mem_map.mpr ⟨started, isCall, congrArg Mutation.key same⟩))
  have replayed := applyRecords_showAfter room now within Finset.subset_union_left
  have same : showAfter (machine.logOrder turns) store.table.logical
      = showAfter (machine.applyOrder turns) store.table.logical :=
    foldl_update_congr ordered _
  exact Finmap.ext_lookup (fun key => congrFun (replayed.trans (same.trans memory.shows.symm)) key)

end Runs

/-- A delete runs from its append to its application inside a set for another shard: the log has the
set first and memory the delete, and the replay gives what is in memory.
-/
theorem log_order_agrees_inside
    : ∃ start : Store,
        kvInitFull 32 2 0 (some ⟨[97], by decide⟩) [83, 69, 84, 9, 98, 9, 120, 10] 7 (.at 0)
          (fun _ => .at 0) = .ok start
        ∧ let calls : List (Mutation × CallEnv) :=
            [(.set ⟨[97], by decide⟩ ⟨[118], by decide⟩, .at 1), (.delete ⟨[98], by decide⟩, .at 1)]
          let turns : List Turn :=
            [⟨0, false⟩, ⟨0, false⟩, ⟨1, false⟩, ⟨1, false⟩, ⟨1, false⟩, ⟨0, false⟩]
          let machine := Machine.start start (numLocks 32) calls
          (machine.logOrder turns).map Prod.fst = [0, 1]
          ∧ (machine.applyOrder turns).map Prod.fst = [1, 0]
          ∧ recoveredMap 32 2 7 0 (machine.run turns).2.store.aof.log
            = (machine.run turns).2.store.table.logical := by
  obtain ⟨start, started, stream, unlimited, base, recovered, room, orders, phases⟩ :
      ∃ start : Store,
        kvInitFull 32 2 0 (some ⟨[97], by decide⟩) [83, 69, 84, 9, 98, 9, 120, 10] 7 (.at 0)
          (fun _ => .at 0) = .ok start
        ∧ start.aof.fp ≠ none
        ∧ start.table.maxMemoryBudget = 0
        ∧ start.aof.log = encode [.set ⟨[98], by decide⟩ ⟨[120], by decide⟩]
        ∧ applyRecords 2 0 [.set ⟨[98], by decide⟩ ⟨[120], by decide⟩] ∅ = start.table.logical
        ∧ (start.table.logical.keys ∪ {⟨[97], by decide⟩, ⟨[98], by decide⟩}).card ≤ 2
        ∧ let calls : List (Mutation × CallEnv) :=
            [(.set ⟨[97], by decide⟩ ⟨[118], by decide⟩, .at 1), (.delete ⟨[98], by decide⟩, .at 1)]
          let turns : List Turn :=
            [⟨0, false⟩, ⟨0, false⟩, ⟨1, false⟩, ⟨1, false⟩, ⟨1, false⟩, ⟨0, false⟩]
          let machine := Machine.start start (numLocks 32) calls
          ((machine.logOrder turns).map Prod.fst = [0, 1]
            ∧ (machine.applyOrder turns).map Prod.fst = [1, 0])
          ∧ ∀ thread ∈ (machine.run turns).2.threads, thread.phase = .returned kvOk := by
    refine ⟨_, rfl, ?_⟩
    decide +kernel
  refine ⟨start, started, orders.1, orders.2, ?_⟩
  have sound : start.Sound := ⟨(kvInitFull_keeps started).wellFormed, unlimited⟩
  refine (log_order_agrees stream phases).2.2 sound _ 32 2 7 0 (by decide) base ?_ recovered ?_ ?_
  · intro record member
    rw [List.mem_singleton.mp member]
    have valid := @parseLine_valid (.set ⟨[98], by decide⟩ ⟨[120], by decide⟩)
      [83, 69, 84, 9, 98, 9, 120] rfl
    exact ⟨valid, fun _ held => Option.some.inj held ▸ by decide⟩
  · intro call member value held
    simp only [List.mem_cons, List.not_mem_nil, or_false] at member
    rcases member with rfl | rfl
    · exact Option.some.inj held ▸ by decide
    · cases held
  · exact .inr room

/-- Two runs in which every call succeeds. With room for one key, a set appends its record before
the record of a delete and is applied behind it; the replay refuses the set. Alone, a set of a value
that ends in CR leaves a record that the replay reads without it.
-/
theorem log_order_loses_key
    : (∃ start : Store,
        kvInitFull 32 1 0 (some ⟨[97], by decide⟩) [83, 69, 84, 9, 98, 9, 120, 10] 7 (.at 0)
          (fun _ => .at 0) = .ok start
        ∧ let ended := ((Machine.start start (numLocks 32)
              [(.set ⟨[97], by decide⟩ ⟨[118], by decide⟩, .at 1),
                (.delete ⟨[98], by decide⟩, .at 1)]).run
            [⟨0, false⟩, ⟨0, false⟩, ⟨1, false⟩, ⟨1, false⟩, ⟨1, false⟩, ⟨0, false⟩]).2
          ended.threads.map Thread.phase = [.returned kvOk, .returned kvOk]
          ∧ ended.store.table.logical.lookup ⟨[97], by decide⟩
            = some ⟨.string ⟨[118], by decide⟩, 0⟩
          ∧ (recoveredMap 32 1 7 0 ended.store.aof.log).lookup ⟨[97], by decide⟩ = none)
      ∧ ∃ start : Store,
        kvInitFull 32 0 0 (some ⟨[97], by decide⟩) [] 7 (.at 0) (fun _ => .at 0) = .ok start
        ∧ let ended := ((Machine.start start (numLocks 32)
              [(.set ⟨[97], by decide⟩ ⟨[118, 13], by decide⟩, .at 1)]).run
            [⟨0, false⟩, ⟨0, false⟩, ⟨0, false⟩]).2
          ended.threads.map Thread.phase = [.returned kvOk]
          ∧ ended.store.table.logical.lookup ⟨[97], by decide⟩
            = some ⟨.string ⟨[118, 13], by decide⟩, 0⟩
          ∧ (recoveredMap 32 0 7 0 ended.store.aof.log).lookup ⟨[97], by decide⟩
            = some ⟨.string ⟨[118], by decide⟩, 0⟩ := by
  constructor
  · refine ⟨_, rfl, ?_⟩
    decide +kernel
  · refine ⟨_, rfl, ?_⟩
    decide +kernel

end MiniKv
