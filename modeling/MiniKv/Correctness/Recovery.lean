import MiniKv.Refinement.Runs
import MiniKv.Correctness.AbstractMap

/-! Recovery from the append-only file: replaying the log of a run gives the logical map the run
ended with.
-/

namespace MiniKv

/-- A run from an empty log without a budget: the records of the run rebuild its map. -/
theorem Store.Blank.recovers {start : Store} {maxCapacity replayBuckets : Nat}
    (blank : start.Blank maxCapacity) (replayPositive : 0 < replayBuckets) (replayPrng : UInt32)
    {replayTime : Int64} {calls : List Call}
    (recoverable : ∀ call ∈ calls, call.Recoverable replayTime)
    (fit : ∀ record ∈ (History.run maxCapacity true (.start ∅) calls).logged,
      record.fits = true)
    : recoveredMap replayBuckets maxCapacity replayPrng replayTime (start.run calls).2.aof.log
      = (start.run calls).2.table.logical := by
  have tracks := Store.run_tracks blank.wellFormed blank.unlimited
    (fun call member => (recoverable call member).carries)
  have replays := @History.run_replays maxCapacity maxCapacity replayTime ∅
    (LogicalMap.Unexpired.empty replayTime) (.inl rfl) true calls recoverable
  have log := blank.log_of_tracks tracks
  rw [blank.maxCapacity, blank.atStart, Option.isSome_some, blank.logical] at tracks log
  rw [History.written_of_fits fit] at log
  rw [log, recoveredMap_encode replayPositive maxCapacity replayPrng replayTime tracks.logged,
    tracks.table.logical]
  exact replays.logged

/-- Every run of operations that ends before any of its deadlines passes is recovered from its
log: replaying the file of a store that was opened on an empty log, with the same capacity and
at a time not before the run, gives the same keys, values, list orders, members and deadlines.
Failing calls are part of the run; `fit` says that no record is too long for the log writer.
-/
theorem replay_recovers_run {bucketCount replayBuckets : Nat} (positive : 0 < bucketCount)
    (replayPositive : 0 < replayBuckets) (maxCapacity : Nat) (path : CString)
    (prng replayPrng : UInt32) {env : CallEnv} (clean : env.Clean) (lineEnvs : Nat → CallEnv)
    (replayTime : Int64) (calls : List Call)
    (recoverable : ∀ call ∈ calls, call.Recoverable replayTime)
    (fit : ∀ record ∈ (History.run maxCapacity true (.start ∅) calls).logged,
      record.fits = true)
    : ∃ start, kvInitFull bucketCount maxCapacity 0 (some path) [] prng env lineEnvs = .ok start
        ∧ recoveredMap replayBuckets maxCapacity replayPrng replayTime
            (start.run calls).2.aof.log
          = (start.run calls).2.table.logical := by
  obtain ⟨start, opened, blank⟩ :=
    kvInitFull_blank positive maxCapacity path prng clean lineEnvs
  exact ⟨start, opened, blank.recovers replayPositive replayPrng recoverable fit⟩

/-- A run with a deadline, a failing delete and a list that is emptied again. -/
theorem replay_recovers_run_emptied
    : ∃ start, kvInitFull 4 1 0 (some ⟨[97], by decide⟩) [] 7 (.at 0) (fun _ => .at 0)
          = .ok start
        ∧ recoveredMap 1 1 9 800
            (start.run
              [⟨.op (.lpush (some ⟨[107], by decide⟩) (some ⟨[97], by decide⟩)), .at 1, 0⟩,
                ⟨.op (.delete (some ⟨[106], by decide⟩)), .at 2, 0⟩,
                ⟨.op (.rpop (some ⟨[107], by decide⟩)), .at 3, 0⟩,
                ⟨.op (.set (some ⟨[107], by decide⟩) (some ⟨[98], by decide⟩)), .at 4, 0⟩,
                ⟨.op (.pexpireat (some ⟨[107], by decide⟩) 900), .at 5, 0⟩]).2.aof.log
          = (start.run
              [⟨.op (.lpush (some ⟨[107], by decide⟩) (some ⟨[97], by decide⟩)), .at 1, 0⟩,
                ⟨.op (.delete (some ⟨[106], by decide⟩)), .at 2, 0⟩,
                ⟨.op (.rpop (some ⟨[107], by decide⟩)), .at 3, 0⟩,
                ⟨.op (.set (some ⟨[107], by decide⟩) (some ⟨[98], by decide⟩)), .at 4, 0⟩,
                ⟨.op (.pexpireat (some ⟨[107], by decide⟩) 900), .at 5, 0⟩]).2.table.logical := by
  apply replay_recovers_run (by decide) (by decide) 1 ⟨[97], by decide⟩ 7 9 (CallEnv.clean_at 0)
    (fun _ => .at 0) 800
  · intro call member
    fin_cases member
    all_goals refine Call.recoverable_op ?_ (by decide) ?_
    all_goals simp [Op.value, Op.deadline, CString.IsField, lf, cr]
  · decide

end MiniKv
