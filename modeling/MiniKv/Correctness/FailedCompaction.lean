import Mathlib.Data.FinEnum
import Mathlib.Data.Set.Finite.List
import MiniKv.Correctness.AcknowledgedRecords
import MiniKv.Correctness.Compaction
import MiniKv.Correctness.Recovery
import MiniKv.Server.Children

/-! A compaction that fails before the old log is closed leaves the log alone. Behind that point a
failing `rename` or `fopen` leaves the store without a log, and what the child or the merge could
not write is missing in the file that takes the place of the log.
-/

namespace MiniKv

variable {store : Store} {env : CallEnv}

-- Later mutations

/-- A `kv_set` or `kv_delete` that returns `KV_OK` has its record at the end of an open log. -/
theorem Mutation.call_appends (mutation : Mutation) (opened : store.aof.fp ≠ none)
    (ok : (mutation.call env store).1 = kvOk)
    : (mutation.call env store).2.aof.log = store.aof.log ++ mutation.record := by
  have works := mutation.call_ok_io opened ok
  have prepared := mutation.prepare_aof env store
  rw [mutation.call_eq] at ok ⊢
  cases checked : mutation.check with
  | error err =>
      rw [checked] at ok
      exact absurd ok (Mutation.check_error checked)
  | ok _ =>
      rw [checked, mutation.append_opened env (prepared ▸ opened), prepared] at ok
      rw [mutation.append_opened env (prepared ▸ opened), prepared]
      by_cases written : (store.aof.writeAofRecord mutation.record env.io).1 = kvOk
      · have nonempty : mutation.record ≠ [] := by
          cases mutation <;> simp [Mutation.record, formatRecord]
        have logged := (Aof.writeAofRecord_log_iff opened nonempty env.io).mpr
          ⟨Aof.writeAofRecord_fits opened written, works ▸ rfl⟩
        simp only [if_neg (not_not_intro written)] at ok ⊢
        split at ok
        · next done =>
            rw [if_pos done]
            exact (mutation.apply_stream env _).2.1.trans logged
        · next failed => exact absurd (.inl ok) failed
      · simp only [if_pos written] at ok
        exact absurd ok written

theorem Aof.opened_stable : Aof.Stable (fun aof => aof.fp ≠ none) where
  append aof data allocated opened := (aof.appendAofRewriteBuffer_stream data allocated).1 ▸ opened
  write aof record io opened := by
    have same := congrArg Aof.fp (aof.forgetLog_writeAofRecord record io)
    simp only [Aof.forgetLog] at same
    intro closed
    rw [closed, Option.map_none] at same
    exact opened (Option.map_eq_none_iff.mp same.symm)
  rollback aof pos opened := by
    have same := congrArg Aof.fp (aof.forgetLog_rollbackAofRecord pos)
    simp only [Aof.forgetLog] at same
    intro closed
    rw [closed, Option.map_none] at same
    exact opened (Option.map_eq_none_iff.mp same.symm)

/-- The action does not close the log: a later merge may succeed, lose bytes or fail early. -/
def Action.keepsStream : Action → Bool
  | .upkeep (.mergeAofRewrite _ .renameFailed) => false
  | .upkeep (.mergeAofRewrite _ .reopenFailed) => false
  | _ => true

/-- `kv_bgrewriteaof` touches neither the table nor the log. -/
theorem kvBgrewriteaof_kept (store : Store) (pid : Int) (env : CallEnv)
    : (kvBgrewriteaof store pid env).2.table = store.table
      ∧ (kvBgrewriteaof store pid env).2.aof.log = store.aof.log
      ∧ (kvBgrewriteaof store pid env).2.aof.fp = store.aof.fp := by
  simp only [kvBgrewriteaof]
  split_ifs <;> exact ⟨rfl, rfl, rfl⟩

theorem Upkeep.call_opened {upkeep : Upkeep}
    (keeps : Action.keepsStream (.upkeep upkeep) = true) (opened : store.aof.fp ≠ none)
    : (upkeep.call env store).2.aof.fp ≠ none := by
  cases upkeep with
  | bgrewriteaof pid =>
      rw [Upkeep.call, Prod.map_snd, id_eq, (kvBgrewriteaof_kept store pid env).2.2]
      exact opened
  | mergeAofRewrite pid outcome =>
      simp only [Upkeep.call, Prod.map_snd, id_eq, kvMergeAofRewrite]
      split_ifs
      · exact opened
      · exact opened
      · cases outcome with
        | renameFailed => cases keeps
        | reopenFailed => cases keeps
        | ok => exact Option.some_ne_none 0
        | flushFailed written => exact Option.some_ne_none 0
        | _ => exact opened
  | _ => exact opened

/-- An open log stays open until a merge closes it. -/
theorem Store.run_opened {calls : List Call}
    (keeps : ∀ call ∈ calls, call.action.keepsStream = true) (opened : store.aof.fp ≠ none)
    : (store.run calls).2.aof.fp ≠ none := by
  refine @Foundations.Runs.run_invariant _ _ _ Store.step
    (fun call => call.action.keepsStream = true) (fun store => store.aof.fp ≠ none) ?_ store opened
    calls keeps
  intro store call opened keeps
  simp only [Store.step]
  split
  · next op _ => exact op.call_stable Aof.opened_stable opened
  · next upkeep action =>
      rw [action] at keeps
      exact Upkeep.call_opened keeps opened

-- The event loop

/-- The failure shows before the old log is closed: the child does not exit with 0, or its file
cannot be opened or does not take the buffer.
-/
def RewriteFailsEarly (status : ExitStatus) (outcome : MergeOutcome) : Prop :=
  status.clean = false ∨ outcome = .openFailed ∨ ∃ written, outcome = .writeFailed written

theorem kvMergeAofRewrite_kept {outcome : MergeOutcome} (pid : Int)
    (early : outcome = .openFailed ∨ ∃ written, outcome = .writeFailed written)
    : (kvMergeAofRewrite store pid outcome).2.aof.log = store.aof.log
      ∧ (kvMergeAofRewrite store pid outcome).2.aof.fp = store.aof.fp := by
  simp only [kvMergeAofRewrite]
  rcases early with rfl | ⟨written, rfl⟩ <;> split_ifs <;> exact ⟨rfl, rfl⟩

/-- A compaction that fails early leaves the table, the log and its stream as they are. -/
theorem serverReap_kept {status : ExitStatus} {outcome : MergeOutcome} (pid : Int)
    (early : RewriteFailsEarly status outcome)
    : (serverReap store pid status outcome).table = store.table
      ∧ (serverReap store pid status outcome).aof.log = store.aof.log
      ∧ (serverReap store pid status outcome).aof.fp = store.aof.fp := by
  rw [serverReap]
  split
  · exact ⟨rfl, rfl, rfl⟩
  · split
    · split
      · next clean =>
          have merges := early.resolve_left (by simp [clean])
          exact ⟨kvMergeAofRewrite_table pid outcome, kvMergeAofRewrite_kept pid merges⟩
      · exact ⟨rfl, rfl, rfl⟩
    · exact ⟨rfl, rfl, rfl⟩

/-- What a compaction that took a store from `live` to `final` has cost nothing means: the log
replays to the current map if it did so before, and every `kv_set` and `kv_delete` after any later
calls that returns `KV_OK` is appended to it.
-/
structure Store.CostsNothing (live final : Store) : Prop where
  replays : ∀ buckets capacity prng now,
    recoveredMap buckets capacity prng now live.aof.log = live.table.logical →
      recoveredMap buckets capacity prng now final.aof.log = final.table.logical
  appends : live.aof.fp ≠ none → ∀ more : List Call,
    (∀ call ∈ more, call.action.keepsStream = true) →
    ∀ (mutation : Mutation) (later : CallEnv),
      (mutation.call later (final.run more).2).1 = kvOk →
      (mutation.call later (final.run more).2).2.aof.log
        = (final.run more).2.aof.log ++ mutation.record

theorem serverReap_costsNothing {status : ExitStatus} {outcome : MergeOutcome} (pid : Int)
    (early : RewriteFailsEarly status outcome)
    : store.CostsNothing (serverReap store pid status outcome) := by
  obtain ⟨table, log, stream⟩ := @serverReap_kept store status outcome pid early
  refine ⟨?_, ?_⟩
  · intro buckets capacity prng now recovers
    rw [log, table]
    exact recovers
  · intro opened more keeps mutation later ok
    exact mutation.call_appends (Store.run_opened keeps (stream ▸ opened)) ok

-- What a later failure costs

/-- Elements are pushed to a list. -/
def pushes (count : Nat) : List Call :=
  List.replicate count ⟨.op (.lpush (some ⟨[107], by decide⟩) (some ⟨[97], by decide⟩)), .at 1, 0⟩

/-- The list they make. -/
def pushedMap (count : Nat) : LogicalMap :=
  Finmap.insert ⟨[107], by decide⟩ ⟨.list (List.replicate (count + 1) ⟨[97], by decide⟩), 0⟩ ∅

/-- Every push is logged, by induction on their number. -/
theorem History.run_pushes (history : History) (count : Nat)
    : let last := History.run 0 true history (pushes count)
      last.map = applyRecords 0 1
        ((List.replicate count ⟨[97], by decide⟩).map (Record.lpush ⟨[107], by decide⟩)) history.map
      ∧ ∀ record ∈ last.logged, record ∈ history.logged ∨ record.fits = true := by
  induction count generalizing history with
  | zero => exact ⟨rfl, fun record member => .inl member⟩
  | succ count ih =>
      let outcome := LogicalMap.lpush history.map 0 1 ⟨[107], by decide⟩ ⟨[97], by decide⟩
      obtain ⟨map, logged⟩ := ih ⟨outcome.map, history.logged ++ outcome.logged,
        history.buffered ++ outcome.buffered⟩
      have fits : ∀ record ∈ outcome.logged, record.fits = true := by
        simp only [outcome, LogicalMap.lpush, LogicalMap.full_zero, Bool.false_eq_true, if_false]
        split <;> simp [Outcome.recorded, Outcome.silent] <;> decide
      refine ⟨map, fun record member => ?_⟩
      rcases logged record member with earlier | room
      · exact (List.mem_append.mp earlier).imp_right (fits record)
      · exact .inr room

/-- Files up to some length recover finitely many maps, and there are more lists than that. -/
theorem exists_unrecovered (length : Nat)
    : ∃ count, ∀ file : List UInt8, file.length ≤ length →
        recoveredMap 1 0 9 20 file ≠ pushedMap count := by
  have injective : Function.Injective pushedMap := by
    intro one other same
    have found := congrArg (Finmap.lookup ⟨[107], by decide⟩) same
    simp only [pushedMap, Finmap.lookup_insert, Option.some.injEq, Binding.mk.injEq,
      Content.list.injEq, and_true] at found
    simpa using congrArg List.length found
  have finite := (List.finite_length_le UInt8 length).image (recoveredMap 1 0 9 20)
  obtain ⟨_, ⟨count, rfl⟩, missing⟩ :=
    (Set.infinite_range_of_injective injective).exists_notMem_finite finite
  exact ⟨count, fun file short recovered => missing ⟨file, short, recovered⟩⟩

theorem Store.Blank.run_pushes (blank : store.Blank 0) (count : Nat)
    : let live := (store.run (pushes (count + 1))).2
      live.table.logical = pushedMap count
      ∧ recoveredMap 1 0 9 20 live.aof.log = live.table.logical
      ∧ ∃ logged buffered, store.aof.Extends live.aof logged buffered := by
  have recoverable : ∀ call ∈ pushes (count + 1), call.Recoverable 20 := by
    intro call member
    rw [List.eq_of_mem_replicate member]
    refine Call.recoverable_op ?_ (by decide) (by simp [Op.deadline])
    simp [Op.value, CString.IsField, lf, cr]
  obtain ⟨map, logged⟩ := History.run_pushes (.start ∅) (count + 1)
  have tracks := Store.run_tracks blank.wellFormed blank.unlimited
    (fun call member => (recoverable call member).carries)
  refine ⟨?_, ?_, _, _, tracks.aof⟩
  · rw [tracks.table.logical, blank.maxCapacity, blank.atStart, Option.isSome_some, blank.logical,
      map, applyRecords_lpush 1 (by simp) rfl, List.reverse_replicate]
    rfl
  · exact blank.recovers (by decide) 9 recoverable
      (fun record member => (logged record member).resolve_left (by simp [History.start]))

/-- A store whose rewriting child has exited. -/
structure Store.Awaits (store : Store) (pid : Int) : Prop where
  running : 0 < pid
  named : store.aof.path ≠ none
  rewritePid : store.aof.rewritePid = pid
  bgsavePid : store.aof.bgsavePid ≠ pid

/-- The merge that the event loop makes of it when the child has exited with 0. -/
theorem Store.Awaits.reap {pid : Int} (awaits : store.Awaits pid) {status : ExitStatus}
    (clean : status.clean = true) (outcome : MergeOutcome)
    : let final := serverReap store pid status outcome
      final.table = store.table
      ∧ (outcome = .renameFailed ∨ outcome = .reopenFailed → final.aof.fp = none)
      ∧ (∀ written, outcome = .flushFailed written →
          final.aof.log = store.aof.rewriteTmp.getD [] ++ store.aof.rewriteBuffer.take written)
      ∧ (outcome = .ok →
          final.aof.log = store.aof.rewriteTmp.getD [] ++ store.aof.rewriteBuffer) := by
  obtain ⟨running, named, rewritePid, bgsavePid⟩ := awaits
  have merges : serverReap store pid status outcome = (kvMergeAofRewrite store pid outcome).2 := by
    rw [serverReap, if_neg bgsavePid.symm, if_pos rewritePid.symm, if_pos clean]
  rw [merges]
  refine ⟨kvMergeAofRewrite_table pid outcome, ?_⟩
  simp only [kvMergeAofRewrite, named, Int.not_le.mpr running, rewritePid, ne_eq,
    not_true_eq_false, or_self, if_false]
  cases outcome <;> simp

/-- A store that has a log and no children forks. -/
theorem kvBgrewriteaof_awaits {pid : Int} (running : 0 < pid) (named : store.aof.path ≠ none)
    (idle : store.aof.bgsavePid = 0 ∧ store.aof.rewritePid = 0) (env : CallEnv)
    : store.Forks (kvBgrewriteaof store pid env).2 pid env
      ∧ (kvBgrewriteaof store pid env).2.Awaits pid := by
  have forks : store.Forks (kvBgrewriteaof store pid env).2 pid env := by
    refine kvBgrewriteaof_forks (Prod.ext ?_ rfl)
    simp [kvBgrewriteaof, named, idle, Int.not_le.mpr running]
  refine ⟨forks, running, forks.named, forks.rewritePid, ?_⟩
  rw [forks.bgsavePid, idle.1]
  exact running.ne

/-- What a child that cannot write its whole file leaves of it has a bounded length. -/
theorem childFile_short {io : IoOutcome} (fails : io ≠ .ok)
    : ∃ length, ∀ file, ((childFile io file).getD []).length ≤ length := by
  cases io with
  | ok => exact absurd rfl fails
  | refused => exact ⟨0, fun file => Nat.le_refl 0⟩
  | failed written => exact ⟨written, fun file => List.length_take_le written file⟩

-- A store that was opened on an empty log.
section Blank

variable (blank : store.Blank 0) (named : store.aof.path ≠ none)
  (idle : store.aof.bgsavePid = 0 ∧ store.aof.rewritePid = 0) {status : ExitStatus}
  (clean : status.clean = true)

include blank in
theorem Store.Blank.bgrewriteaof (pid : Int) (env : CallEnv)
    : (kvBgrewriteaof store pid env).2.Blank 0 := by
  obtain ⟨wf, unlimited, uncapped, logical, empty, atStart⟩ := blank
  obtain ⟨table, log, stream⟩ := kvBgrewriteaof_kept store pid env
  exact ⟨table ▸ wf, table ▸ unlimited, table ▸ uncapped, table ▸ logical, log ▸ empty,
    stream ▸ atStart⟩

include blank named idle clean

/-- The old log is closed and no new one is open, so that a later `kv_set` returns `KV_OK` and is
not logged.
-/
theorem closed_log_costs (env : CallEnv) {outcome : MergeOutcome}
    (closes : outcome = .renameFailed ∨ outcome = .reopenFailed)
    : let live := (kvBgrewriteaof store 5 env).2
      ¬ live.CostsNothing (serverReap live 5 status outcome) := by
  intro live costs
  have forked := blank.bgrewriteaof 5 env
  obtain ⟨_, awaits⟩ := kvBgrewriteaof_awaits (by decide : (0 : Int) < 5) named idle env
  obtain ⟨table, closed, _⟩ := awaits.reap clean outcome
  generalize serverReap live 5 status outcome = final at *
  have missing := closed closes
  have isMatch := @kvSet_matches final (.at 3) (table ▸ forked.wellFormed)
    (table ▸ forked.unlimited) (CallEnv.clean_at 3) (some ⟨[107], by decide⟩)
    (some ⟨[97], by decide⟩)
  rw [Op.Refines, table, forked.maxCapacity, forked.logical, missing] at isMatch
  have appended := costs.appends (by simp [live, forked.atStart]) [] (by simp)
    (.set ⟨[107], by decide⟩ ⟨[97], by decide⟩) (.at 3) (Reply.status.inj isMatch.reply)
  have same := (isMatch.aof.closed missing).symm.trans appended
  exact absurd (List.self_eq_append_right.mp same) (by decide)

/-- A list that is pushed behind the fork is not recovered from a cut buffer. -/
theorem cut_buffer_costs (env : CallEnv) (nothing : store.table.dump env.now = []) (written : Nat)
    : ∃ calls, let live := ((kvBgrewriteaof store 5 env).2.run calls).2
        ¬ live.CostsNothing (serverReap live 5 status (.flushFailed written)) := by
  obtain ⟨count, missing⟩ := exists_unrecovered written
  refine ⟨pushes (count + 1), fun costs => ?_⟩
  obtain ⟨forks, awaits⟩ := kvBgrewriteaof_awaits (by decide : (0 : Int) < 5) named idle env
  obtain ⟨map, recovers, _, _, extended⟩ := (blank.bgrewriteaof 5 env).run_pushes count
  have later : ((kvBgrewriteaof store 5 env).2.run (pushes (count + 1))).2.Awaits 5 :=
    ⟨awaits.running, extended.path ▸ awaits.named, extended.rewritePid.trans awaits.rewritePid,
      extended.bgsavePid ▸ awaits.bgsavePid⟩
  obtain ⟨table, _, cut, _⟩ := later.reap clean (.flushFailed written)
  have none : (childFile env.io []).getD [] = [] := by
    cases env.io <;> simp [childFile]
  refine missing _ ?_ ((costs.replays 1 0 9 20 recovers).trans (table ▸ map))
  rw [cut written rfl, extended.rewriteTmp, forks.rewriteTmp, nothing]
  exact none.symm ▸ List.length_take_le written _

/-- A list that is pushed before the fork is not recovered from what the child could write. -/
theorem cut_dump_costs {env : CallEnv} (fails : env.io ≠ .ok)
    : ∃ count, let live := (kvBgrewriteaof (store.run (pushes count)).2 5 env).2
        ¬ live.CostsNothing (serverReap live 5 status .ok) := by
  obtain ⟨length, short⟩ := childFile_short fails
  obtain ⟨count, missing⟩ := exists_unrecovered length
  refine ⟨count + 1, fun costs => ?_⟩
  obtain ⟨map, recovers, _, _, extended⟩ := blank.run_pushes count
  obtain ⟨forks, awaits⟩ := @kvBgrewriteaof_awaits (store.run (pushes (count + 1))).2 5
    (by decide) (extended.path ▸ named) (extended.bgsavePid ▸ extended.rewritePid ▸ idle) env
  obtain ⟨log, _⟩ := (kvBgrewriteaof_kept (store.run (pushes (count + 1))).2 5 env).2
  obtain ⟨table, _, _, merged⟩ := awaits.reap clean .ok
  have final := costs.replays 1 0 9 20 (by rw [log, forks.table, recovers])
  rw [table, forks.table, map] at final
  refine missing _ ?_ final
  rw [merged rfl, forks.rewriteTmp, forks.buffer, List.append_nil]
  exact short _

end Blank

/-- A late failure costs the records that did not reach the file, or those of later calls. -/
theorem late_failure_costs {io : IoOutcome} {status : ExitStatus} {outcome : MergeOutcome}
    (fails : io ≠ .ok ∨ outcome ≠ .ok) (late : ¬ RewriteFailsEarly status outcome)
    : ∃ store pid env calls, store.Reachable CallEnv.Allocates ∧ env.io = io
        ∧ let live := ((kvBgrewriteaof store pid env).2.run calls).2
          ¬ live.CostsNothing (serverReap live pid status outcome) := by
  obtain ⟨clean, opens, writes⟩ : status.clean = true ∧ outcome ≠ .openFailed
      ∧ ∀ written, outcome ≠ .writeFailed written := by
    simpa [RewriteFailsEarly] using late
  obtain ⟨start, isStart, blank⟩ := @kvInitFull_blank 1 (by decide) 0 ⟨[102], by decide⟩ 7 _
    (CallEnv.clean_at 0) (fun _ => .at 0)
  obtain ⟨named, idle, nothing⟩ : start.aof.path ≠ none
      ∧ (start.aof.bgsavePid = 0 ∧ start.aof.rewritePid = 0) ∧ start.table.dump 1 = [] := by
    obtain rfl := Except.ok.inj isStart
    decide
  have reachable : ∀ count, Store.Reachable CallEnv.Allocates (start.run (pushes count)).2 := by
    intro count
    refine ⟨1, 0, _, [], 7, .at 0, fun _ => .at 0, start, _, isStart, fun _ _ => rfl, ?_, rfl⟩
    intro call member
    rw [List.eq_of_mem_replicate member]
    exact ⟨rfl, fun _ => rfl⟩
  let env : CallEnv := { CallEnv.at 1 with io }
  cases outcome with
  | openFailed => exact absurd rfl opens
  | writeFailed written => exact absurd rfl (writes written)
  | renameFailed =>
      exact ⟨start, 5, env, [], reachable 0, rfl,
        closed_log_costs blank named idle clean env (.inl rfl)⟩
  | reopenFailed =>
      exact ⟨start, 5, env, [], reachable 0, rfl,
        closed_log_costs blank named idle clean env (.inr rfl)⟩
  | flushFailed written =>
      obtain ⟨calls, costs⟩ := cut_buffer_costs blank named idle clean env nothing written
      exact ⟨start, 5, env, calls, reachable 0, rfl, costs⟩
  | ok =>
      obtain ⟨count, costs⟩ := @cut_dump_costs start blank named idle status clean env
        (fails.resolve_right (not_not_intro rfl))
      exact ⟨_, 5, env, [], reachable count, rfl, costs⟩

/-- A compaction with any calls between `kv_bgrewriteaof` and the event loop that fails at some
point. If it fails early, then the table and the log are what the calls have made of them, and it
has cost nothing, whatever the store. It fails early if it costs nothing in every store that a run
can reach.
-/
theorem failed_compaction_costs_nothing_iff {io : IoOutcome} {status : ExitStatus}
    {outcome : MergeOutcome} (fails : status.clean = false ∨ io ≠ .ok ∨ outcome ≠ .ok)
    : (RewriteFailsEarly status outcome →
        ∀ (store : Store) (pid : Int) (env : CallEnv) (calls : List Call),
          let forked := (kvBgrewriteaof store pid env).2
          let live := (forked.run calls).2
          let final := serverReap live pid status outcome
          (forked.table = store.table ∧ forked.aof.log = store.aof.log
            ∧ forked.aof.fp = store.aof.fp)
          ∧ (final.table = live.table ∧ final.aof.log = live.aof.log)
          ∧ live.CostsNothing final)
      ∧ ((∀ (store : Store) (pid : Int) (env : CallEnv) (calls : List Call),
          store.Reachable CallEnv.Allocates → env.io = io →
            let live := ((kvBgrewriteaof store pid env).2.run calls).2
            live.CostsNothing (serverReap live pid status outcome)) →
        RewriteFailsEarly status outcome) := by
  refine ⟨?_, ?_⟩
  · intro early store pid env calls forked live final
    obtain ⟨table, log, _⟩ := @serverReap_kept live status outcome pid early
    exact ⟨kvBgrewriteaof_kept store pid env, ⟨table, log⟩, serverReap_costsNothing pid early⟩
  · intro costsNothing
    by_contra late
    have clean : status.clean = true := by
      simpa using fun dirty => late (.inl dirty)
    obtain ⟨store, pid, env, calls, reachable, isIo, costs⟩ :=
      late_failure_costs (fails.resolve_left (by simp [clean])) late
    exact costs (costsNothing store pid env calls reachable isIo)

/-- The child cannot open its file, while a key is set that is deleted later. -/
theorem failed_compaction_costs_nothing_iff_refused
    : ∃ start, kvInitFull 1 0 0 (some ⟨[102], by decide⟩) [] 7 (.at 0) (fun _ => .at 0) = .ok start
        ∧ let refused : CallEnv := { CallEnv.at 1 with io := .refused }
          let set : Call :=
            ⟨.op (.set (some ⟨[107], by decide⟩) (some ⟨[97], by decide⟩)), .at 2, 0⟩
          let live := ((kvBgrewriteaof start 5 refused).2.run [set]).2
          let final := serverReap live 5 (rewriteStatus refused.io) .ok
          RewriteFailsEarly (rewriteStatus refused.io) .ok
          ∧ ((Mutation.delete ⟨[107], by decide⟩).call (.at 3) final).1 = kvOk
          ∧ final.aof.log = live.aof.log
          ∧ ((Mutation.delete ⟨[107], by decide⟩).call (.at 3) final).2.aof.log
            = final.aof.log ++ (Mutation.delete ⟨[107], by decide⟩).record := by
  obtain ⟨start, isStart, opened, ok⟩ : ∃ start,
      kvInitFull 1 0 0 (some ⟨[102], by decide⟩) [] 7 (.at 0) (fun _ => .at 0) = .ok start
        ∧ let refused : CallEnv := { CallEnv.at 1 with io := .refused }
          let set : Call :=
            ⟨.op (.set (some ⟨[107], by decide⟩) (some ⟨[97], by decide⟩)), .at 2, 0⟩
          let live := ((kvBgrewriteaof start 5 refused).2.run [set]).2
          live.aof.fp ≠ none
          ∧ ((Mutation.delete ⟨[107], by decide⟩).call (.at 3)
              (serverReap live 5 (rewriteStatus refused.io) .ok)).1 = kvOk :=
    ⟨_, rfl, by decide +kernel, by decide +kernel⟩
  refine ⟨start, isStart, ?_⟩
  intro refused set live final
  have early : RewriteFailsEarly (rewriteStatus refused.io) .ok := .inl (by decide)
  obtain ⟨_, ⟨_, log⟩, costs⟩ := (@failed_compaction_costs_nothing_iff refused.io
    (rewriteStatus refused.io) .ok (.inl (by decide))).1 early start 5 refused [set]
  exact ⟨early, ok, log,
    costs.appends opened [] (by simp) (.delete ⟨[107], by decide⟩) (.at 3) ok⟩

/-- A store with one logged key is compacted. When the child cannot write, the empty file takes the
place of the log. When the merge cannot write, what was set meanwhile is not in the log. When
`rename` fails, or opening the new log, a later `kv_set` returns `KV_OK` and is not logged.
-/
theorem failed_compaction_loses_records
    : ∃ start, kvInitFull 1 0 0 (some ⟨[102], by decide⟩) [] 7 (.at 0) (fun _ => .at 0) = .ok start
        ∧ let first : CString := ⟨[107], by decide⟩
          let second : CString := ⟨[108], by decide⟩
          let third : CString := ⟨[109], by decide⟩
          let value : CString := ⟨[97], by decide⟩
          let held := (kvSet start (some first) (some value) (.at 1)).2
          let live := (kvSet (kvBgrewriteaof held 5 (.at 2)).2 (some second) (some value) (.at 3)).2
          (let full : CallEnv := { CallEnv.at 2 with io := .failed 0 }
           let final := serverReap (kvBgrewriteaof held 5 full).2 5 (rewriteStatus full.io) .ok
           (final.table.logical.lookup first).isSome
           ∧ (recoveredMap 1 0 9 20 held.aof.log).lookup first = final.table.logical.lookup first
           ∧ (recoveredMap 1 0 9 20 final.aof.log).lookup first = none)
          ∧ (let final := serverReap live 5 (.exited 0) (.flushFailed 0)
             (final.table.logical.lookup second).isSome
             ∧ (recoveredMap 1 0 9 20 live.aof.log).lookup second
               = final.table.logical.lookup second
             ∧ (recoveredMap 1 0 9 20 final.aof.log).lookup second = none)
          ∧ ∀ outcome, outcome = .renameFailed ∨ outcome = .reopenFailed →
              let later := kvSet (serverReap live 5 (.exited 0) outcome) (some third) (some value)
                (.at 4)
              later.1 = kvOk
              ∧ (later.2.table.logical.lookup third).isSome
              ∧ (recoveredMap 1 0 9 20 later.2.aof.log).lookup third = none := by
  refine ⟨_, rfl, ⟨by decide +kernel, by decide +kernel, by decide +kernel⟩,
    ⟨by decide +kernel, by decide +kernel, by decide +kernel⟩, ?_⟩
  rintro outcome (rfl | rfl)
  · exact ⟨by decide +kernel, by decide +kernel, by decide +kernel⟩
  · exact ⟨by decide +kernel, by decide +kernel, by decide +kernel⟩

end MiniKv
