import MiniKv.Refinement.Dumps
import MiniKv.Refinement.FileFailures
import MiniKv.Refinement.Runs

/-! Log compaction: the dump of a forked child followed by what the parent collected since the
fork recovers the store at the time of the merge.
-/

namespace MiniKv

open MiniKv.Foundations.FiniteMaps

variable {store forked : Store} {env : CallEnv} {pid : Int} {later : Int64}

/-- What a child leaves of the file it writes. -/
def childFile (io : IoOutcome) (file : List UInt8) : Option (List UInt8) :=
  match io with
  | .ok => some file
  | .failed written => some (file.take written)
  | .refused => none

/-- What a successful fork sets up: the child dumps the table, and an empty buffer is there for
what comes.
-/
structure Store.Forks (store forked : Store) (pid : Int) (env : CallEnv) : Prop where
  running : 0 < pid
  named : forked.aof.path ≠ none
  table : forked.table = store.table
  bgsavePid : forked.aof.bgsavePid = store.aof.bgsavePid
  rewritePid : forked.aof.rewritePid = pid
  rewriteTmp : forked.aof.rewriteTmp = childFile env.io (encode (store.table.dump env.now))
  buffer : forked.aof.rewriteBuffer = []

theorem kvBgrewriteaof_forks (started : kvBgrewriteaof store pid env = (kvOk, forked))
    : store.Forks forked pid env := by
  have emptied : ∀ pid tmp, Aof.rewriteBuffer { store.aof with
      rewriteBufLen := if store.aof.rewriteBuf = none then store.aof.rewriteBufLen else 0
      rewritePid := pid
      rewriteTmp := tmp } = [] := by
    intro pid tmp
    cases held : store.aof.rewriteBuf with
    | none => simp only [Aof.rewriteBuffer, held]
    | some buffer =>
        simp only [Aof.rewriteBuffer, held, reduceCtorEq, if_false, List.take_zero]
  simp only [kvBgrewriteaof] at started
  split at started
  · simp [kvErrInvalidParam, kvOk] at started
  · next named =>
      split at started
      · simp [kvErrAgain, kvOk] at started
      · split at started
        · simp [kvErrIo, kvOk] at started
        · next positive =>
            obtain ⟨_, rfl⟩ := Prod.mk.inj started
            exact ⟨Int.not_le.mp positive, named, rfl, rfl, rfl, by cases env.io <;> rfl,
              emptied _ _⟩

/-- The dump rebuilds the map of the store that was forked. -/
theorem applyRecords_tableDump {nowMs : Int64} (steady : store.Steady) (before : nowMs ≤ later)
    (epoch : 0 ≤ later)
    (deadlines : Each (fun binding => binding.expireAt = 0 ∨ later < binding.expireAt)
      store.table.logical)
    : applyRecords 0 later (store.table.dump nowMs) ∅ = store.table.logical := by
  have wf := steady.sound.wellFormed
  have whole : store.table.entries.filter (fun entry => !entryIsExpired entry nowMs)
      = store.table.entries := by
    rw [List.filter_eq_self]
    intro entry member
    have deadline := deadlines entry.key entry.binding (wf.logical_of_mem member)
    have live : entry.binding.isExpired nowMs = false :=
      Binding.isExpired_of_le before (Binding.isExpired_of_deadline deadline)
    have same : entryIsExpired entry nowMs = entry.binding.isExpired nowMs := rfl
    rw [same, live]
    rfl
  have dumpable := wf.dumpable steady.occupied
    (deadlines.imp (fun _ deadline => deadline.imp_right (Int64.lt_of_le_of_lt epoch)))
  rw [Table.dump, whole, applyRecords_dumps later dumpable wf.placed.distinct (by simp)]
  exact foldl_insert_eq_tabulate wf.placed.distinct

theorem Table.WellFormed.dump_readable {table : Table} (wf : table.WellFormed) (nowMs : Int64)
    (fields : Each (fun binding => binding.content.All CString.IsField) table.logical)
    : ∀ record ∈ table.dump nowMs, record.Readable := by
  intro record member
  obtain ⟨entry, kept, inside⟩ := List.mem_flatMap.mp member
  have present := List.mem_of_mem_filter kept
  exact (wf.entries entry present).dump_carries
    (fields _ _ (wf.logical_of_mem present)) record inside

/-- An operation without failing allocations whose value fits a line and whose deadline, if it
sets one, is still ahead at the time `later`. Its file operations may fail.
-/
structure Call.Collectable (later : Int64) (call : Call) : Prop where
  operation : ∃ op, call.action = .op op ∧ ∀ value, op.value = some value → value.IsField
  allocates : call.env.Allocates
  timely : call.Timely later

theorem Aof.Collects.trans {first second third : Aof} {early late : List UInt8}
    (collects : first.Collects second early) (more : second.Collects third late)
    : first.Collects third (early ++ late) where
  path := more.path.trans collects.path
  rewritePid := more.rewritePid.trans collects.rewritePid
  rewriteTmp := more.rewriteTmp.trans collects.rewriteTmp
  ready := more.ready ∘ collects.ready
  buffer ready running := by
    rw [more.buffer (collects.ready ready) (collects.rewritePid ▸ running),
      collects.buffer ready running, List.append_assoc]

/-- Since the fork the buffer got records that turn the forked map into the live one. -/
structure Store.Rewriting (forked store : Store) (later : Int64) (records : List Record)
    : Prop where
  sound : store.Sound
  collects : forked.aof.Collects store.aof (encode records)
  readable : ∀ record ∈ records, record.Readable
  replays : applyRecords 0 later records forked.table.logical = store.table.logical
  unexpired : store.table.logical.Unexpired later

/-- One mutation adds the records that repeat it to the buffer. -/
theorem Store.Rewriting.step {records : List Record} {call : Call}
    (rewriting : forked.Rewriting store later records) (collectable : call.Collectable later)
    : ∃ more, forked.Rewriting (store.step call).2 later (records ++ more) := by
  obtain ⟨⟨op, action, fields⟩, allocates, ⟨before, deadlines⟩⟩ := collectable
  let drawn : Store := { store with table := { store.table with prng := call.prng } }
  have drawnWf : drawn.table.WellFormed := rewriting.sound.wellFormed.congr rfl rfl rfl
  have stepped : store.step call = op.call call.env drawn := by
    simp only [Store.step, action, drawn]
  obtain ⟨outcome, shape, becomes, collects⟩ :=
    @Op.call_collects drawn call.env op drawnWf rewriting.sound.unlimited allocates
  have sound : (op.call call.env drawn).2.Sound :=
    ⟨becomes.wellFormed, becomes.maxMemoryBudget.trans rewriting.sound.unlimited⟩
  have replays : outcome.Replays 0 later store.table.logical := by
    rcases shape with rfl | ⟨reply, rfl⟩
    · exact op.outcome_replays _ rewriting.unexpired before
        (fun _ => LogicalMap.full_zero _) (fun deadline => deadlines op deadline action)
    · exact .silent rewriting.unexpired reply
  have carries : outcome.Carries CString.IsField := by
    rcases shape with rfl | ⟨reply, rfl⟩
    · exact op.outcome_carries drawnWf.logical_valid fields _ _ _
    · exact Outcome.carries_silent _ _
  rw [stepped]
  refine ⟨outcome.buffered, sound, ?_, ?_, ?_, ?_⟩
  · rw [encode_append]
    exact rewriting.collects.trans collects
  · intro record member
    rcases List.mem_append.mp member with earlier | now
    · exact rewriting.readable record earlier
    · exact carries.2 record now
  · rw [applyRecords_append, rewriting.replays, replays.buffered, becomes.logical]
  · rw [becomes.logical]
    exact replays.unexpired

/-- The mutations between fork and merge, by induction on them. -/
theorem Store.Rewriting.run {records : List Record} {calls : List Call}
    (rewriting : forked.Rewriting store later records)
    (collectable : ∀ call ∈ calls, call.Collectable later)
    : ∃ all, forked.Rewriting (store.run calls).2 later all := by
  induction calls generalizing store records with
  | nil => exact ⟨records, rewriting⟩
  | cons call rest ih =>
      obtain ⟨more, next⟩ := rewriting.step (collectable call List.mem_cons_self)
      exact ih next (fun other member => collectable other (List.mem_cons_of_mem _ member))

theorem kvMergeAofRewrite_merges (named : store.aof.path ≠ none) (running : 0 < pid)
    (rewritePid : store.aof.rewritePid = pid)
    : ∃ merged, kvMergeAofRewrite store pid .ok = (kvOk, merged)
        ∧ merged.table = store.table
        ∧ merged.aof.log = store.aof.rewriteTmp.getD [] ++ store.aof.rewriteBuffer := by
  simp only [kvMergeAofRewrite, named, Int.not_le.mpr running, rewritePid, ne_eq,
    not_true_eq_false, or_self, if_false]
  exact ⟨_, rfl, rfl, rfl⟩

/-- A log that was rewritten while mutations went on recovers the live store: replaying the merged
file into a fresh store without limits gives the logical map at the time of the merge.
Witness: the dump rebuilds the forked map, and every mutation since has put the records that
repeat it in the buffer, also when its own log record could not be written.
-/
theorem merged_log_recovers (reachable : store.Reachable CallEnv.Allocates)
    (works : env.io = .ok) (started : kvBgrewriteaof store pid env = (kvOk, forked))
    (epoch : 0 ≤ later) (before : env.now ≤ later)
    (fields : Each (fun binding => binding.content.All CString.IsField) store.table.logical)
    (deadlines : Each (fun binding => binding.expireAt = 0 ∨ later < binding.expireAt)
      store.table.logical)
    {calls : List Call} (collectable : ∀ call ∈ calls, call.Collectable later)
    {replayBuckets : Nat} (positive : 0 < replayBuckets) (replayPrng : UInt32)
    : ∃ merged, kvMergeAofRewrite (forked.run calls).2 pid .ok = (kvOk, merged)
        ∧ merged.table = (forked.run calls).2.table
        ∧ recoveredMap replayBuckets 0 replayPrng later merged.aof.log
          = (forked.run calls).2.table.logical := by
  have steady := reachable.steady
  have forks := kvBgrewriteaof_forks started
  have ready : forked.aof.BufferReady := by
    have kept := @Upkeep.call_lasting store env _ Aof.bufferReady_lasting (.bgrewriteaof pid)
      steady.ready
    simpa only [Upkeep.call, started, Prod.map_snd, id_eq] using kept
  have unexpired : store.table.logical.Unexpired later :=
    fun key binding bound => Binding.isExpired_of_deadline (deadlines key binding bound)
  have sound : forked.Sound := by
    refine ⟨?_, ?_⟩
    · rw [forks.table]
      exact steady.sound.wellFormed
    · rw [forks.table]
      exact steady.sound.unlimited
  -- The buffer is empty at the fork and gets the records of every call after it.
  have first : forked.Rewriting forked later [] :=
    ⟨sound, (Aof.Extends.refl forked.aof).collects, by simp, rfl, forks.table ▸ unexpired⟩
  obtain ⟨records, last⟩ := first.run collectable
  have rewritePid := last.collects.rewritePid.trans forks.rewritePid
  have named : (forked.run calls).2.aof.path ≠ none := last.collects.path ▸ forks.named
  have buffer := last.collects.buffer ready (forks.rewritePid ▸ forks.running)
  rw [forks.buffer, List.nil_append] at buffer
  obtain ⟨merged, merges, table, log⟩ :=
    kvMergeAofRewrite_merges named forks.running rewritePid
  refine ⟨merged, merges, table, ?_⟩
  have readable : ∀ record ∈ store.table.dump env.now ++ records, record.Readable := by
    intro record member
    rcases List.mem_append.mp member with dumped | collected
    · exact steady.sound.wellFormed.dump_readable env.now fields record dumped
    · exact last.readable record collected
  rw [log, last.collects.rewriteTmp, forks.rewriteTmp, works, childFile, Option.getD_some, buffer,
    ← encode_append,
    recoveredMap_encode positive 0 replayPrng later readable, applyRecords_append,
    applyRecords_tableDump steady before epoch deadlines, ← forks.table, last.replays]

/-- A list of two values is dumped; then one is popped, a `kv_set` cannot be logged, and a string
is set with a deadline.
-/
theorem merged_log_recovers_popped
    : ∃ start, kvInitFull 2 0 0 (some ⟨[112], by decide⟩) [] 7 (.at 0) (fun _ => .at 0)
          = .ok start
        ∧ ∃ forked, kvBgrewriteaof
              (start.run
                [⟨.op (.lpush (some ⟨[107], by decide⟩) (some ⟨[97], by decide⟩)), .at 1, 0⟩,
                  ⟨.op (.lpush (some ⟨[107], by decide⟩) (some ⟨[98], by decide⟩)), .at 2, 0⟩]
                ).2 5 (.at 3)
            = (kvOk, forked)
          ∧ let live := (forked.run
              [⟨.op (.rpop (some ⟨[107], by decide⟩)), .at 4, 0⟩,
                ⟨.op (.set (some ⟨[109], by decide⟩) (some ⟨[97], by decide⟩)),
                  { CallEnv.at 5 with io := .refused }, 0⟩,
                ⟨.op (.set (some ⟨[108], by decide⟩) (some ⟨[97], by decide⟩)), .at 6, 0⟩,
                ⟨.op (.pexpireat (some ⟨[108], by decide⟩) 900), .at 7, 0⟩]).2
            ∃ merged, kvMergeAofRewrite live 5 .ok = (kvOk, merged)
              ∧ recoveredMap 1 0 9 20 merged.aof.log = live.table.logical := by
  have reachable : Store.Reachable CallEnv.Allocates
      (Store.run ⟨(Store.fresh 2 0 0 7 []).table.charge 2,
          { (Store.fresh 2 0 0 7 []).aof with path := some ⟨[112], by decide⟩, fp := some 0 }⟩
        [⟨.op (.lpush (some ⟨[107], by decide⟩) (some ⟨[97], by decide⟩)), .at 1, 0⟩,
          ⟨.op (.lpush (some ⟨[107], by decide⟩) (some ⟨[98], by decide⟩)), .at 2, 0⟩]).2 :=
    ⟨2, 0, some ⟨[112], by decide⟩, [], 7, .at 0, fun _ => .at 0, _, _, rfl, fun _ _ => rfl,
      by simp [Action.keepsUnlimited, CallEnv.Allocates, CallEnv.at], rfl⟩
  refine ⟨_, rfl, _, Prod.ext (by decide +kernel) rfl, ?_⟩
  obtain ⟨merged, merges, _, recovers⟩ := @merged_log_recovers _ _ (.at 3) 5 20 reachable rfl
    (Prod.ext (by decide +kernel) rfl) (by decide) (by decide)
    (Each.tabulate (by decide +kernel)) (Each.tabulate (by decide +kernel))
    [⟨.op (.rpop (some ⟨[107], by decide⟩)), .at 4, 0⟩,
      ⟨.op (.set (some ⟨[109], by decide⟩) (some ⟨[97], by decide⟩)),
        { CallEnv.at 5 with io := .refused }, 0⟩,
      ⟨.op (.set (some ⟨[108], by decide⟩) (some ⟨[97], by decide⟩)), .at 6, 0⟩,
      ⟨.op (.pexpireat (some ⟨[108], by decide⟩) 900), .at 7, 0⟩]
    (by
      intro call member
      fin_cases member
      all_goals
        refine ⟨⟨_, rfl, ?_⟩, fun _ => rfl, Call.timely_op (by decide) ?_⟩
        all_goals simp [Op.value, Op.deadline, CString.IsField, lf, cr])
    1 (by decide) 9
  exact ⟨merged, merges, recovers⟩

end MiniKv
