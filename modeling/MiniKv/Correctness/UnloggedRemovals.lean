import MiniKv.Refinement.Runs
import MiniKv.Semantics.Drift

/-! Recovery in the presence of removals that no client asked for. Lookups, sweeps and evictions
remove entries without a record, and a replay applies all records at the time of recovery. What
the recovered store shows is what the live store shows as long as every step is faithful.
-/

namespace MiniKv

/-- The records that a call hands to the log. -/
def Call.records (call : Call) (store : Store) : List Record :=
  match call.action with
  | .op op =>
      (op.outcome store.table.maxCapacity store.aof.fp.isSome call.env.now
        store.table.logical).logged
  | .upkeep _ => []

/-- The keys that have drifted after a call. -/
def Call.drift (call : Call) (later : Int64) (store : Store) (drifted : Finset CString)
    : Finset CString :=
  driftAfter later store.table.logical (store.step call).2.table.logical (call.records store)
    drifted

/-- Maintenance that does not take anything away that would be visible later: an eviction takes an
entry whose deadline will have passed, no memory budget is introduced, and the log stays the
one that the calls write.
-/
def Upkeep.Faithful (upkeep : Upkeep) (later : Int64) (before after : LogicalMap) : Prop :=
  match upkeep with
  | .evictLru => ∀ key binding, before.lookup key = some binding → after.lookup key = none →
      binding.isExpired later = true
  | .setMemoryBudget budgetBytes => budgetBytes = 0
  | .mergeAofRewrite _ _ => False
  | _ => True

/-- A call whose effect can be seen in the recovered store: nothing fails, a line can hold its
value, its record fits the log writer and is faithful.
-/
structure Call.Faithful (call : Call) (later : Int64) (capacity : Nat) (store : Store)
    (drifted : Finset CString)
    : Prop where
  clean : call.env.Clean
  before : call.env.now ≤ later
  field : ∀ op value, call.action = .op op → op.value = some value → value.IsField
  fits : ∀ record ∈ call.records store, record.fits = true
  records : ∀ record ∈ call.records store,
    record.Faithful later capacity call.env.now store.table.logical drifted
  upkeep : ∀ upkeep, call.action = .upkeep upkeep →
    upkeep.Faithful later store.table.logical (store.step call).2.table.logical

/-- A run whose calls are all faithful to what has drifted before them. -/
def Store.FaithfulRun (later : Int64) (capacity : Nat)
    : Store → Finset CString → List Call → Prop
  | _, _, [] => True
  | store, drifted, call :: rest =>
      call.Faithful later capacity store drifted
        ∧ FaithfulRun later capacity (store.step call).2 (call.drift later store drifted) rest

theorem Call.faithful_op {op : Op} {now later : Int64} {prng : UInt32} {capacity : Nat}
    {store : Store} {drifted : Finset CString} (before : now ≤ later)
    (field : ∀ value, op.value = some value → value.IsField)
    (records : ∀ record ∈ (Call.mk (.op op) (.at now) prng).records store,
      record.fits = true ∧ record.Faithful later capacity now store.table.logical drifted)
    : (Call.mk (.op op) (.at now) prng).Faithful later capacity store drifted where
  clean := CallEnv.clean_at now
  before := before
  field other value same held := field value (Action.op.inj same ▸ held)
  fits record member := (records record member).1
  records record member := (records record member).2
  upkeep _ other := by simp at other

/-- The log holds readable records whose map relates to the live one. -/
structure Store.Follows (store : Store) (later : Int64) (capacity : Nat)
    (records : List Record) (drifted : Finset CString)
    : Prop where
  sound : store.Sound
  atEnd : store.aof.fp = some store.aof.log.length
  log : store.aof.log = encode records
  readable : ∀ record ∈ records, record.Readable
  relates : Drifted later store.table.logical (applyRecords capacity later records ∅) drifted

variable {store : Store} {later : Int64} {capacity : Nat} {records : List Record}
  {drifted : Finset CString} {call : Call}

/-- Faithful maintenance takes away only what will have expired. -/
theorem Upkeep.Faithful.loses {upkeep : Upkeep} {env : CallEnv} (wf : store.table.WellFormed)
    (before : env.now ≤ later)
    (faithful : upkeep.Faithful later store.table.logical (upkeep.call env store).2.table.logical)
    : LogicalMap.Loses store.table.logical (upkeep.call env store).2.table.logical
        (fun binding => binding.isExpired later = true) := by
  intro key
  rcases upkeep.call_loses env wf key with same | ⟨gone, binding, found, rfl | expired⟩
  · exact .inl same
  · exact .inr ⟨gone, binding, found, faithful key binding found gone⟩
  · exact .inr ⟨gone, binding, found, Binding.isExpired_mono before expired⟩

theorem Upkeep.call_stream {upkeep : Upkeep} {env : CallEnv} {before after : LogicalMap}
    (faithful : upkeep.Faithful later before after)
    : (upkeep.call env store).2.aof.fp = store.aof.fp
      ∧ (upkeep.call env store).2.aof.log = store.aof.log := by
  cases upkeep with
  | bgrewriteaof pid =>
      simp only [Upkeep.call, Prod.map_snd, id_eq, kvBgrewriteaof]
      split_ifs <;> exact ⟨rfl, rfl⟩
  | mergeAofRewrite childPid outcome => exact faithful.elim
  | _ => exact ⟨rfl, rfl⟩

/-- A faithful call adds its record to the log and keeps the maps related. -/
theorem Store.Follows.step (follows : store.Follows later capacity records drifted)
    (faithful : call.Faithful later capacity store drifted)
    : (store.step call).2.Follows later capacity (records ++ call.records store)
        (call.drift later store drifted) := by
  let drawn : Store := { store with table := { store.table with prng := call.prng } }
  have drawnWf : drawn.table.WellFormed := follows.sound.wellFormed.congr rfl rfl rfl
  have unlimited : drawn.table.maxMemoryBudget = 0 := follows.sound.unlimited
  have fits := faithful.fits
  have faithfulRecords := faithful.records
  rw [Call.drift]
  cases action : call.action with
  | op op =>
      have isMatch := @Op.call_matches drawn call.env op drawnWf unlimited faithful.clean
      have stepped : store.step call = op.call call.env drawn := by
        simp only [Store.step, action, drawn]
      have logged : call.records store
          = (op.outcome store.table.maxCapacity store.aof.fp.isSome call.env.now
              store.table.logical).logged := by
        simp only [Call.records, action]
      rw [stepped, isMatch.table.logical]
      rw [logged] at fits faithfulRecords ⊢
      have accounted := @Op.outcome_accounted store.table.logical store.table.maxCapacity
        call.env.now op store.aof.fp.isSome
      have carries := op.outcome_carries drawnWf.logical_valid
        (fun value held => faithful.field op value action held) store.table.maxCapacity
        store.aof.fp.isSome call.env.now
      obtain ⟨log, atEnd⟩ := isMatch.aof.log follows.atEnd
      refine ⟨⟨isMatch.table.wellFormed, isMatch.table.maxMemoryBudget.trans unlimited⟩, atEnd,
        ?_, ?_, ?_⟩
      · have whole : (op.outcome store.table.maxCapacity store.aof.fp.isSome call.env.now
            store.table.logical).logged.filter Record.fits = _ := List.filter_eq_self.mpr fits
        rw [log, encodeLogged_eq, encode_append]
        exact congrArg₂ (· ++ ·) follows.log (congrArg encode whole)
      · intro record member
        rcases List.mem_append.mp member with earlier | now
        · exact follows.readable record earlier
        · exact carries.1 record now
      · rw [isMatch.table.logical, applyRecords_append]
        exact follows.relates.operation faithful.before accounted faithfulRecords
  | upkeep upkeep =>
      have stepped : store.step call = upkeep.call call.env drawn := by
        simp only [Store.step, action, drawn]
      have nothing : call.records store = [] := by
        simp only [Call.records, action]
      have allowed := faithful.upkeep upkeep action
      have keeps : (Action.upkeep upkeep).keepsUnlimited = true := by
        cases upkeep with
        | setMemoryBudget budgetBytes =>
            have zero : budgetBytes = 0 := allowed
            simp [Action.keepsUnlimited, zero]
        | _ => rfl
      have sound := (@Store.Sound.step store follows.sound call (action ▸ keeps)).1
      rw [stepped] at allowed sound ⊢
      have loses := @Upkeep.Faithful.loses drawn later upkeep call.env drawnWf faithful.before
        allowed
      obtain ⟨fp, log⟩ := @Upkeep.call_stream drawn later upkeep call.env _ _ allowed
      rw [nothing, List.append_nil]
      refine ⟨sound, ?_, log.trans follows.log, follows.readable, ?_⟩
      · rw [fp, log]
        exact follows.atEnd
      · exact follows.relates.loses loses

theorem Store.Follows.run {calls : List Call}
    (follows : store.Follows later capacity records drifted)
    (faithful : store.FaithfulRun later capacity drifted calls)
    : ∃ records drifted, (store.run calls).2.Follows later capacity records drifted := by
  induction calls generalizing store records drifted with
  | nil => exact ⟨records, drifted, follows⟩
  | cons call rest ih => exact ih (follows.step faithful.1) faithful.2

/-- Where a run may start: with a store that was opened on an empty log, or with one whose log
relates to its map. The latter is so after a restart whose log replays to the live map, from the
first record on; before it the stream reports position 0.
-/
inductive Store.Begins (later : Int64) (capacity : Nat) : Store → Finset CString → Prop where
  | opened {bucketCount maxCapacity : Nat} {path : CString} {prng : UInt32} {env : CallEnv}
      {lineEnvs : Nat → CallEnv} {start : Store} (clean : env.Clean)
      (opened : kvInitFull bucketCount maxCapacity 0 (some path) [] prng env lineEnvs = .ok start)
      : Begins later capacity start ∅
  | recorded {start : Store} {records : List Record} {drifted : Finset CString}
      (follows : start.Follows later capacity records drifted)
      : Begins later capacity start drifted

theorem Store.Begins.follows (begins : Store.Begins later capacity store drifted)
    : ∃ records, store.Follows later capacity records drifted := by
  cases begins with
  | recorded follows => exact ⟨_, follows⟩
  | @opened _ maxCapacity path prng _ lineEnvs _ clean opened =>
      obtain ⟨positive, _⟩ := kvInitFull_ok opened
      obtain ⟨other, otherOpened, blank⟩ :=
        kvInitFull_blank positive maxCapacity path prng clean lineEnvs
      obtain rfl := Except.ok.inj (opened.symm.trans otherOpened)
      refine ⟨[], ⟨blank.wellFormed, blank.unlimited⟩, ?_, blank.log, by simp, ?_⟩
      · rw [blank.atStart, blank.log, List.length_nil]
      · rw [blank.logical]
        exact ⟨fun _ _ => rfl, by simp, by simp⟩

/-- After every faithful run on a store that was opened on an empty log, or whose log relates to its
map, what the store that is recovered at the time `later` shows is what the live store shows then.
Witness: the live map and the map of the log agree except on drifted keys, which neither shows.
-/
theorem replay_shows_live {replayBuckets replayCapacity : Nat} {replayTime : Int64} {start : Store}
    {drifted : Finset CString} (begins : Store.Begins replayTime replayCapacity start drifted)
    (replayPositive : 0 < replayBuckets) (replayPrng : UInt32) (calls : List Call)
    (faithful : start.FaithfulRun replayTime replayCapacity drifted calls) (key : CString)
    : LogicalMap.visible
        (recoveredMap replayBuckets replayCapacity replayPrng replayTime
          (start.run calls).2.aof.log) replayTime key
      = LogicalMap.visible (start.run calls).2.table.logical replayTime key := by
  obtain ⟨_, follows⟩ := begins.follows
  obtain ⟨records, drifted, last⟩ := follows.run faithful
  rw [last.log, recoveredMap_encode replayPositive replayCapacity replayPrng replayTime
    last.readable]
  exact last.relates.visible key

/-- A string expires and is swept, and a list takes its place. -/
theorem replay_shows_live_swept
    : ∃ start, kvInitFull 1 0 0 (some ⟨[97], by decide⟩) [] 7 (.at 0) (fun _ => .at 0)
          = .ok start
        ∧ LogicalMap.visible
            (recoveredMap 1 0 7 20
              (start.run
                [⟨.op (.set (some ⟨[107], by decide⟩) (some ⟨[97], by decide⟩)), .at 1, 0⟩,
                  ⟨.op (.pexpireat (some ⟨[107], by decide⟩) 5), .at 2, 0⟩,
                  ⟨.upkeep (.expireSampleSweep 100 10), .at 10, 9⟩,
                  ⟨.op (.lpush (some ⟨[107], by decide⟩) (some ⟨[98], by decide⟩)), .at 11, 0⟩]
                ).2.aof.log) 20 ⟨[107], by decide⟩
          = LogicalMap.visible
              (start.run
                [⟨.op (.set (some ⟨[107], by decide⟩) (some ⟨[97], by decide⟩)), .at 1, 0⟩,
                  ⟨.op (.pexpireat (some ⟨[107], by decide⟩) 5), .at 2, 0⟩,
                  ⟨.upkeep (.expireSampleSweep 100 10), .at 10, 9⟩,
                  ⟨.op (.lpush (some ⟨[107], by decide⟩) (some ⟨[98], by decide⟩)), .at 11, 0⟩]
                ).2.table.logical 20 ⟨[107], by decide⟩ := by
  refine ⟨_, rfl, ?_⟩
  refine @replay_shows_live 1 0 20 _ ∅ (@Store.Begins.opened 20 0 1 0 ⟨[97], by decide⟩ 7 (.at 0)
    (fun _ => .at 0) _ (CallEnv.clean_at 0) rfl) (by decide) 7 _ ?_ _
  refine ⟨Call.faithful_op (by decide) ?_ (by decide +kernel),
    Call.faithful_op (by decide) ?_ (by decide +kernel), ?_,
    Call.faithful_op (by decide) ?_ (by decide +kernel), trivial⟩
  · simp [Op.value, CString.IsField, lf, cr]
  · simp [Op.value]
  · exact ⟨CallEnv.clean_at 10, by decide, by simp, by simp [Call.records],
      by simp [Call.records], by simp [Upkeep.Faithful]⟩
  · simp [Op.value, CString.IsField, lf, cr]

/-- A string expires, is removed by a lookup and set again: the live store shows the new value,
but in the recovered store it has the old deadline. An evicted string comes back.
-/
theorem replay_differs_after_removal
    : ∃ start, kvInitFull 1 0 0 (some ⟨[97], by decide⟩) [] 7 (.at 0) (fun _ => .at 0)
          = .ok start
        ∧ (let final := (start.run
              [⟨.op (.set (some ⟨[107], by decide⟩) (some ⟨[97], by decide⟩)), .at 1, 0⟩,
                ⟨.op (.pexpireat (some ⟨[107], by decide⟩) 5), .at 2, 0⟩,
                ⟨.op (.get (some ⟨[107], by decide⟩)), .at 10, 0⟩,
                ⟨.op (.set (some ⟨[107], by decide⟩) (some ⟨[98], by decide⟩)), .at 11, 0⟩]).2
          LogicalMap.visible final.table.logical 12 ⟨[107], by decide⟩
              = some (.string ⟨[98], by decide⟩)
            ∧ LogicalMap.visible (recoveredMap 1 0 7 12 final.aof.log) 12 ⟨[107], by decide⟩
              = none)
        ∧ (let final := (start.run
              [⟨.op (.set (some ⟨[107], by decide⟩) (some ⟨[97], by decide⟩)), .at 1, 0⟩,
                ⟨.upkeep .evictLru, .at 2, 9⟩]).2
          LogicalMap.visible final.table.logical 12 ⟨[107], by decide⟩ = none
            ∧ LogicalMap.visible (recoveredMap 1 0 7 12 final.aof.log) 12 ⟨[107], by decide⟩
              = some (.string ⟨[97], by decide⟩)) := by
  refine ⟨_, rfl, ⟨?_, ?_⟩, ?_, ?_⟩
  · decide +kernel
  · decide +kernel
  · decide +kernel
  · decide +kernel

end MiniKv
