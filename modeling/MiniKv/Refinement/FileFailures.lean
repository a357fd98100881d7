import MiniKv.Invariants.Files
import MiniKv.Refinement.Replay
import MiniKv.Semantics.Occupied

/-! Calls whose file operations fail. The table and the rewrite buffer do not notice, except that
`kv_set` and `kv_delete` give up when their record cannot be written.
-/

namespace MiniKv

variable {store : Store} {env : CallEnv}

-- Forgetting the log file

/-- The append-only file without the contents of the log and what was broadcast; whether a stream
is open stays.
-/
def Aof.forgetLog (aof : Aof) : Aof :=
  { aof with fp := aof.fp.map (fun _ => 0), log := [], broadcasts := [] }

def Store.forgetLog (store : Store) : Store :=
  { store with aof := store.aof.forgetLog }

theorem Store.table_of_forgetLog {other : Store} (same : store.forgetLog = other.forgetLog)
    : store.table = other.table := by
  have tables : store.forgetLog.table = other.forgetLog.table := congrArg Store.table same
  exact tables

theorem Store.aof_of_forgetLog {other : Store} (same : store.forgetLog = other.forgetLog)
    : store.aof.forgetLog = other.aof.forgetLog := by
  have files : store.forgetLog.aof = other.forgetLog.aof := congrArg Store.aof same
  exact files

/-- The same call with a file system that works. -/
def CallEnv.withFiles (env : CallEnv) : CallEnv :=
  { env with io := .ok }

theorem CallEnv.Allocates.clean (allocates : env.Allocates) : env.withFiles.Clean :=
  ⟨allocates, rfl⟩

theorem CallEnv.withFiles_of_ok (works : env.io = .ok) : env.withFiles = env := by
  obtain ⟨now, alloc, io⟩ := env
  obtain rfl : io = .ok := works
  rfl

@[simp]
theorem Aof.forgetLog_writeAofRecord (aof : Aof) (record : List UInt8) (io : IoOutcome)
    : (aof.writeAofRecord record io).2.2.forgetLog = aof.forgetLog := by
  have opened : ∀ {pos : Nat}, aof.fp = some pos → ∀ log fp broadcasts,
      Aof.forgetLog { aof with log, fp := some fp, broadcasts } = aof.forgetLog := by
    intro pos isOpen log fp broadcasts
    simp only [Aof.forgetLog, isOpen, Option.map_some]
  simp only [Aof.writeAofRecord]
  by_cases fits : record.length < aofRecordBufSize
  · simp only [fits, if_true]
    split
    · rfl
    · next pos isOpen =>
        cases io with
        | refused => rfl
        | ok => exact opened isOpen _ _ _
        | failed written => exact opened isOpen _ _ _
  · simp only [fits, if_false]
    split
    · rfl
    · cases io <;> rfl

@[simp]
theorem Aof.forgetLog_logAfter (aof : Aof) (record : List UInt8) (env : CallEnv)
    : (aof.logAfter record env).forgetLog = aof.forgetLog := by
  rw [Aof.logAfter]
  split
  · rfl
  · exact aof.forgetLog_writeAofRecord record env.io

@[simp]
theorem Aof.forgetLog_rollbackAofRecord (aof : Aof) (pos : Option Nat)
    : (aof.rollbackAofRecord pos).forgetLog = aof.forgetLog := by
  cases opened : aof.fp with
  | none => simp only [Aof.rollbackAofRecord, opened]
  | some old =>
      cases pos with
      | none => simp only [Aof.rollbackAofRecord, opened]
      | some pos => simp only [Aof.rollbackAofRecord, Aof.forgetLog, opened, Option.map_some]

/-- Appending to the rewrite buffer does not look at the log. -/
theorem Aof.forgetLog_appendAofRewriteBuffer (aof : Aof) (data : List UInt8) (allocated : Bool)
    : (aof.appendAofRewriteBuffer data allocated).forgetLog
      = aof.forgetLog.appendAofRewriteBuffer data allocated := by
  by_cases skipped : data = [] ∨ aof.rewritePid ≤ 0
  · have still : data = [] ∨ aof.forgetLog.rewritePid ≤ 0 := skipped
    rw [Aof.appendAofRewriteBuffer, if_pos skipped, Aof.appendAofRewriteBuffer, if_pos still]
  · have still : ¬ (data = [] ∨ aof.forgetLog.rewritePid ≤ 0) := skipped
    rw [Aof.appendAofRewriteBuffer, if_neg skipped, Aof.appendAofRewriteBuffer, if_neg still]
    have same : aof.forgetLog.rewriteBuf = aof.rewriteBuf := rfl
    have len : aof.forgetLog.rewriteBufLen = aof.rewriteBufLen := rfl
    have cap : aof.forgetLog.rewriteBufCap = aof.rewriteBufCap := rfl
    rw [same, len, cap]
    split
    · cases allocated <;> rfl
    · by_cases enough : aof.rewriteBufLen + data.length ≤ aof.rewriteBufCap
      · rw [if_pos enough, if_pos enough]
        rfl
      · rw [if_neg enough, if_neg enough]
        split
        · rfl
        · cases allocated <;> rfl

@[simp]
theorem Aof.forgetLog_appendFragments (aof : Aof) (env : CallEnv)
    (fragments : List (List UInt8)) (nth : Nat)
    : (aof.appendFragments env fragments nth).forgetLog
      = aof.forgetLog.appendFragments env fragments nth := by
  induction fragments generalizing aof nth with
  | nil => rfl
  | cons data rest ih =>
      rw [Aof.appendFragments, Aof.appendFragments, ih, Aof.forgetLog_appendAofRewriteBuffer]

@[simp]
theorem Aof.appendFragments_withFiles (aof : Aof) (env : CallEnv)
    (fragments : List (List UInt8)) (nth : Nat)
    : aof.appendFragments env.withFiles fragments nth
      = aof.appendFragments env fragments nth := by
  induction fragments generalizing aof nth with
  | nil => rfl
  | cons data rest ih => exact ih _ _

-- Each operation with and without failing files

theorem kvSetInternal_withFiles (key value : Option CString)
    : kvSetInternal store key value env.withFiles = kvSetInternal store key value env := by
  simp only [kvSetInternal, Aof.appendFragments_withFiles]
  rfl

theorem kvDeleteInternal_withFiles (key : Option CString) (nth : Nat)
    : kvDeleteInternal store key env.withFiles nth = kvDeleteInternal store key env nth := by
  simp only [kvDeleteInternal, Aof.appendFragments_withFiles]

theorem kvDeleteInternal_forgetLog (key : Option CString) (nth : Nat)
    : (kvDeleteInternal store key env nth).2.forgetLog
      = (kvDeleteInternal store.forgetLog key env nth).2 := by
  simp only [kvDeleteInternal, Store.forgetLog]
  split
  · rfl
  · split
    · rfl
    · simp only [Aof.forgetLog_appendFragments]

theorem kvLpush_forgetLog (key value : Option CString)
    : (kvLpush store key value env).2.forgetLog
      = (kvLpush store key value env.withFiles).2.forgetLog := by
  have table : ∀ key value, store.table.lpush key value env.withFiles
      = store.table.lpush key value env := fun _ _ => rfl
  simp only [kvLpush, table]
  split
  · rfl
  · rfl
  · split
    · rfl
    · rfl
    · split
      · simp [Store.forgetLog]
      · rfl

theorem kvSadd_forgetLog (key value : Option CString)
    : (kvSadd store key value env).2.forgetLog
      = (kvSadd store key value env.withFiles).2.forgetLog := by
  have table : ∀ key value, store.table.sadd key value env.withFiles
      = store.table.sadd key value env := fun _ _ => rfl
  simp only [kvSadd, table]
  split
  · rfl
  · rfl
  · split
    · rfl
    · rfl
    · split
      · simp [Store.forgetLog]
      · rfl

theorem kvRpop_forgetLog (key : Option CString)
    : (kvRpop store key env).2.forgetLog = (kvRpop store key env.withFiles).2.forgetLog := by
  have now : env.withFiles.now = env.now := rfl
  have alloc : env.withFiles.alloc = env.alloc := rfl
  simp only [kvRpop, now, alloc]
  split
  · rfl
  · split
    · rfl
    · split
      · split
        · rfl
        · split_ifs
          · rfl
          · rfl
          · rw [kvDeleteInternal_withFiles, kvDeleteInternal_forgetLog, kvDeleteInternal_forgetLog]
            simp [Store.forgetLog]
          · simp [Store.forgetLog]
      · rfl

theorem kvSrem_forgetLog (key value : Option CString)
    : (kvSrem store key value env).2.forgetLog
      = (kvSrem store key value env.withFiles).2.forgetLog := by
  have now : env.withFiles.now = env.now := rfl
  simp only [kvSrem, now]
  split
  · rfl
  · rfl
  · split
    · rfl
    · split
      · split_ifs
        · rfl
        · rw [kvDeleteInternal_withFiles, kvDeleteInternal_forgetLog, kvDeleteInternal_forgetLog]
          simp [Store.forgetLog]
        · simp [Store.forgetLog]
        · rfl
      · rfl

theorem kvPexpireat_forgetLog (key : Option CString) (unixMs : Int64)
    : (kvPexpireat store key unixMs env).2.forgetLog
      = (kvPexpireat store key unixMs env.withFiles).2.forgetLog := by
  have now : env.withFiles.now = env.now := rfl
  simp only [kvPexpireat, now]
  split
  · rfl
  · split
    · rfl
    · simp [Store.forgetLog]

theorem kvPersist_forgetLog (key : Option CString)
    : (kvPersist store key env).2.forgetLog
      = (kvPersist store key env.withFiles).2.forgetLog := by
  have now : env.withFiles.now = env.now := rfl
  simp only [kvPersist, now]
  split
  · rfl
  · split
    · rfl
    · split
      · rfl
      · simp [Store.forgetLog]

theorem Aof.writeAofRecord_failed {aof : Aof} {pos : Nat} {io : IoOutcome}
    (opened : aof.fp = some pos) (fails : io ≠ .ok) (record : List UInt8)
    : (aof.writeAofRecord record io).1 = kvErrIo := by
  simp only [Aof.writeAofRecord]
  by_cases fits : record.length < aofRecordBufSize
  · simp only [fits, if_true, opened]
    cases io with
    | ok => contradiction
    | refused => rfl
    | failed written => rfl
  · simp only [fits, if_false, opened]
    cases io with
    | ok => contradiction
    | refused => rfl
    | failed written => rfl

/-- `kv_set` with a failing file does what it does otherwise, or only grows the table. -/
theorem kvSet_forgetLog (key value : Option CString)
    : (kvSet store key value env).2.forgetLog
        = (kvSet store key value env.withFiles).2.forgetLog
      ∨ (kvSet store key value env).2.forgetLog
        = { store.forgetLog with table := store.table.growIfLoaded env } := by
  by_cases works : env.io = .ok
  · rw [CallEnv.withFiles_of_ok works]
    exact .inl rfl
  · have grown : store.table.growIfLoaded env.withFiles = store.table.growIfLoaded env := rfl
    simp only [kvSet, grown, kvSetInternal_withFiles]
    split
    · exact .inl rfl
    · split
      · exact .inl rfl
      · cases opened : store.aof.fp with
        | none =>
            simp only [if_true]
            exact .inl trivial
        | some pos =>
            right
            simp [Aof.writeAofRecord_failed opened works, kvErrIo, kvOk, Store.forgetLog]

theorem kvDelete_forgetLog (key : Option CString)
    : (kvDelete store key env).2.forgetLog = (kvDelete store key env.withFiles).2.forgetLog
      ∨ (kvDelete store key env).2.forgetLog = store.forgetLog := by
  by_cases works : env.io = .ok
  · rw [CallEnv.withFiles_of_ok works]
    exact .inl rfl
  · simp only [kvDelete, kvDeleteInternal_withFiles]
    split
    · exact .inl rfl
    · cases opened : store.aof.fp with
      | none =>
          simp only [if_true]
          exact .inl trivial
      | some pos =>
          right
          simp [Aof.writeAofRecord_failed opened works, kvErrIo, kvOk, Store.forgetLog]

/-- An operation whose file operations may fail leaves the table and the rewrite buffer that it
leaves otherwise, or keeps them and at most grows the bucket array.
-/
theorem Op.call_forgetLog (op : Op)
    : (op.call env store).2.forgetLog = (op.call env.withFiles store).2.forgetLog
      ∨ ∃ table, (table = store.table ∨ table = store.table.growIfLoaded env)
          ∧ (op.call env store).2.forgetLog = { store.forgetLog with table } := by
  cases op with
  | set key value =>
      rcases @kvSet_forgetLog store env key value with same | refused
      · exact .inl same
      · exact .inr ⟨_, .inr rfl, refused⟩
  | delete key =>
      rcases @kvDelete_forgetLog store env key with same | refused
      · exact .inl same
      · exact .inr ⟨_, .inl rfl, refused⟩
  | lpush key value => exact .inl (kvLpush_forgetLog key value)
  | rpop key => exact .inl (kvRpop_forgetLog key)
  | sadd key value => exact .inl (kvSadd_forgetLog key value)
  | srem key value => exact .inl (kvSrem_forgetLog key value)
  | pexpireat key unixMs => exact .inl (kvPexpireat_forgetLog key unixMs)
  | expire key seconds => exact .inl (kvPexpireat_forgetLog key _)
  | pexpire key milliseconds => exact .inl (kvPexpireat_forgetLog key _)
  | persist key => exact .inl (kvPersist_forgetLog key)
  | get key | exist key | llen key | scard key | smembers key | pttl key | ttl key =>
      exact .inl rfl
  | resize newBucketCount => exact .inl rfl

-- What a call adds to the rewrite buffer

/-- (Collects before after buffered) says what a call without failing allocations does to a
running rewrite: the buffer gets `buffered`, and the rest stays.
-/
structure Aof.Collects (before after : Aof) (buffered : List UInt8) : Prop where
  path : after.path = before.path
  rewritePid : after.rewritePid = before.rewritePid
  rewriteTmp : after.rewriteTmp = before.rewriteTmp
  ready : before.BufferReady → after.BufferReady
  buffer : before.BufferReady → 0 < before.rewritePid →
    after.rewriteBuffer = before.rewriteBuffer ++ buffered

theorem Aof.BufferReady.of_forgetLog {aof other : Aof} (ready : aof.BufferReady)
    (same : other.forgetLog = aof.forgetLog)
    : other.BufferReady := by
  have still : aof.forgetLog.BufferReady := ready
  rw [← same] at still
  exact still

/-- A property of the rewrite buffer that lasts over every history: appending keeps it, it holds
without a buffer, and it is kept when a rewrite starts and when it ends.
-/
structure Aof.Lasting (Property : Aof → Prop) : Prop where
  congr : ∀ {aof other : Aof}, Property aof → other.rewritePid = aof.rewritePid →
    other.rewriteBuf = aof.rewriteBuf → other.rewriteBufLen = aof.rewriteBufLen →
    other.rewriteBufCap = aof.rewriteBufCap → Property other
  fresh : ∀ {aof : Aof}, aof.rewriteBuf = none → aof.rewriteBufLen = 0 → Property aof
  append : ∀ aof data allocated, Property aof →
    Property (aof.appendAofRewriteBuffer data allocated)
  start : ∀ {aof : Aof} (pid : Int), ¬ 0 < aof.rewritePid → Property aof →
    Property { aof with
      rewriteBufLen := if aof.rewriteBuf = none then aof.rewriteBufLen else 0
      rewritePid := pid }
  finish : ∀ {aof : Aof}, Property aof → Property { aof with rewritePid := 0, rewriteBufLen := 0 }

section

variable {Property : Aof → Prop}

theorem Aof.Lasting.of_forgetLog (lasting : Aof.Lasting Property) {aof other : Aof}
    (same : other.forgetLog = aof.forgetLog) (holds : Property aof)
    : Property other := by
  have pid := congrArg Aof.rewritePid same
  have buf := congrArg Aof.rewriteBuf same
  have len := congrArg Aof.rewriteBufLen same
  have cap := congrArg Aof.rewriteBufCap same
  exact lasting.congr holds pid buf len cap

theorem Aof.Lasting.stable (lasting : Aof.Lasting Property) : Aof.Stable Property where
  append := lasting.append
  write aof record io holds :=
    lasting.of_forgetLog (aof.forgetLog_writeAofRecord record io) holds
  rollback aof pos holds := lasting.of_forgetLog (aof.forgetLog_rollbackAofRecord pos) holds

theorem Upkeep.call_lasting (lasting : Aof.Lasting Property) (upkeep : Upkeep)
    (holds : Property store.aof)
    : Property (upkeep.call env store).2.aof := by
  cases upkeep with
  | discardAofRewrite => exact lasting.fresh rfl rfl
  | bgrewriteaof pid =>
      simp only [Upkeep.call, Prod.map_snd, id_eq, kvBgrewriteaof]
      split
      · exact holds
      · split
        · exact holds
        · next idle =>
            have started := fun pid => lasting.start pid (not_or.mp idle).2 holds
            split
            · exact started store.aof.rewritePid
            · exact lasting.congr (started pid) rfl rfl rfl rfl
  | mergeAofRewrite childPid outcome =>
      have ended := lasting.finish holds
      simp only [Upkeep.call, Prod.map_snd, id_eq, kvMergeAofRewrite]
      split_ifs
      · exact holds
      · exact holds
      · cases outcome <;> exact lasting.congr ended rfl rfl rfl rfl
  | _ => exact holds

/-- A lasting property holds of an opened store, whatever log is replayed. -/
theorem kvInitFull_lasting (lasting : Aof.Lasting Property)
    {bucketCount maxCapacity maxMemoryBudget : Nat} {path : Option CString} {log : List UInt8}
    {prng : UInt32} {lineEnvs : Nat → CallEnv}
    (opened : kvInitFull bucketCount maxCapacity maxMemoryBudget path log prng env lineEnvs
      = .ok store)
    : Property store.aof := by
  let fresh := Store.fresh bucketCount maxCapacity maxMemoryBudget prng log
  rcases (kvInitFull_ok opened).2 with ⟨_, rfl⟩ | ⟨name, _, rfl⟩
  · exact lasting.fresh rfl rfl
  · have holds := @replayLines_stable Property
      ⟨fresh.table.charge (name.length + 1), { fresh.aof with path := some name }⟩
      lasting.stable lineEnvs (readLines log) 0 (lasting.fresh rfl rfl)
    exact lasting.congr holds rfl rfl rfl rfl

end

theorem Aof.bufferReady_lasting : Aof.Lasting Aof.BufferReady where
  congr ready _ sameBuf sameLen sameCap buffer held := by
    rw [sameLen, sameCap]
    exact ready buffer (sameBuf ▸ held)
  fresh missing _ buffer held := by
    rw [missing] at held
    contradiction
  append _ data allocated ready := ready.append data allocated
  start _ _ ready buffer held := by
    refine ⟨?_, (ready buffer held).2⟩
    dsimp only at held ⊢
    simp only [held, reduceCtorEq, if_false, Nat.zero_le]
  finish ready buffer held := ⟨Nat.zero_le _, (ready buffer held).2⟩

/-- Only what is left without the log matters. -/
theorem Aof.Collects.of_forgetLog {before after other : Aof} {buffered : List UInt8}
    (collects : before.Collects other buffered) (same : after.forgetLog = other.forgetLog)
    : before.Collects after buffered where
  path := (congrArg Aof.path same).trans collects.path
  rewritePid := (congrArg Aof.rewritePid same).trans collects.rewritePid
  rewriteTmp := (congrArg Aof.rewriteTmp same).trans collects.rewriteTmp
  ready ready := (collects.ready ready).of_forgetLog same
  buffer ready running :=
    (congrArg Aof.rewriteBuffer same).trans (collects.buffer ready running)

theorem Aof.Extends.collects {before after : Aof} {logged buffered : List UInt8}
    (becomes : before.Extends after logged buffered)
    : before.Collects after buffered :=
  ⟨becomes.path, becomes.rewritePid, becomes.rewriteTmp, becomes.ready, becomes.buffer⟩

/-- Without a memory budget and failing allocations, an operation does to the table and the
rewrite buffer what the logical machine does, or nothing because its record was not written.
-/
theorem Op.call_collects (op : Op) (wf : store.table.WellFormed)
    (unlimited : store.table.maxMemoryBudget = 0) (allocates : env.Allocates)
    : ∃ outcome : Outcome,
        (outcome = op.outcome store.table.maxCapacity store.aof.fp.isSome env.now
            store.table.logical
          ∨ ∃ reply, outcome = .silent reply store.table.logical)
        ∧ store.table.Becomes (op.call env store).2.table outcome.map
        ∧ store.aof.Collects (op.call env store).2.aof (encode outcome.buffered) := by
  rcases op.call_forgetLog with same | ⟨table, shape, same⟩
  · have isMatch := op.call_matches wf unlimited allocates.clean
    refine ⟨_, .inl rfl, ?_,
      isMatch.aof.collects.of_forgetLog (Store.aof_of_forgetLog same)⟩
    rw [Store.table_of_forgetLog same]
    exact isMatch.table
  · have kept : (op.call env store).2.forgetLog = (Store.mk table store.aof).forgetLog := same
    have keptFiles := Store.aof_of_forgetLog kept
    refine ⟨.silent .done store.table.logical, .inr ⟨_, rfl⟩, ?_,
      (Aof.Extends.refl store.aof).collects.of_forgetLog keptFiles⟩
    rw [Store.table_of_forgetLog kept]
    rcases shape with rfl | rfl
    · exact .refl wf
    · exact wf.growIfLoaded env

-- Stores that no failing allocation has touched

/-- What every call keeps when no budget is introduced and no allocation fails. -/
structure Store.Steady (store : Store) : Prop where
  sound : store.Sound
  ready : store.aof.BufferReady
  occupied : store.table.logical.Occupied

theorem LogicalMap.Occupied.loses {before after : LogicalMap} {Lost : Binding → Prop}
    (occupied : before.Occupied) (loses : LogicalMap.Loses before after Lost)
    : after.Occupied := by
  intro key binding bound
  rcases loses key with same | ⟨gone, _⟩
  · exact occupied key binding (same ▸ bound)
  · rw [gone] at bound
    contradiction

theorem Store.Steady.step (steady : store.Steady) {call : Call}
    (keeps : call.action.keepsUnlimited = true) (allocates : call.env.Allocates)
    : (store.step call).2.Steady := by
  have sound := (@Store.Sound.step store steady.sound call keeps).1
  let drawn : Store := { store with table := { store.table with prng := call.prng } }
  have drawnWf : drawn.table.WellFormed := steady.sound.wellFormed.congr rfl rfl rfl
  cases action : call.action with
  | op op =>
      have stepped : store.step call = op.call call.env drawn := by
        simp only [Store.step, action, drawn]
      rw [stepped] at sound ⊢
      obtain ⟨outcome, shape, becomes, collects⟩ :=
        @Op.call_collects drawn call.env op drawnWf steady.sound.unlimited allocates
      refine ⟨sound, collects.ready steady.ready, ?_⟩
      rw [becomes.logical]
      rcases shape with rfl | ⟨reply, rfl⟩
      · exact op.outcome_occupied steady.occupied _ _ _
      · exact steady.occupied
  | upkeep upkeep =>
      have stepped : store.step call = upkeep.call call.env drawn := by
        simp only [Store.step, action, drawn]
      rw [stepped] at sound ⊢
      exact ⟨sound,
        @Upkeep.call_lasting drawn call.env _ Aof.bufferReady_lasting upkeep steady.ready,
        LogicalMap.Occupied.loses steady.occupied
          (@Upkeep.call_loses drawn upkeep call.env drawnWf)⟩

/-- The table after replaying a record does not depend on the file system. -/
theorem applyRecord_withFiles (record : Record)
    : (applyRecord store record env).table = (applyRecord store record env.withFiles).table := by
  cases record with
  | set key value =>
      exact congrArg (fun result => result.2.table) (kvSetInternal_withFiles _ _).symm
  | delete key =>
      exact congrArg (fun result => result.2.table) (kvDeleteInternal_withFiles _ _).symm
  | lpush key value => exact Store.table_of_forgetLog (kvLpush_forgetLog _ _)
  | rpop key => exact Store.table_of_forgetLog (kvRpop_forgetLog _)
  | sadd key value => exact Store.table_of_forgetLog (kvSadd_forgetLog _ _)
  | srem key value => exact Store.table_of_forgetLog (kvSrem_forgetLog _ _)
  | pexpireat key expireAtMs => rfl

/-- Replaying lines creates no empty container. -/
theorem replayLines_occupied {envs : Nat → CallEnv} (allocates : ∀ nth, (envs nth).Allocates)
    (lines : List (List UInt8)) (nth : Nat) (sound : store.Sound)
    (occupied : store.table.logical.Occupied)
    : (replayLines envs lines nth store).table.logical.Occupied := by
  have applies : ∀ (store : Store) (line : List UInt8) (record : Record) (nth : Nat),
      parseLine line = some record → store.Sound ∧ store.table.logical.Occupied →
      (applyRecord store record (envs nth)).Sound
        ∧ (applyRecord store record (envs nth)).table.logical.Occupied := by
    rintro store line record nth parsed ⟨sound, occupied⟩
    have becomes := applyRecord_becomes sound.wellFormed sound.unlimited
      (allocates nth).clean (parseLine_valid parsed)
    rw [← applyRecord_withFiles] at becomes
    refine ⟨⟨becomes.wellFormed, becomes.maxMemoryBudget.trans sound.unlimited⟩, ?_⟩
    rw [becomes.logical]
    exact record.apply_occupied occupied _ _
  exact (replayLines_keeps applies lines nth ⟨sound, occupied⟩).2

theorem kvInitFull_steady {bucketCount maxCapacity : Nat} {path : Option CString}
    {log : List UInt8} {prng : UInt32} {lineEnvs : Nat → CallEnv}
    (opened : kvInitFull bucketCount maxCapacity 0 path log prng env lineEnvs = .ok store)
    (allocates : ∀ nth, (lineEnvs nth).Allocates)
    : store.Steady := by
  have sound := kvInitFull_sound opened
  obtain ⟨positive, shape⟩ := kvInitFull_ok opened
  have fresh := Store.fresh_wellFormed positive maxCapacity 0 prng log
  have freshOccupied : (Store.fresh bucketCount maxCapacity 0 prng log).table.logical.Occupied := by
    rw [Store.fresh_logical]
    exact LogicalMap.Occupied.empty
  refine ⟨sound, kvInitFull_lasting Aof.bufferReady_lasting opened, ?_⟩
  rcases shape with ⟨_, rfl⟩ | ⟨name, _, rfl⟩
  · exact freshOccupied
  · have charged := ((Table.Becomes.refl fresh).charge (name.length + 1))
    exact @replayLines_occupied ⟨_, _⟩ lineEnvs allocates (readLines log) 0
      ⟨charged.wellFormed, charged.maxMemoryBudget⟩ (charged.logical ▸ freshOccupied)

theorem Store.Reachable.steady (reachable : store.Reachable CallEnv.Allocates)
    : store.Steady := by
  obtain ⟨_, _, _, _, _, _, _, start, calls, opened, lines, allowed, rfl⟩ := reachable
  exact @Foundations.Runs.run_invariant _ _ _ Store.step
    (fun call => call.action.keepsUnlimited = true ∧ call.env.Allocates) Store.Steady
    (fun _ _ steady allowed => steady.step allowed.1 allowed.2) start
    (kvInitFull_steady opened lines) calls allowed

end MiniKv
