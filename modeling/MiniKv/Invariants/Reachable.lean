import MiniKv.Invariants.Operations

/-! The representation invariant over whole runs: it holds when a store is opened on any log, and
every call keeps it.
-/

namespace MiniKv

open MiniKv.Foundations.ChainedTable
open MiniKv.Foundations.DoublyLinked

variable {store : Store}

-- One call

/-- The operations that may insert an entry or replace the bucket array. -/
def Op.mayGrow : Op → Bool
  | .set _ _ | .lpush _ _ | .sadd _ _ | .resize _ => true
  | _ => false

theorem Op.call_quiet {op : Op} (calm : op.mayGrow = false) (env : CallEnv)
    (wf : store.table.WellFormed)
    : store.table.QuietPath (op.call env store).2.table := by
  cases op with
  | set _ _ | lpush _ _ | sadd _ _ | resize _ => simp [Op.mayGrow] at calm
  | get key => exact kvGet_quiet wf key env
  | delete key => exact kvDelete_quiet store key env
  | exist key => exact kvExists_quiet store key env
  | rpop key => exact kvRpop_quiet wf key env
  | llen key => exact kvLlen_quiet wf key env
  | srem key value => exact kvSrem_quiet wf key value env
  | scard key => exact kvScard_quiet wf key env
  | smembers key => exact kvSmembers_quiet wf key env
  | pexpireat key unixMs => exact kvPexpireat_quiet store key unixMs env
  | expire key seconds => exact kvPexpireat_quiet store key _ env
  | pexpire key milliseconds => exact kvPexpireat_quiet store key _ env
  | pttl key => exact kvPttl_quiet store key env
  | ttl key => exact kvTtl_quiet store key env
  | persist key => exact kvPersist_quiet store key env

/-- The values an operation may store. -/
def Op.stored : Op → List CString
  | .set _ value | .lpush _ value | .sadd _ value => value.toList
  | _ => []

theorem Op.call_stores (op : Op) (env : CallEnv) (wf : store.table.WellFormed)
    : store.table.Stores op.stored (op.call env store).2.table := by
  cases calm : op.mayGrow with
  | false => exact (Op.call_quiet calm env wf).stores
  | true =>
      cases op with
      | set key value => exact kvSet_stores wf key value env
      | lpush key value => exact kvLpush_stores wf key value env
      | sadd key value => exact kvSadd_stores wf key value env
      | resize newBucketCount => exact store.table.resize_stores newBucketCount env
      | _ => simp [Op.mayGrow] at calm

theorem Op.call_path (op : Op) (env : CallEnv) (wf : store.table.WellFormed)
    : store.table.Path (op.call env store).2.table :=
  (op.call_stores env wf).path

theorem kvBgrewriteaof_table (pid : Int) (env : CallEnv)
    : (kvBgrewriteaof store pid env).2.table = store.table := by
  simp only [kvBgrewriteaof]
  split_ifs <;> rfl

theorem kvMergeAofRewrite_table (childPid : Int) (outcome : MergeOutcome)
    : (kvMergeAofRewrite store childPid outcome).2.table = store.table := by
  simp only [kvMergeAofRewrite]
  split_ifs
  · rfl
  · rfl
  · cases outcome <;> rfl

theorem Upkeep.call_wellFormed (upkeep : Upkeep) (env : CallEnv) (wf : store.table.WellFormed)
    : (upkeep.call env store).2.table.WellFormed := by
  cases upkeep with
  | expireSampleSweep sampleSize maxKeysToDelete =>
      exact (wf.expireSampleSweep sampleSize maxKeysToDelete env.now).choose_spec.1.wellFormed
  | evictLru => exact wf.evictLru.choose_spec.1.wellFormed
  | bgrewriteaof pid => exact (kvBgrewriteaof_table pid env).symm ▸ wf
  | mergeAofRewrite childPid outcome => exact (kvMergeAofRewrite_table childPid outcome).symm ▸ wf
  | discardAofRewrite => exact wf
  | _ => exact wf.congr rfl rfl rfl

/-- Maintenance only takes bindings away: sweeps expired ones, evictions any. -/
theorem Upkeep.call_loses (upkeep : Upkeep) (env : CallEnv) (wf : store.table.WellFormed)
    : LogicalMap.Loses store.table.logical (upkeep.call env store).2.table.logical
        (fun binding => upkeep = .evictLru ∨ binding.isExpired env.now = true) := by
  cases upkeep with
  | expireSampleSweep sampleSize maxKeysToDelete =>
      obtain ⟨map, becomes, loses⟩ := wf.expireSampleSweep sampleSize maxKeysToDelete env.now
      have swept : ((Upkeep.expireSampleSweep sampleSize maxKeysToDelete).call env
          store).2.table.logical = map := becomes.logical
      rw [swept]
      exact fun key => (loses key).imp_right (fun ⟨gone, binding, found, expired⟩ =>
        ⟨gone, binding, found, .inr expired⟩)
  | evictLru =>
      obtain ⟨map, becomes, loses⟩ := wf.evictLru
      have evicted : (Upkeep.evictLru.call env store).2.table.logical = map := becomes.logical
      rw [evicted]
      exact fun key => (loses key).imp_right (fun ⟨gone, binding, found, _⟩ =>
        ⟨gone, binding, found, .inl rfl⟩)
  | bgrewriteaof pid =>
      have same : ((Upkeep.bgrewriteaof pid).call env store).2.table = store.table :=
        kvBgrewriteaof_table pid env
      rw [same]
      exact .refl _ _
  | mergeAofRewrite childPid outcome =>
      have same : ((Upkeep.mergeAofRewrite childPid outcome).call env store).2.table
          = store.table := kvMergeAofRewrite_table childPid outcome
      rw [same]
      exact .refl _ _
  | _ => exact .refl _ _

-- Opening a store

theorem applyRecord_path (wf : store.table.WellFormed) (record : Record) (env : CallEnv)
    : store.table.Path (applyRecord store record env).table := by
  cases record with
  | set key value => exact (kvSetInternal_stores wf _ _ env).path
  | delete key => exact (kvDeleteInternal_quiet store _ env 0).path
  | lpush key value => exact (kvLpush_stores wf _ _ env).path
  | rpop key => exact (kvRpop_quiet wf _ env).path
  | sadd key value => exact (kvSadd_stores wf _ _ env).path
  | srem key value => exact (kvSrem_quiet wf _ _ env).path
  | pexpireat key expireAtMs => exact (store.table.setDeadline_quiet key expireAtMs).path

/-- Replaying any lines is a path. -/
theorem replayLines_path (wf : store.table.WellFormed) (envs : Nat → CallEnv)
    (lines : List (List UInt8)) (nth : Nat)
    : store.table.Path (replayLines envs lines nth store).table := by
  have applies : ∀ (reached : Store) (line : List UInt8) (record : Record) (nth : Nat),
      parseLine line = some record → store.table.Path reached.table →
      store.table.Path (applyRecord reached record (envs nth)).table :=
    fun _ _ record nth _ path =>
      path.trans (applyRecord_path (path.keeps wf).wellFormed record (envs nth))
  exact replayLines_keeps applies lines nth (.refl _)

theorem Store.fresh_wellFormed {bucketCount : Nat} (positive : 0 < bucketCount)
    (maxCapacity maxMemoryBudget : Nat) (prng : UInt32) (log : List UInt8)
    : (Store.fresh bucketCount maxCapacity maxMemoryBudget prng log).table.WellFormed := by
  have empty :
      (Store.fresh bucketCount maxCapacity maxMemoryBudget prng log).table.entries = [] := by
    simp [Store.fresh, Table.entries]
  refine ⟨⟨by simpa [Store.fresh] using positive, ?_, ?_⟩, ?_, ?_, ?_, ?_⟩
  · intro index entry member
    have inside := mem_flatten_iff.mpr ⟨index, member⟩
    rw [← Table.entries, empty] at inside
    simp at inside
  · rw [← Table.entries, empty]
    simp
  · rw [empty]
    rfl
  · simp [empty]
  · simp [empty]
  · simp [empty]

theorem Store.fresh_logical (bucketCount maxCapacity maxMemoryBudget : Nat) (prng : UInt32)
    (log : List UInt8)
    : (Store.fresh bucketCount maxCapacity maxMemoryBudget prng log).table.logical = ∅ := by
  simp [Store.fresh, Table.logical, Table.entries]

/-- What `kv_init_full` returns: a fresh store, or a fresh store that replayed the log and holds
an open stream at position zero.
-/
theorem kvInitFull_ok {bucketCount maxCapacity maxMemoryBudget : Nat} {path : Option CString}
    {log : List UInt8} {prng : UInt32} {env : CallEnv} {lineEnvs : Nat → CallEnv}
    (opened : kvInitFull bucketCount maxCapacity maxMemoryBudget path log prng env lineEnvs
      = .ok store)
    : 0 < bucketCount
      ∧ (path = none
            ∧ store = Store.fresh bucketCount maxCapacity maxMemoryBudget prng log
        ∨ ∃ name, path = some name
            ∧ let fresh := Store.fresh bucketCount maxCapacity maxMemoryBudget prng log
              let replayed := replayAofLog
                { table := fresh.table.charge (name.length + 1)
                  aof := { fresh.aof with path := some name } } log lineEnvs
              store = { replayed with aof := { replayed.aof with fp := some 0 } }) := by
  cases path with
  | none =>
      simp only [kvInitFull] at opened
      split_ifs at opened with zero
      exact ⟨Nat.pos_of_ne_zero zero, .inl ⟨rfl, (Except.ok.inj opened).symm⟩⟩
  | some name =>
      simp only [kvInitFull] at opened
      split_ifs at opened with zero
      exact ⟨Nat.pos_of_ne_zero zero, .inr ⟨name, rfl, (Except.ok.inj opened).symm⟩⟩

/-- A store that was just opened on an empty log, without a memory budget. -/
structure Store.Blank (store : Store) (maxCapacity : Nat) : Prop where
  wellFormed : store.table.WellFormed
  unlimited : store.table.maxMemoryBudget = 0
  maxCapacity : store.table.maxCapacity = maxCapacity
  logical : store.table.logical = ∅
  log : store.aof.log = []
  atStart : store.aof.fp = some 0

theorem replayAofLog_nil (store : Store) (envs : Nat → CallEnv)
    : replayAofLog store [] envs = store :=
  rfl

/-- Opening a store on an empty log succeeds when nothing fails. -/
theorem kvInitFull_blank {bucketCount : Nat} (positive : 0 < bucketCount)
    (maxCapacity : Nat) (path : CString) (prng : UInt32) {env : CallEnv} (clean : env.Clean)
    (lineEnvs : Nat → CallEnv)
    : ∃ start, kvInitFull bucketCount maxCapacity 0 (some path) [] prng env lineEnvs = .ok start
        ∧ start.Blank maxCapacity := by
  have nonzero : bucketCount ≠ 0 := Nat.ne_of_gt positive
  let fresh := Store.fresh bucketCount maxCapacity 0 prng []
  have freshWf : fresh.table.WellFormed :=
    Store.fresh_wellFormed positive maxCapacity 0 prng []
  refine ⟨⟨fresh.table.charge (path.length + 1),
      { fresh.aof with path := some path, fp := some 0 }⟩, ?_, freshWf.congr rfl rfl rfl, rfl,
    rfl, Store.fresh_logical bucketCount maxCapacity 0 prng [], rfl, rfl⟩
  simp [kvInitFull, nonzero, clean.1, clean.2, replayAofLog_nil, fresh]

/-- The bytes of `aof_path`. -/
def pathBytes : Option CString → Nat
  | none => 0
  | some path => path.length + 1

/-- Opening a store charges the path and then follows the replayed log. -/
theorem kvInitFull_path {bucketCount maxCapacity maxMemoryBudget : Nat}
    {path : Option CString} {log : List UInt8} {prng : UInt32} {env : CallEnv}
    {lineEnvs : Nat → CallEnv}
    (opened : kvInitFull bucketCount maxCapacity maxMemoryBudget path log prng env lineEnvs
      = .ok store)
    : let fresh := Store.fresh bucketCount maxCapacity maxMemoryBudget prng log
      fresh.table.Keeps (fresh.table.charge (pathBytes path))
      ∧ (fresh.table.charge (pathBytes path)).Path store.table := by
  obtain ⟨positive, cases⟩ := kvInitFull_ok opened
  have fresh := Store.fresh_wellFormed positive maxCapacity maxMemoryBudget prng log
  have charged := ((Table.Becomes.refl fresh).charge (pathBytes path)).keeps
  refine ⟨charged, ?_⟩
  rcases cases with ⟨rfl, rfl⟩ | ⟨name, rfl, rfl⟩
  · have nothing : (Store.fresh bucketCount maxCapacity maxMemoryBudget prng log).table.charge 0
        = (Store.fresh bucketCount maxCapacity maxMemoryBudget prng log).table := by
      simp [Table.charge, Store.fresh]
    rw [pathBytes, nothing]
    exact .refl _
  · let named : Store :=
      { table := (Store.fresh bucketCount maxCapacity maxMemoryBudget prng log).table.charge
          (name.length + 1)
        aof := { (Store.fresh bucketCount maxCapacity maxMemoryBudget prng log).aof with
          path := some name } }
    exact @replayLines_path named charged.wellFormed lineEnvs (readLines log) 0

theorem kvInitFull_keeps {bucketCount maxCapacity maxMemoryBudget : Nat}
    {path : Option CString} {log : List UInt8} {prng : UInt32} {env : CallEnv}
    {lineEnvs : Nat → CallEnv}
    (opened : kvInitFull bucketCount maxCapacity maxMemoryBudget path log prng env lineEnvs
      = .ok store)
    : (Store.fresh bucketCount maxCapacity maxMemoryBudget prng log).table.Keeps
        store.table := by
  obtain ⟨charged, replayed⟩ := kvInitFull_path opened
  exact charged.trans (replayed.keeps charged.wellFormed)

-- Without a memory budget no call is undefined

/-- Opening a container when there is no memory budget. -/
theorem Table.WellFormed.openContainer_eq {table : Table} (wf : table.WellFormed)
    (unlimited : table.maxMemoryBudget = 0) (key : CString) (wanted : Payload → Bool)
    (fresh : Payload) (overhead : Nat) (sites : List AllocSite) (env : CallEnv)
    : table.openContainer key wanted fresh overhead sites env
      = let found := table.findEntryUnlocked key env.now
        match found.1 with
        | some entry =>
            if wanted entry.value then (.ok (), found.2.touch key)
            else (.error kvErrWrongType, found.2)
        | none =>
            if found.2.atCapacity then (.error kvErrCapacityFull, found.2)
            else if sites.all env.alloc = false then (.error kvErrInternal, found.2)
            else (.ok (), found.2.insertEntry key fresh overhead) := by
  have becomes := (wf.findEntry key env.now).1
  have room := Table.makeRoom_of_unlimited (becomes.maxMemoryBudget.trans unlimited)
  cases found : (table.findEntryUnlocked key env.now).1 with
  | none => simp only [Table.openContainer, found, room, Bool.true_eq_false, if_false]
  | some entry => simp only [Table.openContainer, found]

theorem Table.linkNode_defined {table : Table} (unlimited : table.maxMemoryBudget = 0)
    {key : CString} {entry : Entry} (found : table.lookup key = some entry)
    {link : Payload → Option (Payload × Int)} (links : (link entry.value).isSome)
    (nodeOverhead : Nat) (env : CallEnv)
    : (table.linkNode key nodeOverhead link env).1 ≠ .undefined := by
  obtain ⟨linked, made⟩ := Option.isSome_iff_exists.mp links
  simp only [Table.linkNode, Table.makeRoom_of_unlimited unlimited, found, Option.bind_some, made,
    Bool.true_eq_false, if_false]
  split
  · simp
  · simp

theorem Table.WellFormed.lpush_defined {table : Table} (wf : table.WellFormed)
    (unlimited : table.maxMemoryBudget = 0) {key : CString} (validKey : ValidKey key)
    (value : CString) (env : CallEnv)
    : (table.lpush key value env).1 ≠ .undefined := by
  have fresh : (Payload.list DList.empty).WellFormed := listWellFormed_empty
  have kept := (wf.openList validKey env).keeps wf
  simp only [Table.lpush]
  split
  · simp
  · next opened =>
      obtain ⟨entry, found, isList, _⟩ := wf.openContainer_lookup validKey fresh rfl opened
      obtain ⟨links, payload⟩ := Payload.exists_of_isList isList
      apply Table.linkNode_defined (kept.maxMemoryBudget.trans unlimited) found
      rw [payload]
      rfl

theorem Table.WellFormed.sadd_defined {table : Table} (wf : table.WellFormed)
    (unlimited : table.maxMemoryBudget = 0) {key : CString} (validKey : ValidKey key)
    (value : CString) (env : CallEnv)
    : (table.sadd key value env).1 ≠ .undefined := by
  have fresh : (Payload.set KvSet.empty).WellFormed := setWellFormed_empty
  have kept := (wf.openSet validKey env).keeps wf
  simp only [Table.sadd]
  split
  · simp
  · next opened =>
      obtain ⟨entry, found, isSet, _⟩ := wf.openContainer_lookup validKey fresh rfl opened
      obtain ⟨entryKey, payload, expireAtMs, time⟩ := entry
      obtain ⟨chains, rfl⟩ : ∃ chains, payload = .set chains := Payload.exists_of_isSet isSet
      simp only [found]
      split
      · simp
      · exact Table.linkNode_defined (kept.maxMemoryBudget.trans unlimited) found rfl _ env

theorem Linking.reply_ne_none {linking : Linking} (defined : linking ≠ .undefined)
    : linking.reply ≠ none := by
  cases linking with
  | undefined => contradiction
  | failed status => simp [Linking.reply]
  | linked result => simp [Linking.reply]

theorem kvLpush_defined (wf : store.table.WellFormed)
    (unlimited : store.table.maxMemoryBudget = 0) (key value : Option CString) (env : CallEnv)
    : (kvLpush store key value env).1 ≠ none := by
  simp only [kvLpush]
  split
  · simp
  · simp
  · split
    · simp
    · simp
    · next checkedKey _ =>
        have defined := wf.lpush_defined unlimited (validateKey_eq_ok.mp checkedKey).2
        split
        · simp
        · exact Linking.reply_ne_none (defined _ env)

theorem kvSadd_defined (wf : store.table.WellFormed)
    (unlimited : store.table.maxMemoryBudget = 0) (key value : Option CString) (env : CallEnv)
    : (kvSadd store key value env).1 ≠ none := by
  simp only [kvSadd]
  split
  · simp
  · simp
  · split
    · simp
    · simp
    · next checkedKey _ =>
        have defined := wf.sadd_defined unlimited (validateKey_eq_ok.mp checkedKey).2
        split
        · simp
        · exact Linking.reply_ne_none (defined _ env)

theorem Op.call_defined (op : Op) (env : CallEnv) (wf : store.table.WellFormed)
    (unlimited : store.table.maxMemoryBudget = 0)
    : (op.call env store).1 ≠ .undefined := by
  have ofResult : ∀ {result : Option Int}, result ≠ none →
      (Reply.ofResult result : Reply (List CString)) ≠ .undefined := by
    intro result some
    cases result with
    | none => contradiction
    | some code => simp [Reply.ofResult]
  cases op with
  | lpush key value => exact ofResult (kvLpush_defined wf unlimited key value env)
  | sadd key value => exact ofResult (kvSadd_defined wf unlimited key value env)
  | _ => simp [Op.call]

-- Runs

/-- The action does not introduce a memory budget. -/
def Action.keepsUnlimited : Action → Bool
  | .upkeep (.setMemoryBudget budgetBytes) => budgetBytes == 0
  | _ => true

theorem Upkeep.call_unlimited {upkeep : Upkeep}
    (keeps : (Action.upkeep upkeep).keepsUnlimited = true) (env : CallEnv)
    (wf : store.table.WellFormed) (unlimited : store.table.maxMemoryBudget = 0)
    : (upkeep.call env store).2.table.maxMemoryBudget = 0 := by
  cases upkeep with
  | expireSampleSweep sampleSize maxKeysToDelete =>
      exact (wf.expireSampleSweep sampleSize maxKeysToDelete env.now).choose_spec.1.maxMemoryBudget
        |>.trans unlimited
  | evictLru => exact wf.evictLru.choose_spec.1.maxMemoryBudget.trans unlimited
  | setMemoryBudget budgetBytes =>
      rw [Action.keepsUnlimited, beq_iff_eq] at keeps
      exact keeps
  | bgrewriteaof pid =>
      exact (congrArg Table.maxMemoryBudget (kvBgrewriteaof_table pid env)).trans unlimited
  | mergeAofRewrite childPid outcome =>
      exact (congrArg Table.maxMemoryBudget (kvMergeAofRewrite_table childPid outcome)).trans
        unlimited
  | _ => exact unlimited

/-- What every call keeps while no budget is introduced. -/
structure Store.Sound (store : Store) : Prop where
  wellFormed : store.table.WellFormed
  unlimited : store.table.maxMemoryBudget = 0

theorem Store.Sound.step (sound : store.Sound) {call : Call}
    (keeps : call.action.keepsUnlimited = true)
    : (store.step call).2.Sound ∧ (store.step call).1 ≠ .undefined := by
  let drawn : Store := { store with table := { store.table with prng := call.prng } }
  have drawnWf : drawn.table.WellFormed := sound.wellFormed.congr rfl rfl rfl
  obtain ⟨action, env, prng⟩ := call
  cases action with
  | op op =>
      have kept := (@Op.call_path drawn op env drawnWf).keeps drawnWf
      exact ⟨⟨kept.wellFormed, kept.maxMemoryBudget.trans sound.unlimited⟩,
        @Op.call_defined drawn op env drawnWf sound.unlimited⟩
  | upkeep upkeep =>
      refine ⟨⟨@Upkeep.call_wellFormed drawn upkeep env drawnWf,
        @Upkeep.call_unlimited drawn upkeep keeps env drawnWf sound.unlimited⟩, ?_⟩
      cases upkeep <;> simp [Store.step, Upkeep.call]

/-- A store that was opened without a budget is sound. -/
theorem kvInitFull_sound {bucketCount maxCapacity : Nat} {path : Option CString}
    {log : List UInt8} {prng : UInt32} {env : CallEnv} {lineEnvs : Nat → CallEnv}
    (opened : kvInitFull bucketCount maxCapacity 0 path log prng env lineEnvs = .ok store)
    : store.Sound := by
  have kept := kvInitFull_keeps opened
  exact ⟨kept.wellFormed, kept.maxMemoryBudget⟩

theorem Store.Sound.run (sound : store.Sound) {calls : List Call}
    (keeps : ∀ call ∈ calls, call.action.keepsUnlimited = true)
    : (store.run calls).2.Sound :=
  @Foundations.Runs.run_invariant _ _ _ Store.step
    (fun call => call.action.keepsUnlimited = true) Store.Sound
    (fun _ _ sound keeps => (sound.step keeps).1) store sound calls keeps

/-- The stores that opening a store without a memory budget and any calls that do not introduce
one lead to, as long as every replayed line and every call meets an admitted environment.
-/
def Store.Reachable (Admitted : CallEnv → Prop) (store : Store) : Prop :=
  ∃ bucketCount maxCapacity path log prng env lineEnvs start calls,
    kvInitFull bucketCount maxCapacity 0 path log prng env lineEnvs = .ok start
    ∧ (∀ nth, Admitted (lineEnvs nth))
    ∧ (∀ call ∈ calls, call.action.keepsUnlimited = true ∧ Admitted call.env)
    ∧ store = (start.run calls).2

theorem Store.Reachable.sound {Admitted : CallEnv → Prop} (reachable : store.Reachable Admitted)
    : store.Sound := by
  obtain ⟨_, _, _, _, _, _, _, start, calls, opened, _, allowed, rfl⟩ := reachable
  exact (kvInitFull_sound opened).run (fun call member => (allowed call member).1)

/-- The representation invariant in the terms of the data structures. -/
structure Table.RepresentationInvariant (table : Table) : Prop where
  nonempty : 0 < table.bucketCount
  homes : ∀ index, ∀ entry ∈ bucket table.buckets index,
    hashKey entry.key table.bucketCount = index
  distinct : (table.entries.map Entry.key).Nodup
  size : table.size = table.entries.length
  keys : ∀ entry ∈ table.entries,
    entry.key.bytes ≠ [] ∧ entry.key.length ≤ 256
      ∧ ∀ byte ∈ entry.key.bytes, isSpace byte = false
  lists : ∀ entry ∈ table.entries, ∀ list, entry.value = .list list →
    Represents list list.toList
      ∧ list.forwardChain = list.backwardChain.reverse
      ∧ list.head = list.forwardChain.head?
      ∧ list.tail = list.forwardChain.getLast?
      ∧ list.count = list.forwardChain.length
  sets : ∀ entry ∈ table.entries, ∀ set, entry.value = .set set →
    set.members.Nodup
      ∧ (∀ index, ∀ member ∈ bucket set.buckets index, hashKey member set.bucketCount = index)
      ∧ set.count = set.members.length
  times : (table.entries.map Entry.lastAccessedTime).Nodup
  clock : ∀ entry ∈ table.entries, entry.lastAccessedTime ≤ table.lruClock

theorem Table.WellFormed.representationInvariant {table : Table} (wf : table.WellFormed)
    : table.RepresentationInvariant where
  nonempty := wf.placed.nonempty
  homes := wf.placed.placed
  distinct := wf.placed.distinct
  size := wf.size
  keys := by
    intro entry member
    obtain ⟨nonempty, bounded, noSpace⟩ := (wf.entries entry member).key
    exact ⟨nonempty, bounded, noSpace⟩
  lists := by
    intro entry member list payload
    have valid := (wf.entries entry member).value
    rw [payload] at valid
    exact ⟨valid.links, valid.links.chains_agree⟩
  sets := by
    intro entry member set payload
    have valid := (wf.entries entry member).value
    rw [payload] at valid
    exact ⟨valid.nodup, valid.placed.placed, valid.count⟩
  times := wf.times
  clock := wf.clock

/-- In every state reached from `kv_init_full` without a memory budget the representation
invariant holds, and no call on the way was undefined.
Witness: opening establishes it, and each call is a sequence of primitive changes that keep it.
-/
theorem run_representationInvariant {bucketCount maxCapacity : Nat} {path : Option CString}
    {log : List UInt8} {prng : UInt32} {env : CallEnv} {lineEnvs : Nat → CallEnv}
    {start : Store}
    (opened : kvInitFull bucketCount maxCapacity 0 path log prng env lineEnvs = .ok start)
    (calls : List Call) (unlimited : ∀ call ∈ calls, call.action.keepsUnlimited = true)
    : (start.run calls).2.table.RepresentationInvariant
      ∧ ∀ reply ∈ (start.run calls).1, reply ≠ .undefined := by
  have sound := kvInitFull_sound opened
  refine ⟨(sound.run unlimited).wellFormed.representationInvariant, ?_⟩
  exact @Foundations.Runs.run_replies _ _ _ Store.step
    (fun call => call.action.keepsUnlimited = true) Store.Sound (fun reply => reply ≠ .undefined)
    (fun _ _ sound keeps => (sound.step keeps).1) (fun _ _ sound keeps => (sound.step keeps).2)
    start sound calls unlimited

/-- A store opened on a log with one string, and then a push, a failed add, a resize and a
sweep.
-/
theorem run_representationInvariant_mixed
    : ∃ start,
        kvInitFull 2 0 0 (some ⟨[112], by decide⟩) (ascii ['S', 'E', 'T', ' ', 'a', ' ', 'b'])
            7 (.at 0) (fun _ => .at 0)
          = .ok start
        ∧ (start.run
            [⟨.op (.lpush (some ⟨[108], by decide⟩) (some ⟨[120], by decide⟩)), .at 1, 3⟩,
              ⟨.op (.sadd (some ⟨[97], by decide⟩) (some ⟨[120], by decide⟩)), .at 2, 3⟩,
              ⟨.op (.resize 5), .at 3, 3⟩,
              ⟨.upkeep (.expireSampleSweep 100 10), .at 4, 9⟩]).2.table.RepresentationInvariant :=
  ⟨_, rfl, (@run_representationInvariant 2 0 (some ⟨[112], by decide⟩)
    (ascii ['S', 'E', 'T', ' ', 'a', ' ', 'b']) 7 (.at 0) (fun _ => .at 0) _ rfl _
    (by decide)).1⟩

end MiniKv
