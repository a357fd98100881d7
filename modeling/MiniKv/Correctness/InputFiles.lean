import MiniKv.Invariants.Server
import MiniKv.Refinement.Dumps
import MiniKv.Refinement.FileFailures
import MiniKv.Refinement.SnapshotFormat

/-! Files with any content. Replaying a log and loading a snapshot take lengths, counts and keys
from the file, but they hand them to the store's own operations only, so no file can break the
store or keep a load from ending.
-/

namespace MiniKv

open MiniKv.Foundations.LittleEndian

variable {store : Store} {server : Server} {Property : Aof → Prop}

-- The calls that a file leads to

/-- The calls on a store that a log or a snapshot leads to, if their behaviour is defined. -/
inductive Store.Feed (store : Store) : Store → Prop where
  | op (op : Op) (env : CallEnv) (defined : (op.call env store).1 ≠ .undefined)
      : Store.Feed store (op.call env store).2
  | setInternal (key value : CString) (env : CallEnv)
      : Store.Feed store (kvSetInternal store (some key) (some value) env).2
  | deleteInternal (key : CString) (env : CallEnv)
      : Store.Feed store (kvDeleteInternal store (some key) env 0).2
  | deadline (key : CString) (expireAtMs : Int64)
      : Store.Feed store (store.setDeadline key expireAtMs)

/-- Any number of such calls. -/
def Store.Fed : Store → Store → Prop :=
  Relation.ReflTransGen Store.Feed

theorem Store.Feed.path {after : Store} (feed : store.Feed after) (wf : store.table.WellFormed)
    : store.table.Path after.table := by
  cases feed with
  | op op env _ => exact op.call_path env wf
  | setInternal key value env => exact (kvSetInternal_stores wf _ _ env).path
  | deleteInternal key env => exact (kvDeleteInternal_quiet store _ env 0).path
  | deadline key expireAtMs => exact (store.table.setDeadline_quiet key expireAtMs).path

theorem Store.Feed.stable {after : Store} (feed : store.Feed after)
    (stable : Aof.Stable Property) (holds : Property store.aof)
    : Property after.aof := by
  cases feed with
  | op op env _ => exact op.call_stable stable holds
  | setInternal key value env => exact stable.kvSetInternal _ _ holds
  | deleteInternal key env => exact stable.kvDeleteInternal _ 0 holds
  | deadline key expireAtMs => exact holds

theorem Store.Fed.sound {after : Store} (fed : store.Fed after) (sound : store.Sound)
    : after.Sound := by
  induction fed with
  | refl => exact sound
  | tail _ feed ih =>
      have keeps := (feed.path ih.wellFormed).keeps ih.wellFormed
      exact ⟨keeps.wellFormed, keeps.maxMemoryBudget.trans ih.unlimited⟩

theorem Store.Fed.stable {after : Store} (fed : store.Fed after) (stable : Aof.Stable Property)
    (holds : Property store.aof)
    : Property after.aof := by
  induction fed with
  | refl => exact holds
  | tail _ feed ih => exact feed.stable stable ih

/-- Without a memory budget every further operation is defined. -/
theorem Store.Fed.defined {reached : Store} (fed : store.Fed reached) (sound : store.Sound)
    (op : Op) (env : CallEnv)
    : (op.call env reached).1 ≠ .undefined :=
  op.call_defined env (fed.sound sound).wellFormed (fed.sound sound).unlimited

theorem Store.Fed.op {reached : Store} (fed : store.Fed reached) (sound : store.Sound) (op : Op)
    (env : CallEnv)
    : store.Fed (op.call env reached).2 :=
  fed.tail (.op op env (fed.defined sound op env))

theorem Store.Fed.applyRecord {reached : Store} (fed : store.Fed reached) (sound : store.Sound)
    (record : Record) (env : CallEnv)
    : store.Fed (applyRecord reached record env) := by
  cases record with
  | set key value => exact fed.tail (.setInternal key value env)
  | delete key => exact fed.tail (.deleteInternal key env)
  | lpush key value => exact fed.op sound (.lpush (some key) (some value)) env
  | rpop key => exact fed.op sound (.rpop (some key)) env
  | sadd key value => exact fed.op sound (.sadd (some key) (some value)) env
  | srem key value => exact fed.op sound (.srem (some key) (some value)) env
  | pexpireat key expireAtMs => exact fed.tail (.deadline key expireAtMs)

theorem Store.Sound.replayAofLog_fed (sound : store.Sound) (file : List UInt8)
    (envs : Nat → CallEnv)
    : store.Fed (replayAofLog store file envs) := by
  have applies : ∀ (reached : Store) (line : List UInt8) (record : Record) (nth : Nat),
      parseLine line = some record → store.Fed reached →
      store.Fed (applyRecord reached record (envs nth)) :=
    fun _ _ record nth _ fed => fed.applyRecord sound record (envs nth)
  exact replayLines_keeps applies (readLines file) 0 .refl

theorem Store.Sound.fed_loadStable (sound : store.Sound) : Store.LoadStable store.Fed where
  set _ key value env fed := fed.op sound (.set (some key) (some value)) env
  lpush _ key value env fed := fed.op sound (.lpush (some key) (some value)) env
  sadd _ key value env fed := fed.op sound (.sadd (some key) (some value)) env
  deadline _ key expireAtMs fed := fed.tail (.deadline key expireAtMs)

-- The entry loop of a load ends

/-- How much of the file is left to a load. -/
def Loading.left (loading : Loading) : Nat :=
  loading.reader.rest.length

theorem Reader.readBytes_rest {reader after : Reader} {len : Nat} {bytes : List UInt8}
    (read : reader.readBytes len = some (bytes, after))
    : after.rest.length + len = reader.rest.length := by
  rw [Reader.readBytes] at read
  split at read
  · contradiction
  · obtain ⟨_, rfl⟩ := Prod.mk.inj (Option.some.inj read)
    rw [List.length_drop]
    omega

theorem Reader.readUint64_rest {reader after : Reader} {number : Nat}
    (read : reader.readUint64 = some (number, after))
    : after.rest.length < reader.rest.length := by
  obtain ⟨⟨bytes, behind⟩, found, same⟩ := Option.map_eq_some_iff.mp read
  obtain ⟨_, rfl⟩ := Prod.mk.inj same
  have consumed := Reader.readBytes_rest found
  dsimp only
  omega

theorem Reader.readUint32_rest {reader after : Reader} {number : Nat}
    (read : reader.readUint32 = some (number, after))
    : after.rest.length ≤ reader.rest.length := by
  obtain ⟨⟨bytes, behind⟩, found, same⟩ := Option.map_eq_some_iff.mp read
  obtain ⟨_, rfl⟩ := Prod.mk.inj same
  have consumed := Reader.readBytes_rest found
  dsimp only
  omega

theorem Reader.readString_rest {reader after : Reader} {maxLen : Nat} {allocated : Bool}
    {string : CString} (read : reader.readString maxLen allocated = some (string, after))
    : after.rest.length ≤ reader.rest.length := by
  obtain ⟨⟨len, behind⟩, counted, rest⟩ := Option.bind_eq_some_iff.mp read
  have count := Reader.readUint32_rest counted
  simp only at rest
  split_ifs at rest
  obtain ⟨⟨bytes, last⟩, found, same⟩ := Option.map_eq_some_iff.mp rest
  obtain ⟨_, rfl⟩ := Prod.mk.inj same
  have consumed := Reader.readBytes_rest found
  dsimp only
  omega

/-- Reading values goes forward only, by induction on their number. -/
theorem Reader.readStrings_rest {reader after : Reader} {count : Nat} {values : List CString}
    (read : reader.readStrings count = .ok (values, after))
    : after.rest.length ≤ reader.rest.length := by
  induction count generalizing reader values with
  | zero =>
      obtain ⟨_, rfl⟩ := Prod.mk.inj (Except.ok.inj read)
      exact le_rfl
  | succ count ih =>
      rw [Reader.readStrings] at read
      split at read
      · contradiction
      · next value behind first =>
          split at read
          · contradiction
          · next later =>
              obtain ⟨_, rfl⟩ := Prod.mk.inj (Except.ok.inj read)
              exact (ih later).trans (Reader.readString_rest first)

theorem Reader.readCount_rest {reader after : Reader} {typeByte : UInt8} {count : Nat}
    (read : reader.readCount typeByte = some (count, after))
    : after.rest.length ≤ reader.rest.length := by
  rw [Reader.readCount] at read
  split_ifs at read
  · obtain ⟨_, rfl⟩ := Prod.mk.inj (Option.some.inj read)
    exact le_rfl
  · exact Reader.readUint32_rest read
  · obtain ⟨_, rfl⟩ := Prod.mk.inj (Option.some.inj read)
    exact le_rfl

theorem Reader.readValues_rest {reader after : Reader} {expireAt : Nat} {key : CString}
    {typeByte : UInt8} {entry : SavedEntry}
    (read : reader.readValues expireAt key typeByte = .ok (entry, after))
    : after.rest.length ≤ reader.rest.length := by
  rw [Reader.readValues] at read
  split at read
  · contradiction
  · next count behind counted =>
      split at read
      · contradiction
      · next values =>
          obtain ⟨_, rfl⟩ := Prod.mk.inj (Except.ok.inj read)
          exact (Reader.readStrings_rest values).trans (Reader.readCount_rest counted)

theorem Reader.readEntry_rest {reader after : Reader} {expireAt : Nat} {entry : SavedEntry}
    (read : reader.readEntry expireAt = .ok (entry, after))
    : after.rest.length ≤ reader.rest.length := by
  rw [Reader.readEntry] at read
  split at read
  · contradiction
  · next key keyed readKey =>
      split at read
      · next typeByte behind readType =>
          have typed := Reader.readBytes_rest readType
          calc after.rest.length
              ≤ behind.rest.length := Reader.readValues_rest read
            _ ≤ keyed.rest.length := by omega
            _ ≤ reader.rest.length := Reader.readString_rest readKey
      · contradiction

theorem loadEntry_left {nowMs : Int64} {expireAt : Nat} {envs : Nat → CallEnv}
    {loading after : Loading} (loaded : loadEntry nowMs expireAt envs loading = .ok after)
    : after.left ≤ loading.left := by
  obtain ⟨entry, read⟩ := loadEntry_reads loaded
  exact Reader.readEntry_rest read

/-- Every round of the entry loop consumes a deadline, so any fuel beyond the length of the file
gives the same load, by induction on the fuel.
-/
theorem loadEntries_fuel (nowMs : Int64) (envs : Nat → CallEnv) {fuel more : Nat}
    {loading : Loading} (enough : loading.left < fuel) (also : loading.left < more)
    : loadEntries nowMs envs fuel loading = loadEntries nowMs envs more loading := by
  induction fuel generalizing more loading with
  | zero => omega
  | succ fuel ih =>
      obtain ⟨further, rfl⟩ : ∃ further, more = further + 1 := ⟨more - 1, by omega⟩
      simp only [loadEntries]
      split
      · rfl
      · next expireAt reader read =>
          split
          · rfl
          · split
            · rfl
            · next loaded entry =>
                have forward := loadEntry_left entry
                have consumed := Reader.readUint64_rest read
                simp only [Loading.left] at forward enough also ih
                exact ih (by omega) (by omega)

-- The doubling loops of the rewrite buffer end

/-- The files that a call passes through: an append to the rewrite buffer, a written record or a
record rolled back at a time.
-/
inductive Aof.Later (start : Aof) : Aof → Prop where
  | here : Aof.Later start start
  | append {aof : Aof} (data : List UInt8) (allocated : Bool) (before : Aof.Later start aof)
      : Aof.Later start (aof.appendAofRewriteBuffer data allocated)
  | write {aof : Aof} (record : List UInt8) (io : IoOutcome) (before : Aof.Later start aof)
      : Aof.Later start (aof.writeAofRecord record io).2.2
  | rollback {aof : Aof} (pos : Option Nat) (before : Aof.Later start aof)
      : Aof.Later start (aof.rollbackAofRecord pos)

theorem Aof.later_stable (start : Aof) : Aof.Stable start.Later where
  append _ data allocated before := before.append data allocated
  write _ record io before := before.write record io
  rollback _ pos before := before.rollback pos

theorem Aof.Later.stable {start aof : Aof} (later : start.Later aof)
    (stable : Aof.Stable Property) (holds : Property start)
    : Property aof := by
  induction later with
  | here => exact holds
  | append data allocated _ ih => exact stable.append _ data allocated ih
  | write record io _ ih => exact stable.write _ record io ih
  | rollback pos _ ih => exact stable.rollback _ pos ih

/-- However much an append asks for, its doubling loop returns. -/
def Aof.AppendReturns (aof : Aof) : Prop :=
  ∀ buffer need, aof.rewriteBuf = some buffer →
    ∃ cap, growCap need need aof.rewriteBufCap = some cap

theorem Aof.BufferReady.appendReturns {aof : Aof} (ready : aof.BufferReady)
    : aof.AppendReturns := by
  intro buffer need held
  obtain ⟨cap, grown, _⟩ := @growCap_need need _ (ready buffer held).2
  exact ⟨cap, grown⟩

theorem Aof.Stable.loadStable (stable : Aof.Stable Property)
    : Store.LoadStable (fun store => Property store.aof) where
  set _ key value _ holds := stable.kvSet (some key) (some value) holds
  lpush _ key value _ holds := stable.kvLpush (some key) (some value) holds
  sadd _ key value _ holds := stable.kvSadd (some key) (some value) holds
  deadline _ _ _ holds := holds

theorem kvBgsave_lasting (lasting : Aof.Lasting Property) (holds : Property store.aof) (pid : Int)
    : Property (kvBgsave store pid).2.aof := by
  simp only [kvBgsave]
  split_ifs
  · exact holds
  · exact holds
  · exact lasting.congr holds rfl rfl rfl rfl

theorem replicationHandleSync_lasting (lasting : Aof.Lasting Property) (holds : Property store.aof)
    (replication : Replication) (socketFd pid : Int) (outcome : SyncOutcome)
    : Property (replicationHandleSync replication store socketFd pid outcome).2.2.aof := by
  have saved := kvBgsave_lasting lasting holds pid
  simp only [replicationHandleSync]
  split_ifs
  · exact holds
  · exact saved
  · cases outcome <;> exact lasting.congr saved rfl rfl rfl rfl

theorem Verb.execute_lasting (lasting : Aof.Lasting Property) (verb : Verb) (args : Arguments)
    (env : CommandEnv) (holds : Property server.store.aof)
    : Property (verb.execute server args env).2.store.aof := by
  by_cases starts : verb.startsChild = false
  · rw [Verb.execute_store starts]
    cases verb.operation args with
    | none => exact holds
    | some op => exact op.call_stable lasting.stable holds
  · cases verb
    case sync => exact replicationHandleSync_lasting lasting holds _ _ _ _
    case bgsave => exact kvBgsave_lasting lasting holds _
    case bgrewriteaof => exact @Upkeep.call_lasting _ env.call _ lasting (.bgrewriteaof _) holds
    all_goals exact absurd rfl starts

theorem protocolExecuteCommand_lasting (lasting : Aof.Lasting Property)
    (holds : Property server.store.aof) (line : List UInt8) (env : CommandEnv)
    : Property (protocolExecuteCommand server line env).2.store.aof := by
  rcases protocolExecuteCommand_cases server line env with
    ⟨_, executed | executed⟩ | ⟨verb, args, _, executed⟩
  · exact executed ▸ holds
  · exact executed ▸ holds
  · rw [executed]
    split
    · exact holds
    · exact verb.execute_lasting lasting args env holds

theorem replicaApplyLine_stable (stable : Aof.Stable Property) (line : List UInt8)
    (env : CallEnv) (holds : Property store.aof)
    : Property (replicaApplyLine store line env).aof := by
  simp only [replicaApplyLine]
  split
  · split
    · exact holds
    · exact stable.kvSetInternal _ _ holds
  · split
    · exact stable.kvDeleteInternal _ 0 holds
    · exact holds

/-- A lasting property holds of every reachable server, by induction on the history. -/
theorem Server.Reachable.lasting (reachable : server.Reachable) (lasting : Aof.Lasting Property)
    : Property server.store.aof := by
  induction reachable with
  | opened replication success => exact kvInitFull_lasting lasting success
  | command line env _ holds => exact protocolExecuteCommand_lasting lasting holds line env
  | call call _ holds =>
      obtain ⟨action, env, prng⟩ := call
      cases action with
      | op op => exact @Op.call_stable _ ⟨_, _⟩ env op lasting.stable holds
      | upkeep upkeep => exact @Upkeep.call_lasting ⟨_, _⟩ env _ lasting upkeep holds
  | loaded file nowMs envs _ holds =>
      exact lasting.stable.loadStable.kvLoadSnapshot file nowMs envs holds
  | streamed line env _ holds => exact replicaApplyLine_stable lasting.stable line env holds

-- Any file

/-- (Withstands store after) says what a file can make of a store: defined calls lead there, the
table is intact, and the append-only file was reached by the steps of these calls.
-/
structure Store.Withstands (store after : Store) : Prop where
  fed : store.Fed after
  invariant : after.table.RepresentationInvariant
  values : ∀ entry ∈ after.table.entries, ∀ value ∈ entry.value.values, value.length ≤ 4096
  later : store.aof.Later after.aof

theorem Store.Fed.withstands {after : Store} (fed : store.Fed after) (sound : store.Sound)
    : store.Withstands after where
  fed := fed
  invariant := (fed.sound sound).wellFormed.representationInvariant
  values entry member value stored :=
    ((fed.sound sound).wellFormed.entries entry member).value.values_valid value stored
  later := fed.stable (Aof.later_stable _) .here

/-- No file can break a reachable store without a memory budget. Replaying any log and loading any
snapshot, with any failures on the way, leaves the representation invariant with valid keys and
values. On the way no call is undefined, every append to the rewrite buffer returns, and the load
is the same with any fuel beyond the length of the file.
-/
theorem input_files_keep_invariant (reachable : server.Reachable)
    (unlimited : server.store.table.maxMemoryBudget = 0) (file : List UInt8) (nowMs : Int64)
    (envs : Nat → CallEnv)
    : server.store.Withstands (replayAofLog server.store file envs)
      ∧ server.store.Withstands (kvLoadSnapshot server.store file nowMs envs).2
      ∧ (∀ reached, server.store.Fed reached →
          ∀ (op : Op) (env : CallEnv), (op.call env reached).1 ≠ .undefined)
      ∧ (∀ aof, server.store.aof.Later aof → aof.AppendReturns)
      ∧ ∀ loading fuel, loading.left ≤ file.length → file.length < fuel →
          loadEntries nowMs envs fuel loading
            = loadEntries nowMs envs (file.length + 1) loading := by
  have sound : server.store.Sound := ⟨reachable.wellFormed, unlimited⟩
  have loaded := sound.fed_loadStable.kvLoadSnapshot file nowMs envs .refl
  refine ⟨(sound.replayAofLog_fed file envs).withstands sound, loaded.withstands sound, ?_, ?_, ?_⟩
  · intro reached fed
    exact fed.defined sound
  · intro aof later
    have ready := reachable.lasting Aof.bufferReady_lasting
    exact (later.stable Aof.bufferReady_lasting.stable ready).appendReturns
  · intro loading fuel within enough
    exact loadEntries_fuel nowMs envs (by omega) (by omega)

/-- A snapshot that ends within a list: nine elements are announced and one is there. -/
def shortListFile : List UInt8 :=
  snapshotMagic ++ leBytes 8 0 ++ leBytes 4 1 ++ [107] ++ [1] ++ leBytes 4 9 ++ leBytes 4 1 ++ [120]

/-- The load of such a file fails, and the element that was there is stored. -/
theorem input_files_keep_invariant_short
    : ∃ start,
        kvInitFull 1 0 0 none [] 7 (.at 0) (fun _ => .at 0) = .ok start
        ∧ (kvLoadSnapshot start shortListFile 5 (fun _ => .at 0)).1 = kvErrIo
        ∧ (kvLoadSnapshot start shortListFile 5 (fun _ => .at 0)).2.table.size = 1
        ∧ start.Withstands (kvLoadSnapshot start shortListFile 5 (fun _ => .at 0)).2 := by
  obtain ⟨start, isStart, unlimited, fails, stores⟩ : ∃ start,
      kvInitFull 1 0 0 none [] 7 (.at 0) (fun _ => .at 0) = .ok start
      ∧ start.table.maxMemoryBudget = 0
      ∧ (kvLoadSnapshot start shortListFile 5 (fun _ => .at 0)).1 = kvErrIo
      ∧ (kvLoadSnapshot start shortListFile 5 (fun _ => .at 0)).2.table.size = 1 :=
    ⟨_, rfl, rfl, by decide +kernel, by decide +kernel⟩
  have opened := Server.Reachable.opened { mode := .master, replicas := [] } isStart
  have withstands := input_files_keep_invariant opened unlimited shortListFile 5 (fun _ => .at 0)
  exact ⟨start, isStart, fails, stores, withstands.2.1⟩

end MiniKv
