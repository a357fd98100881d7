import MiniKv.Invariants.Accounting
import MiniKv.Server.Protocol

/-! What a server does to its store. A command line leads to one store operation or to none, so
the invariants of the operations carry over to every store a server can hold.
-/

namespace MiniKv

variable {store : Store} {server : Server}

-- Loading a snapshot

/-- The store behind a load, whether it failed or not. -/
def loadedStore : Except Store Loading → Store
  | .error store => store
  | .ok loading => loading.store

/-- A property of the store that the calls of the loader keep. -/
structure Store.LoadStable (Property : Store → Prop) : Prop where
  set : ∀ (store : Store) (key value : CString) (env : CallEnv), Property store →
    Property (kvSet store (some key) (some value) env).2
  lpush : ∀ (store : Store) (key value : CString) (env : CallEnv), Property store →
    Property (kvLpush store (some key) (some value) env).2
  sadd : ∀ (store : Store) (key value : CString) (env : CallEnv), Property store →
    Property (kvSadd store (some key) (some value) env).2
  deadline : ∀ (store : Store) (key : CString) (expireAtMs : Int64), Property store →
    Property (store.setDeadline key expireAtMs)

namespace Store.LoadStable

variable {Property : Store → Prop}

/-- What every push keeps is kept by the element loop, by induction on the number of elements. -/
theorem loadElements {push : Store → CString → CallEnv → Store}
    (pushes : ∀ (store : Store) (element : CString) (env : CallEnv), Property store →
      Property (push store element env))
    (envs : Nat → CallEnv) (count : Nat) (loading : Loading) (holds : Property loading.store)
    : Property (loadedStore (loadElements push envs count loading)) := by
  induction count generalizing loading with
  | zero => exact holds
  | succ count ih =>
      simp only [MiniKv.loadElements]
      split
      · exact holds
      · exact ih ⟨_, _, _⟩ (pushes _ _ _ holds)

theorem loadString (stable : Store.LoadStable Property) (key : CString) (expireAt : Nat)
    (valid : Bool) (envs : Nat → CallEnv) (loading : Loading) (holds : Property loading.store)
    : Property (loadedStore (loadString key expireAt valid envs loading)) := by
  simp only [MiniKv.loadString]
  split
  · exact holds
  · next value reader _ =>
      have set := stable.set loading.store key value (envs loading.nth) holds
      simp only [loadedStore]
      split
      · split
        · exact stable.deadline _ key _ set
        · exact set
      · exact holds

theorem loadContainer (stable : Store.LoadStable Property)
    {push : Store → CString → CallEnv → Store}
    (pushes : ∀ (store : Store) (element : CString) (env : CallEnv), Property store →
      Property (push store element env))
    (key : CString) (expireAt : Nat) (valid : Bool) (envs : Nat → CallEnv) (loading : Loading)
    (holds : Property loading.store)
    : Property (loadedStore (loadContainer push key expireAt valid envs loading)) := by
  simp only [MiniKv.loadContainer]
  split
  · exact holds
  · next count reader _ =>
      have pushed : ∀ (store : Store) (element : CString) (env : CallEnv), Property store →
          Property ((if valid = true then push else fun store _ _ => store) store element env) := by
        intro store element env holds
        split
        · exact pushes store element env holds
        · exact holds
      have elements := loadElements pushed envs count { loading with reader } holds
      revert elements
      cases MiniKv.loadElements (if valid = true then push else fun store _ _ => store) envs count
          { loading with reader } with
      | error store => exact id
      | ok loaded =>
          intro elements
          simp only [Except.map, loadedStore]
          split
          · exact stable.deadline _ key _ elements
          · exact elements

theorem loadEntry (stable : Store.LoadStable Property) (nowMs : Int64) (expireAt : Nat)
    (envs : Nat → CallEnv) (loading : Loading) (holds : Property loading.store)
    : Property (loadedStore (loadEntry nowMs expireAt envs loading)) := by
  simp only [MiniKv.loadEntry]
  split
  · exact holds
  · next key reader _ =>
      split
      · exact holds
      · next typeByte behind _ =>
          let entered : Loading := ⟨behind, loading.store, loading.nth + 1⟩
          split
          · exact stable.loadString key expireAt _ envs entered holds
          · exact stable.loadContainer (fun store => stable.lpush store key) key expireAt _ envs
              entered holds
          · exact stable.loadContainer (fun store => stable.sadd store key) key expireAt _ envs
              entered holds
          · exact holds

/-- The entry loop, by induction on its fuel. -/
theorem loadEntries (stable : Store.LoadStable Property) (nowMs : Int64) (envs : Nat → CallEnv)
    (fuel : Nat) (loading : Loading) (holds : Property loading.store)
    : Property (loadedStore (loadEntries nowMs envs fuel loading)) := by
  induction fuel generalizing loading with
  | zero => exact holds
  | succ fuel ih =>
      simp only [MiniKv.loadEntries]
      split
      · exact holds
      · next expireAt reader _ =>
          split
          · exact holds
          · have entry := stable.loadEntry nowMs expireAt envs { loading with reader } holds
            revert entry
            cases MiniKv.loadEntry nowMs expireAt envs { loading with reader } with
            | error store => exact id
            | ok loaded => exact ih loaded

/-- Loading any file keeps the property, also when the load fails. -/
theorem kvLoadSnapshot (stable : Store.LoadStable Property) (file : List UInt8) (nowMs : Int64)
    (envs : Nat → CallEnv) (holds : Property store)
    : Property (kvLoadSnapshot store file nowMs envs).2 := by
  simp only [MiniKv.kvLoadSnapshot]
  split
  · exact holds
  · next magic reader _ =>
      split
      · exact holds
      · have entries :=
          stable.loadEntries nowMs envs (file.length + 1) { reader, store, nth := 0 } holds
        revert entries
        cases MiniKv.loadEntries nowMs envs (file.length + 1) { reader, store, nth := 0 } with
        | error store => exact id
        | ok loaded =>
            intro entries
            simp only
            split_ifs <;> exact entries

end Store.LoadStable

/-- The tables on a path from a well-formed one are kept on it by every call of the loader. -/
theorem Table.path_loadStable {table : Table} (wf : table.WellFormed)
    : Store.LoadStable (fun store => table.Path store.table) where
  set _ _ _ env path := path.trans (kvSet_stores (path.keeps wf).wellFormed _ _ env).path
  lpush _ _ _ env path := path.trans (kvLpush_stores (path.keeps wf).wellFormed _ _ env).path
  sadd _ _ _ env path := path.trans (kvSadd_stores (path.keeps wf).wellFormed _ _ env).path
  deadline _ key expireAtMs path := path.trans (Table.setDeadline_quiet _ key expireAtMs).path

/-- Loading any file is a path of the table, also when the load fails. -/
theorem kvLoadSnapshot_path (wf : store.table.WellFormed) (file : List UInt8) (nowMs : Int64)
    (envs : Nat → CallEnv)
    : store.table.Path (kvLoadSnapshot store file nowMs envs).2.table :=
  (Table.path_loadStable wf).kvLoadSnapshot file nowMs envs (.refl _)

-- Commands

/-- The store operation that a command leads to. -/
def Verb.operation (verb : Verb) (args : Arguments) : Option Op :=
  match verb with
  | .sync | .ping | .quit | .save | .bgsave | .bgrewriteaof => none
  | .get => args.key.map (fun key => .get (some key))
  | .exist => args.key.map (fun key => .exist (some key))
  | .delete => args.key.map (fun key => .delete (some key))
  | .lpush => args.keyValue.map (fun (key, value) => .lpush (some key) (some value))
  | .rpop => args.key.map (fun key => .rpop (some key))
  | .llen => args.key.map (fun key => .llen (some key))
  | .sadd => args.keyValue.map (fun (key, value) => .sadd (some key) (some value))
  | .srem => args.keyValue.map (fun (key, value) => .srem (some key) (some value))
  | .scard => args.key.map (fun key => .scard (some key))
  | .smembers => args.key.map (fun key => .smembers (some key))
  | .set =>
      args.split.bind (fun (key, value) =>
        if kvMaxKeyLen < key.length ∨ kvMaxValueLen < value.length then none
        else some (.set (some (CString.ofBuffer key)) (some (CString.ofBuffer value))))
  | .expire => args.duration.map (fun (key, seconds) => .expire (some key) seconds)
  | .pexpire => args.duration.map (fun (key, milliseconds) => .pexpire (some key) milliseconds)
  | .ttl => args.key.map (fun key => .ttl (some key))
  | .pttl => args.key.map (fun key => .pttl (some key))
  | .persist => args.key.map (fun key => .persist (some key))

/-- The table behind an operation that may be missing. -/
def Store.tableAfter (store : Store) (env : CallEnv) : Option Op → Table
  | none => store.table
  | some op => (op.call env store).2.table

theorem kvBgsave_table (store : Store) (pid : Int)
    : (kvBgsave store pid).2.table = store.table := by
  simp only [kvBgsave]
  split_ifs <;> rfl

theorem replicationHandleSync_table (replication : Replication) (store : Store)
    (socketFd pid : Int) (outcome : SyncOutcome)
    : (replicationHandleSync replication store socketFd pid outcome).2.2.table = store.table := by
  have saved := kvBgsave_table store pid
  simp only [replicationHandleSync]
  split_ifs
  · rfl
  · exact saved
  · cases outcome <;> exact saved

/-- The commands that start a child process. -/
def Verb.startsChild : Verb → Bool
  | .sync | .bgsave | .bgrewriteaof => true
  | _ => false

/-- A command that starts no child leaves the store as its operation does. -/
theorem Verb.execute_store {verb : Verb} (starts : verb.startsChild = false) (server : Server)
    (args : Arguments) (env : CommandEnv)
    : (verb.execute server args env).2.store
      = (verb.operation args).elim server.store (fun op => (op.call env.call server.store).2) := by
  cases verb
  case sync | bgsave | bgrewriteaof => contradiction
  case ping | quit =>
    simp only [Verb.execute, executePing, executeQuit, Verb.operation]
    cases args.nothing <;> rfl
  case save =>
    simp only [Verb.execute, executeSave, Verb.operation]
    cases args.nothing with
    | none => rfl
    | some _ =>
        simp only [Server.whenGiven]
        split <;> rfl
  case get =>
    simp only [Verb.execute, executeGet, Verb.operation]
    cases args.key with
    | none => rfl
    | some key =>
        simp only [Server.whenGiven]
        split <;> rfl
  case set =>
    simp only [Verb.execute, executeSet, Verb.operation]
    cases args.split with
    | none => rfl
    | some both =>
        simp only [Server.whenGiven, Option.bind_some]
        split_ifs <;> first | rfl | omega
  case lpush | sadd | srem =>
    simp only [Verb.execute, executeLpush, executeSadd, executeSrem, Verb.operation]
    cases args.keyValue <;> rfl
  case expire | pexpire =>
    simp only [Verb.execute, executeExpire, executePexpire, Verb.operation]
    cases args.duration <;> rfl
  all_goals
    simp only [Verb.execute, executeExists, executeDelete, executeRpop, executeLlen, executeScard,
      executeSmembers, executeTtl, executePttl, executePersist, Verb.operation]
    cases args.key <;> rfl

/-- A command changes the table as its operation does, and not at all without one. -/
theorem Verb.execute_table (verb : Verb) (server : Server) (args : Arguments) (env : CommandEnv)
    : (verb.execute server args env).2.store.table
      = server.store.tableAfter env.call (verb.operation args) := by
  by_cases starts : verb.startsChild = false
  · rw [Verb.execute_store starts]
    cases verb.operation args <;> rfl
  · cases verb
    case sync => exact replicationHandleSync_table _ _ _ _ _
    case bgsave => exact kvBgsave_table _ _
    case bgrewriteaof => exact kvBgrewriteaof_table _ _
    all_goals exact absurd rfl starts

/-- The command word of a line and its arguments. -/
def lineCommand (line : List UInt8) : Option (Verb × Arguments) :=
  let command := splitAtDelim 32 (CString.ofBuffer line).bytes
  (verbOrder.find? (fun verb => verb.word = command.1)).map (fun verb => (verb, command.2))

/-- Executing a line is a fixed reply, or executing its command. -/
theorem protocolExecuteCommand_cases (server : Server) (line : List UInt8) (env : CommandEnv)
    : (lineCommand line = none
        ∧ (protocolExecuteCommand server line env = server.reply emptyCommand
          ∨ protocolExecuteCommand server line env = server.reply unknownCommand))
      ∨ ∃ verb args, lineCommand line = some (verb, args)
        ∧ protocolExecuteCommand server line env
          = if verb.isWrite ∧ server.replication.mode = .replica then server.reply readOnlyReplica
            else verb.execute server args env := by
  have empty : verbOrder.find? (fun verb => verb.word = []) = none := by decide
  by_cases blank : (splitAtDelim 32 (CString.ofBuffer line).bytes).1 = []
  · refine .inl ⟨by simp [lineCommand, blank, empty], .inl ?_⟩
    simp [protocolExecuteCommand, blank]
  · have nonempty : line ≠ [] := by
      rintro rfl
      exact blank rfl
    simp only [protocolExecuteCommand, lineCommand, if_neg nonempty, if_neg blank]
    cases verbOrder.find?
        (fun verb => verb.word = (splitAtDelim 32 (CString.ofBuffer line).bytes).1) with
    | none => exact .inl ⟨rfl, .inr rfl⟩
    | some verb => exact .inr ⟨verb, _, rfl, rfl⟩

-- Reachable servers

/-- The servers that any history leads to: command lines, other calls on the store, and on a
replica a reload from a snapshot and the lines of the stream.
-/
inductive Server.Reachable : Server → Prop where
  | opened {bucketCount maxCapacity maxMemoryBudget : Nat} {path : Option CString}
      {log : List UInt8} {prng : UInt32} {env : CallEnv} {lineEnvs : Nat → CallEnv}
      {store : Store} (replication : Replication)
      (success : kvInitFull bucketCount maxCapacity maxMemoryBudget path log prng env lineEnvs
        = .ok store)
      : Server.Reachable { store, replication }
  | command {server : Server} (line : List UInt8) (env : CommandEnv)
      (before : server.Reachable)
      : Server.Reachable (protocolExecuteCommand server line env).2
  | call {server : Server} (call : Call) (before : server.Reachable)
      : Server.Reachable { server with store := (server.store.step call).2 }
  | loaded {server : Server} (file : List UInt8) (nowMs : Int64) (envs : Nat → CallEnv)
      (before : server.Reachable)
      : Server.Reachable { server with store := (kvLoadSnapshot server.store file nowMs envs).2 }
  | streamed {server : Server} (line : List UInt8) (env : CallEnv) (before : server.Reachable)
      : Server.Reachable { server with store := replicaApplyLine server.store line env }

theorem replicaApplyLine_path (wf : store.table.WellFormed) (line : List UInt8) (env : CallEnv)
    : store.table.Path (replicaApplyLine store line env).table := by
  simp only [replicaApplyLine]
  split
  · split
    · exact .refl _
    · exact (kvSetInternal_stores wf _ _ env).path
  · split
    · exact (kvDeleteInternal_quiet store _ env 0).path
    · exact .refl _

theorem Store.tableAfter_path (wf : store.table.WellFormed) (env : CallEnv) (op : Option Op)
    : store.table.Path (store.tableAfter env op) := by
  cases op with
  | none => exact .refl _
  | some op => exact op.call_path env wf

theorem protocolExecuteCommand_path (wf : server.store.table.WellFormed) (line : List UInt8)
    (env : CommandEnv)
    : server.store.table.Path (protocolExecuteCommand server line env).2.store.table := by
  rcases protocolExecuteCommand_cases server line env with
    ⟨_, executed | executed⟩ | ⟨verb, args, _, executed⟩
  · exact executed ▸ .refl _
  · exact executed ▸ .refl _
  · rw [executed]
    split
    · exact .refl _
    · rw [verb.execute_table]
      exact Store.tableAfter_path wf env.call _

theorem Store.step_wellFormed (wf : store.table.WellFormed) (call : Call)
    : (store.step call).2.table.WellFormed := by
  let drawn : Store := { store with table := { store.table with prng := call.prng } }
  have drawnWf : drawn.table.WellFormed := wf.congr rfl rfl rfl
  obtain ⟨action, env, prng⟩ := call
  cases action with
  | op op => exact ((@Op.call_path drawn op env drawnWf).keeps drawnWf).wellFormed
  | upkeep upkeep => exact @Upkeep.call_wellFormed drawn upkeep env drawnWf

/-- Every reachable server holds a well-formed table, by induction on the history. -/
theorem Server.Reachable.wellFormed (reachable : server.Reachable)
    : server.store.table.WellFormed := by
  induction reachable with
  | opened replication success => exact (kvInitFull_keeps success).wellFormed
  | command line env _ wf => exact ((protocolExecuteCommand_path wf line env).keeps wf).wellFormed
  | call call _ wf => exact Store.step_wellFormed wf call
  | loaded file nowMs envs _ wf =>
      exact ((kvLoadSnapshot_path wf file nowMs envs).keeps wf).wellFormed
  | streamed line env _ wf => exact ((replicaApplyLine_path wf line env).keeps wf).wellFormed

end MiniKv
