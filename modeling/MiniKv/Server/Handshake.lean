import MiniKv.Server.Replication
import MiniKv.Store.Threads

/-! The SYNC handshake step by step: clients call `kv_set` and `kv_delete` on the master between the
steps of `replication_handle_sync`, and the replica loads the snapshot and applies the stream. The
channel is reliable and keeps the order; the line that announces the size of the snapshot is left
out.
-/

namespace MiniKv

-- The replica

/-- The size of the receive buffer of `replica_thread_main`. -/
def cmdbufSize : Nat := 4096

/-- The first complete line, as `strchr` finds its end, and what is behind it. -/
def nextLine : List UInt8 → Option (List UInt8 × List UInt8)
  | [] => none
  | byte :: rest =>
      if byte = lf then some ([], rest)
      else if byte = 0 then none
      else (nextLine rest).map (fun cut => (byte :: cut.1, cut.2))

/-- Applies the complete lines and returns what is left. Each line takes a byte at least, so the
number of bytes is enough fuel.
-/
def applyLines (env : CallEnv) : Nat → Store → List UInt8 → Store × List UInt8
  | 0, store, bytes => (store, bytes)
  | fuel + 1, store, bytes =>
      match nextLine bytes with
      | none => (store, bytes)
      | some (line, rest) => applyLines env fuel (replicaApplyLine store line env) rest

/-- `replica_thread_main` behind its SYNC: it waits for the snapshot, and then has a store and the
bytes of a line that is not complete.
-/
inductive Replica where
  | waiting
  | streaming (store : Store) (cmdbuf : List UInt8)

/-- The number of buckets of a replica's store. -/
def replicaBuckets : Nat := 1024

-- The handshake

/-- How far `replication_handle_sync` has come, with the file its child writes. -/
inductive SyncStage where
  | idle
  | forked (file : List UInt8)
  | waited (file : List UInt8)
  | sent
  | ended
deriving DecidableEq

/-- The master, the state of its SYNC for one socket, what is on the way to the replica, and the
replica.
-/
structure Handshake where
  master : Store
  replication : Replication
  socketFd : Int
  stage : SyncStage
  snapshot : Option (List UInt8)
  stream : List UInt8
  replica : Replica

inductive SyncEvent where
  | call (mutation : Mutation) (env : CallEnv)
  | fork (pid : Int) (now : Int64)
  | wait
  | send
  | attach (allocated : Bool)
  | load (prng : UInt32) (env : CallEnv) (now : Int64) (envs : Nat → CallEnv)
  | receive (count : Nat) (env : CallEnv)

/-- `replication_broadcast` reaches the socket. -/
def Handshake.attached (handshake : Handshake) : Bool :=
  handshake.replication.mode = .master && handshake.socketFd ∈ handshake.replication.replicas

/-- One event. A call of a client returns its status; an event out of turn does nothing. -/
def Handshake.step (handshake : Handshake) (event : SyncEvent) : Option Int × Handshake :=
  match event with
  | .call mutation env =>
      let called := mutation.call env handshake.master
      let records := called.2.aof.broadcasts.drop handshake.master.aof.broadcasts.length
      (some called.1,
        { handshake with
          master := called.2
          stream := if handshake.attached then handshake.stream ++ records.flatten
            else handshake.stream })
  | .fork pid now =>
      match handshake.stage with
      | .idle =>
          let saving := kvBgsave handshake.master pid
          if handshake.replication.mode ≠ .master ∨ saving.1 ≠ kvOk then (none, handshake)
          else
            (none, { handshake with
              master := saving.2
              stage := .forked (kvSaveInternalUnlocked handshake.master.table now) })
      | _ => (none, handshake)
  | .wait =>
      match handshake.stage with
      | .forked file =>
          (none, { handshake with
            master := { handshake.master with
              aof := { handshake.master.aof with bgsavePid := 0 } }
            stage := .waited file })
      | _ => (none, handshake)
  | .send =>
      match handshake.stage with
      | .waited file => (none, { handshake with stage := .sent, snapshot := some file })
      | _ => (none, handshake)
  | .attach allocated =>
      match handshake.stage with
      | .sent =>
          (none, { handshake with
            stage := .ended
            replication := handshake.replication.addReplica handshake.socketFd allocated })
      | _ => (none, handshake)
  | .load prng env now envs =>
      match handshake.replica, handshake.snapshot,
          kvInitFull replicaBuckets 0 0 none [] prng env envs with
      | .waiting, some file, .ok store =>
          (none, { handshake with
            snapshot := none
            replica := .streaming (kvLoadSnapshot store file now envs).2 [] })
      | _, _, _ => (none, handshake)
  | .receive count env =>
      match handshake.replica with
      | .waiting => (none, handshake)
      | .streaming store cmdbuf =>
          let taken := min count (cmdbufSize - cmdbuf.length - 1)
          let bytes := cmdbuf ++ handshake.stream.take taken
          let applied := applyLines env bytes.length store bytes
          (none, { handshake with
            stream := handshake.stream.drop taken
            replica := .streaming applied.1 applied.2 })

/-- A run of events. -/
def Handshake.run (handshake : Handshake) (events : List SyncEvent)
    : List (Option Int) × Handshake :=
  Foundations.Runs.run Handshake.step handshake events

/-- A master and a replica whose SYNC has just arrived. -/
def Handshake.start (master : Store) (replication : Replication) (socketFd : Int) : Handshake :=
  { master, replication, socketFd, stage := .idle, snapshot := none, stream := [],
    replica := .waiting }

/-- With nothing in between, the steps on the side of the master are `replication_handle_sync`. -/
theorem Handshake.run_alone (master : Store) (replication : Replication) (socketFd pid : Int)
    (now : Int64) (allocated : Bool)
    : let ended := ((Handshake.start master replication socketFd).run
        [.fork pid now, .wait, .send, .attach allocated]).2
      (ended.replication, ended.master)
        = (replicationHandleSync replication master socketFd pid (.sent allocated)).2 := by
  by_cases isMaster : replication.mode = .master
  · by_cases saved : (kvBgsave master pid).1 = kvOk
    · simp [Handshake.run, Foundations.Runs.run, Handshake.start, Handshake.step,
        replicationHandleSync, isMaster, saved]
    · have same : (kvBgsave master pid).2 = master := by
        simp only [kvBgsave] at saved ⊢
        split_ifs at saved ⊢
        · rfl
        · rfl
        · exact absurd rfl saved
      simp [Handshake.run, Foundations.Runs.run, Handshake.start, Handshake.step,
        replicationHandleSync, isMaster, saved, same]
  · simp [Handshake.run, Foundations.Runs.run, Handshake.start, Handshake.step,
      replicationHandleSync, isMaster]

end MiniKv
