import MiniKv.Persistence.Snapshot
import MiniKv.Store.Calls

/-! The replication state of a server and its part of the SYNC handshake. What goes over the
sockets is left out here: a client sees the outcome, and the store sees a background save.
-/

namespace MiniKv

/-- `replica_mode_t`. -/
inductive ReplicaMode where
  | none
  | master
  | replica
deriving DecidableEq

/-- `replication_state_t`: the mode, and the sockets of the attached replicas, newest first. -/
structure Replication where
  mode : ReplicaMode
  replicas : List Int

/-- `kv_bgsave`; `pid` is what `fork` returns to the parent. -/
def kvBgsave (store : Store) (pid : Int) : Int × Store :=
  if store.aof.bgsavePid ≠ 0 ∨ store.aof.rewritePid ≠ 0 then (kvErrAgain, store)
  else if pid < 0 then (kvErrIo, store)
  else (kvOk, { store with aof := { store.aof with bgsavePid := pid } })

/-- `replication_add_replica`; without memory for a list node nothing happens. -/
def Replication.addReplica (replication : Replication) (socketFd : Int) (allocated : Bool)
    : Replication :=
  if replication.mode = .master ∧ allocated = true then
    { replication with replicas := socketFd :: replication.replicas }
  else replication

/-- How the child of a SYNC and the reading of its snapshot end. -/
inductive SyncOutcome where
  | childFailed
  | openFailed
  | sent (allocated : Bool)
deriving DecidableEq

/-- `replication_handle_sync`: 0 and an attached replica, or -1. -/
def replicationHandleSync (replication : Replication) (store : Store) (socketFd pid : Int)
    (outcome : SyncOutcome)
    : Int × Replication × Store :=
  if replication.mode ≠ .master then (-1, replication, store)
  else
    let saving := kvBgsave store pid
    if saving.1 ≠ kvOk then (-1, replication, saving.2)
    else
      -- waitpid, then the pid is forgotten again.
      let waited := { saving.2 with aof := { saving.2.aof with bgsavePid := 0 } }
      match outcome with
      | .childFailed => (-1, replication, waited)
      | .openFailed => (-1, replication, waited)
      | .sent allocated => (0, replication.addReplica socketFd allocated, waited)

/-- One line of the stream, as `replica_thread_main` applies it: SET and DELETE with a TAB behind
the word, everything else is passed over.
-/
def replicaApplyLine (store : Store) (line : List UInt8) (env : CallEnv) : Store :=
  if (Command.set.word ++ [tab]).isPrefixOf line then
    match splitAtDelim tab (line.drop 4) with
    | (_, none) => store
    | (key, some value) =>
        (kvSetInternal store (some (CString.ofBuffer key)) (some (CString.ofBuffer value)) env).2
  else if (Command.delete.word ++ [tab]).isPrefixOf line then
    (kvDeleteInternal store (some (CString.ofBuffer (line.drop 7))) env 0).2
  else store

end MiniKv
