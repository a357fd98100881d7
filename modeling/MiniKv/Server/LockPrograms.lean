import MiniKv.Store.LockPrograms

/-! The mutex operations of the event loop, of the pool with its workers, and of replication, in the
order in which the code makes them.
-/

namespace MiniKv.Locks

open MiniKv.Foundations.Locking

-- Replication

/-- `replication_add_replica`: a replica does nothing, and the node may not be allocated. -/
def replicationAddReplica : Code Unit :=
  exitsOr 2 (pure ()) do
    acquire .replicas
    release .replicas

/-- `replication_handle_sync`: only a master saves; the replica is added once the child has ended
well and its file can be opened.
-/
def replicationHandleSync (numLocks : Nat) : Code Unit :=
  exitsOr 1 (pure ()) do
    if ← kvBgsave numLocks then exitsOr 2 (pure ()) replicationAddReplica
    else return ()

-- The pool

/-- `thread_pool_submit`: whether it returns `KV_OK`. It fails when the pool shuts down or its queue
is full.
-/
def threadPoolSubmit : Code Bool := do
  acquire .queue
  exitsOr 2 (do release .queue; return false) (do release .queue; return true)

/-- `pthread_cond_wait` gives the mutex back and takes it again; how often, is left to the run. -/
def condWaits : Nat → Code Unit
  | 0 => pure ()
  | waits + 1 => do
      release .queue
      acquire .queue
      condWaits waits

/-- One round of `thread_pool_worker`: it ends with the pool, or runs a task outside the mutex. -/
def threadPoolWorker (waits : Nat) (task : Code Unit) : Code Unit := do
  acquire .queue
  condWaits waits
  if ← test then release .queue
  else
    release .queue
    task

-- Clients

/-- `client_release_ref`. -/
def clientReleaseRef : Code Unit := do
  acquire .clients
  release .clients

/-- `server_close_client`: a client without a descriptor is closed already. -/
def serverCloseClient (id : Nat) : Code Unit := do
  acquire .clients
  acquire (.client id)
  if ← test then
    release (.client id)
    release .clients
  else
    release (.client id)
    release .clients

/-- `server_find_client`: whether there is one. -/
def serverFindClient : Code Bool := do
  acquire .clients
  exitsOr 1 (do release .clients; return true) (do release .clients; return false)

/-- A command: it starts a SYNC, makes a call of the store, or does neither. -/
inductive Request where
  | sync
  | call (call : StoreCall)
  | other

/-- `protocol_execute_command`. -/
def protocolExecuteCommand (numLocks : Nat) : Request → Code Unit
  | .sync => replicationHandleSync numLocks
  | .call call => call.code numLocks
  | .other => pure ()

/-- `server_worker_client_task` for the commands it finds. Each round may find the client closed or
its queue empty, and may end in closing it after the response is sent under the client's mutex.
-/
def serverWorkerClientTask (numLocks id : Nat) : List Request → Code Unit
  | [] => do
      acquire (.client id)
      release (.client id)
      clientReleaseRef
  | request :: rest => do
      acquire (.client id)
      if ← test then
        release (.client id)
        clientReleaseRef
      else
        release (.client id)
        protocolExecuteCommand numLocks request
        acquire (.client id)
        release (.client id)
        if ← test then
          serverCloseClient id
          clientReleaseRef
        else serverWorkerClientTask numLocks id rest

/-- A task is submitted unless one is in flight or the client is closed. -/
def submitUnlessRunning : Code Unit := do
  if ← test then
    let _ ← threadPoolSubmit
    return ()
  else return ()

/-- `client_handle_read` for the lines it finds: whether it returns 0. It fails when nothing more
can be received, a line is too long or there is no memory for it.
-/
def clientHandleRead (id : Nat) : Nat → Code Bool
  | 0 => exitsOr 1 (pure false) (pure true)
  | lines + 1 =>
      exitsOr 1 (pure false) do
        acquire .clients
        acquire (.client id)
        submitUnlessRunning
        release (.client id)
        release .clients
        clientHandleRead id lines

-- Threads

/-- What `server_run` reacts to: the timer, a connection, a client with a number of lines, a child
that has ended.
-/
inductive LoopEvent where
  | timer
  | connection (id : Nat)
  | client (id lines : Nat)
  | child

/-- One event of `server_run`. A connection over the limit, or without memory, is dropped. -/
def serverRun (numLocks : Nat) : LoopEvent → Code Unit
  | .timer => ignore threadPoolSubmit
  | .connection id =>
      exitsOr 2 (pure ()) do
        acquire .clients
        release .clients
        if ← test then serverCloseClient id else return ()
  | .client id lines => do
      if ← serverFindClient then
        if ← test then serverCloseClient id
        else if ← clientHandleRead id lines then return ()
        else serverCloseClient id
      else return ()
  | .child => do
      if ← test then ignore (kvMergeAofRewrite numLocks)
      else ignore (kvDiscardAofRewrite numLocks)

/-- The tasks of the pool. -/
inductive Task where
  | client (id : Nat) (requests : List Request)
  | sweep

def Task.code (numLocks : Nat) : Task → Code Unit
  | .client id requests => serverWorkerClientTask numLocks id requests
  | .sweep => ignore (kvExpireSampleSweep numLocks)

/-- What a thread may do: call the store, handle an event, run a task of the pool, or apply a record
of the master without a shard.
-/
inductive Activity where
  | call (call : StoreCall)
  | event (event : LoopEvent)
  | work (waits : Nat) (task : Task)
  | applySet
  | applyDelete

def Activity.code (numLocks : Nat) : Activity → Code Unit
  | .call storeCall => storeCall.code numLocks
  | .event loopEvent => serverRun numLocks loopEvent
  | .work waits task => threadPoolWorker waits (task.code numLocks)
  | .applySet => ignore kvSetInternal
  | .applyDelete => ignore kvDeleteInternal

/-- One activity after the other. -/
def inSequence (numLocks : Nat) : List Activity → Code Unit
  | [] => pure ()
  | activity :: rest => do
      activity.code numLocks
      inSequence numLocks rest

/-- A server whose store has a number of shards, with threads and what each of them does. -/
def start (numLocks : Nat) (threads : List (List Activity)) : System Mutex :=
  System.start Mutex.isRecursive (threads.map (inSequence numLocks))

end MiniKv.Locks
