import MiniKv.Server.Protocol

/-! The event loop, the pool of tasks and its workers, before shutdown. A step is one critical
section, or the execution of one command outside of them; what the kernel does is an input of the
step. Clients keep their numbers and stay in the model when the code has freed them.
-/

namespace MiniKv

/-- `SERVER_MAX_CLIENTS`. -/
def serverMaxClients : Nat := 1024

/-- `SERVER_DEFAULT_QUEUE_SIZE`. -/
def serverDefaultQueueSize : Nat := 1024

/-- `SERVER_DEFAULT_WORKERS`. -/
def serverDefaultWorkers : Nat := 4

/-- `server_client_t`, without its read buffer. -/
structure Client where
  fd : Int
  closed : Bool
  cmdQueue : List (List UInt8)
  taskInFlight : Bool
  refCount : Int
deriving DecidableEq

/-- What is submitted to the pool: `server_worker_client_task` for a client, or
`eviction_sweep_task`.
-/
inductive PoolTask where
  | client (id : Nat)
  | sweep
deriving DecidableEq

/-- Where a worker is: waiting for a task, in a sweep, or in `server_worker_client_task` of a
client: before its loop looks at the queue, with a command it has taken out, with a response, before
`server_close_client`, and before `client_release_ref`.
-/
inductive Worker where
  | idle
  | sweeping
  | serving (id : Nat)
  | executing (id : Nat) (line : List UInt8)
  | responding (id : Nat) (response : Response)
  | closing (id : Nat)
  | releasing (id : Nat)
deriving DecidableEq

/-- Where the event loop is: in `epoll_wait`, in `client_handle_read` with the lines it has still to
enqueue and whether it fails in the end, or before `server_close_client`.
-/
inductive EventLoop where
  | waiting
  | reading (id : Nat) (lines : List (List UInt8)) (fails : Bool)
  | closing (id : Nat)
deriving DecidableEq

/-- The server with its clients by number, the list of linked ones, and the pool. -/
structure Reactor where
  server : Server
  clients : List Client
  linked : List Nat
  clientCount : Nat
  queueCapacity : Nat
  queue : List PoolTask
  workers : List Worker
  eventLoop : EventLoop

/-- What `epoll_wait` reports: the timer; a connection with its descriptor, whether a client could
be allocated and registered; data of a descriptor with the lines they complete; a peer that is gone.
-/
inductive Readiness where
  | timer
  | connection (fd : Nat) (allocated registered : Bool)
  | data (fd : Nat) (lines : List (List UInt8)) (fails : Bool)
  | hangup (fd : Nat)
deriving DecidableEq

/-- The outside world of a worker's step: of the command it may execute, of the sweep, and whether
all bytes of the response could be sent.
-/
structure WorkerEnv where
  command : CommandEnv
  prng : UInt32
  sent : Bool

/-- A turn of the event loop, or of a worker. -/
inductive ReactorTurn where
  | loop (readiness : Readiness)
  | worker (index : Nat) (env : WorkerEnv)

/-- What a step does for a client: the event loop enqueues a command, a worker has executed one, has
dealt with its response, or has given up its reference.
-/
inductive ClientEvent where
  | enqueued (id : Nat) (line : List UInt8)
  | executed (id : Nat) (line : List UInt8)
  | answered (id : Nat) (response : Response)
  | released (id : Nat)
deriving DecidableEq

def Reactor.setClient (reactor : Reactor) (id : Nat) (client : Client) : Reactor :=
  { reactor with clients := reactor.clients.set id client }

def Reactor.setWorker (reactor : Reactor) (index : Nat) (worker : Worker) : Reactor :=
  { reactor with workers := reactor.workers.set index worker }

def Reactor.setLoop (reactor : Reactor) (eventLoop : EventLoop) : Reactor :=
  { reactor with eventLoop }

-- Clients

/-- The queue of the pool is full. -/
def Reactor.poolFull (reactor : Reactor) : Bool :=
  reactor.queueCapacity ≤ reactor.queue.length

/-- `thread_pool_submit`. -/
def Reactor.threadPoolSubmit (reactor : Reactor) (task : PoolTask) : Reactor :=
  if reactor.poolFull then reactor else { reactor with queue := reactor.queue ++ [task] }

/-- `server_close_client`. -/
def Reactor.serverCloseClient (reactor : Reactor) (id : Nat) : Reactor :=
  match reactor.clients[id]? with
  | none => reactor
  | some client =>
      if client.fd < 0 then reactor
      else
        { reactor.setClient id
            { client with closed := true, fd := -1, refCount := client.refCount - 1 } with
          linked := reactor.linked.erase id
          clientCount :=
            if id ∈ reactor.linked ∧ 0 < reactor.clientCount then reactor.clientCount - 1
            else reactor.clientCount }

/-- `client_release_ref`. -/
def Reactor.clientReleaseRef (reactor : Reactor) (id : Nat) : Reactor :=
  match reactor.clients[id]? with
  | none => reactor
  | some client => reactor.setClient id { client with refCount := client.refCount - 1 }

/-- `server_find_client`. -/
def Reactor.serverFindClient (reactor : Reactor) (fd : Int) : Option Nat :=
  reactor.linked.find? (fun id =>
    match reactor.clients[id]? with
    | none => false
    | some client => client.fd = fd)

/-- A connection: the client is linked, unless there are too many or it cannot be allocated, and
closed again when its descriptor cannot be registered.
-/
def Reactor.accept (reactor : Reactor) (fd : Nat) (allocated registered : Bool) : Reactor :=
  if serverMaxClients ≤ reactor.clientCount ∨ allocated = false then reactor
  else
    let id := reactor.clients.length
    { reactor with
      clients := reactor.clients
        ++ [{ fd, closed := false, cmdQueue := [], taskInFlight := false, refCount := 1 }]
      linked := id :: reactor.linked
      clientCount := reactor.clientCount + 1
      eventLoop := if registered then reactor.eventLoop else .closing id }

/-- The critical section of `client_handle_read`: the line is enqueued, and a task is submitted for
it unless one is in flight or the client is closed. A refused submission is taken back.
-/
def Reactor.enqueue (reactor : Reactor) (id : Nat) (line : List UInt8)
    : Option ClientEvent × Reactor :=
  match reactor.clients[id]? with
  | none => (none, reactor)
  | some client =>
      let queued := { client with cmdQueue := client.cmdQueue ++ [line] }
      (some (.enqueued id line),
        if client.taskInFlight ∨ client.closed ∨ reactor.poolFull then reactor.setClient id queued
        else
          (reactor.threadPoolSubmit (.client id)).setClient id
            { queued with taskInFlight := true, refCount := client.refCount + 1 })

-- The event loop

/-- What `server_run` does with one event. -/
def Reactor.react (reactor : Reactor) : Readiness → Reactor
  | .timer => reactor.threadPoolSubmit .sweep
  | .connection fd allocated registered => reactor.accept fd allocated registered
  | .data fd lines fails =>
      match reactor.serverFindClient fd with
      | none => reactor
      | some id => reactor.setLoop (.reading id lines fails)
  | .hangup fd =>
      match reactor.serverFindClient fd with
      | none => reactor
      | some id => reactor.setLoop (.closing id)

/-- One step of the event loop; it takes in an event when it is done with the one before. -/
def Reactor.loopStep (reactor : Reactor) (readiness : Readiness)
    : Option ClientEvent × Reactor :=
  match reactor.eventLoop with
  | .waiting => (none, reactor.react readiness)
  | .reading id (line :: rest) fails =>
      (reactor.setLoop (.reading id rest fails)).enqueue id line
  | .reading id [] fails => (none, reactor.setLoop (if fails then .closing id else .waiting))
  | .closing id => (none, (reactor.setLoop .waiting).serverCloseClient id)

-- The workers

/-- Where a worker starts with a task. -/
def PoolTask.worker : PoolTask → Worker
  | .client id => .serving id
  | .sweep => .sweeping

/-- The first critical section of the loop of `server_worker_client_task`. -/
def Client.serve (client : Client) (id : Nat) : Client × Worker :=
  if client.closed then ({ client with taskInFlight := false }, .releasing id)
  else
    match client.cmdQueue with
    | [] => ({ client with taskInFlight := false }, .releasing id)
    | line :: rest => ({ client with cmdQueue := rest }, .executing id line)

/-- The second one: the response is sent, and the client is closed when that fails or the command
says so. A detached client loses its descriptor and is then closed too.
-/
def Client.respond (client : Client) (id : Nat) (response : Response) (sent : Bool)
    : Client × Worker :=
  let lost := !client.closed && 0 ≤ client.fd && 0 < response.outLen && !sent
  let client := if response.detach then { client with fd := -1 } else client
  (client, if response.detach || response.close || lost then .closing id else .serving id)

/-- The store after a sweep, with the arguments of `eviction_sweep_task`. -/
def Server.sweep (server : Server) (env : WorkerEnv) : Server :=
  { server with
    store := (server.store.step
      ⟨.upkeep (.expireSampleSweep 20 10), env.command.call, env.prng⟩).2 }

/-- One step of a worker. A command whose store call is undefined does not return. -/
def Reactor.workerStep (reactor : Reactor) (index : Nat) (env : WorkerEnv)
    : Option ClientEvent × Reactor :=
  match reactor.workers[index]? with
  | none => (none, reactor)
  | some .idle =>
      match reactor.queue with
      | [] => (none, reactor)
      | task :: rest => (none, { reactor with queue := rest }.setWorker index task.worker)
  | some .sweeping =>
      (none, { reactor with server := reactor.server.sweep env }.setWorker index .idle)
  | some (.serving id) =>
      match reactor.clients[id]? with
      | none => (none, reactor)
      | some client =>
          let served := client.serve id
          (none, (reactor.setClient id served.1).setWorker index served.2)
  | some (.executing id line) =>
      match reactor.clients[id]? with
      | none => (none, reactor)
      | some client =>
          let executed := protocolExecuteCommand reactor.server line
            { env.command with clientFd := client.fd }
          match executed.1 with
          | none => (none, reactor)
          | some response =>
              (some (.executed id line),
                { reactor with server := executed.2 }.setWorker index (.responding id response))
  | some (.responding id response) =>
      match reactor.clients[id]? with
      | none => (none, reactor)
      | some client =>
          let answered := client.respond id response env.sent
          (some (.answered id response),
            (reactor.setClient id answered.1).setWorker index answered.2)
  | some (.closing id) =>
      (none, (reactor.serverCloseClient id).setWorker index (.releasing id))
  | some (.releasing id) =>
      (some (.released id), (reactor.clientReleaseRef id).setWorker index .idle)

-- Runs

def Reactor.step (reactor : Reactor) : ReactorTurn → Option ClientEvent × Reactor
  | .loop readiness => reactor.loopStep readiness
  | .worker index env => reactor.workerStep index env

/-- What happens along a schedule, and the reactor behind it. -/
def Reactor.run (reactor : Reactor) (turns : List ReactorTurn)
    : List (Option ClientEvent) × Reactor :=
  Foundations.Runs.run Reactor.step reactor turns

/-- A server that has just been started. -/
def Reactor.start (server : Server) (queueCapacity workerCount : Nat) : Reactor :=
  { server, clients := [], linked := [], clientCount := 0, queueCapacity, queue := []
    workers := List.replicate workerCount .idle, eventLoop := .waiting }

end MiniKv
