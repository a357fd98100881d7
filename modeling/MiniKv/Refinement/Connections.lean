import MiniKv.Semantics.Connections
import MiniKv.Server.Reactor

/-! Every step of the server is, for each client, a step of that client by itself. -/

namespace MiniKv

open MiniKv.Foundations.Places

variable {reactor : Reactor} {id index : Nat}

/-- How far a worker has come with a task for a client, if it has one. -/
def Worker.stageOf (id : Nat) : Worker → Option Stage
  | .idle | .sweeping => none
  | .serving other => if other = id then some .serving else none
  | .executing other line => if other = id then some (.executing line) else none
  | .responding other response => if other = id then some (.responding response) else none
  | .closing other => if other = id then some .closing else none
  | .releasing other => if other = id then some .releasing else none

/-- The record of a client; before it is accepted there is none. -/
def Reactor.client (reactor : Reactor) (id : Nat) : Client :=
  (reactor.clients[id]?).getD
    { fd := -1, closed := false, cmdQueue := [], taskInFlight := false, refCount := 0 }

/-- A client by itself. -/
def Reactor.connection (reactor : Reactor) (id : Nat) : Connection where
  born := (reactor.clients[id]?).isSome
  fd := (reactor.client id).fd
  closed := (reactor.client id).closed
  pending := (reactor.client id).cmdQueue
  inFlight := (reactor.client id).taskInFlight
  refs := (reactor.client id).refCount
  linked := reactor.linked.contains id
  queued := reactor.queue.count (.client id)
  stages := reactor.workers.filterMap (Worker.stageOf id)

/-- What is seen of an event at a client. -/
def ClientEvent.sight (id : Nat) (full : Bool) : ClientEvent → Option Sight
  | .enqueued other line => if other = id then some (.received line full) else none
  | .executed other line => if other = id then some (.executed line) else none
  | .answered other response => if other = id then some (.answered response) else none
  | .released other => if other = id then some .released else none

/-- Where what is seen at a client comes from. -/
inductive Reactor.Shows (reactor : Reactor) (id : Nat) : ReactorTurn → Sight → Prop where
  | received {readiness : Readiness} {line : List UInt8} {rest : List (List UInt8)} {fails : Bool}
      {client : Client} (reading : reactor.eventLoop = .reading id (line :: rest) fails)
      (record : reactor.clients[id]? = some client)
      : Shows reactor id (.loop readiness) (.received line reactor.poolFull)
  | executed {index : Nat} {env : WorkerEnv} {line : List UInt8}
      (here : reactor.workers[index]? = some (.executing id line))
      : Shows reactor id (.worker index env) (.executed line)
  | answered {index : Nat} {env : WorkerEnv} {response : Response} {client : Client}
      (here : reactor.workers[index]? = some (.responding id response))
      (record : reactor.clients[id]? = some client)
      : Shows reactor id (.worker index env) (.answered response)
  | released {index : Nat} {env : WorkerEnv}
      (here : reactor.workers[index]? = some (.releasing id))
      : Shows reactor id (.worker index env) .released

/-- The list of clients has no client twice and is as long as it is said to be. -/
structure Reactor.Listed (reactor : Reactor) : Prop where
  nodup : reactor.linked.Nodup
  known : ∀ id ∈ reactor.linked, id < reactor.clients.length
  count : reactor.clientCount = reactor.linked.length

theorem Reactor.loopStep_shows {readiness : Readiness} {sight : Sight}
    (seen : (reactor.loopStep readiness).1.bind (ClientEvent.sight id reactor.poolFull)
      = some sight)
    : reactor.Shows id (.loop readiness) sight := by
  rw [Reactor.loopStep] at seen
  split at seen
  · cases seen
  · next other line rest fails reading =>
      rw [Reactor.enqueue] at seen
      cases record : reactor.clients[other]? with
      | none =>
          simp only [Reactor.setLoop, record] at seen
          cases seen
      | some client =>
          simp only [Reactor.setLoop, record] at seen
          obtain ⟨rfl, ⟨⟩⟩ := Option.ite_none_right_eq_some.mp seen
          exact .received reading record
  · cases seen
  · cases seen

theorem Reactor.workerStep_shows {env : WorkerEnv} {sight : Sight}
    (seen : (reactor.workerStep index env).1.bind (ClientEvent.sight id reactor.poolFull)
      = some sight)
    : reactor.Shows id (.worker index env) sight := by
  rw [Reactor.workerStep] at seen
  split at seen
  · cases seen
  · split at seen <;> cases seen
  · cases seen
  · split at seen <;> cases seen
  · next other line here =>
      split at seen
      · cases seen
      · simp only at seen
        split at seen
        · cases seen
        · obtain ⟨rfl, ⟨⟩⟩ := Option.ite_none_right_eq_some.mp seen
          exact .executed here
  · next other response here =>
      split at seen
      · cases seen
      · next client record =>
          obtain ⟨rfl, ⟨⟩⟩ := Option.ite_none_right_eq_some.mp seen
          exact .answered here record
  · cases seen
  · next other here =>
      obtain ⟨rfl, ⟨⟩⟩ := Option.ite_none_right_eq_some.mp seen
      exact .released here

/-- What is seen of a turn comes from where the event loop or the worker was. -/
theorem Reactor.step_shows {turn : ReactorTurn} {sight : Sight}
    (seen : (reactor.step turn).1.bind (ClientEvent.sight id reactor.poolFull) = some sight)
    : reactor.Shows id turn sight := by
  cases turn with
  | loop readiness => exact Reactor.loopStep_shows seen
  | worker index env => exact Reactor.workerStep_shows seen

-- Changes of one part

theorem Reactor.client_of_get {client : Client} (here : reactor.clients[id]? = some client)
    : reactor.client id = client := by
  rw [Reactor.client, here, Option.getD_some]

/-- The record of a client changes. -/
theorem Reactor.connection_setClient {old : Client} (here : reactor.clients[id]? = some old)
    (client : Client)
    : (reactor.setClient id client).connection id
      = { reactor.connection id with
          fd := client.fd
          closed := client.closed
          pending := client.cmdQueue
          inFlight := client.taskInFlight
          refs := client.refCount } := by
  have inside : id < reactor.clients.length := (List.getElem?_eq_some_iff.mp here).1
  have found : (reactor.setClient id client).client id = client := by
    simp [Reactor.client, Reactor.setClient, inside]
  simp only [Reactor.connection, found]
  simp [Reactor.setClient, inside]

theorem Reactor.connection_setClient_ne {other : Nat} (different : other ≠ id) (client : Client)
    : (reactor.setClient other client).connection id = reactor.connection id := by
  have found : (reactor.setClient other client).client id = reactor.client id := by
    simp [Reactor.client, Reactor.setClient, different]
  simp only [Reactor.connection, found]
  simp [Reactor.setClient, different]

/-- A worker gets on: its place among the workers of each client stays. -/
theorem Reactor.connection_setWorker {old : Worker} (here : reactor.workers[index]? = some old)
    (id : Nat)
    : ∃ before after,
        (reactor.connection id).stages = before ++ ((old.stageOf id).toList ++ after)
        ∧ ∀ new : Worker, (reactor.setWorker index new).connection id
          = { reactor.connection id with
              stages := before ++ ((new.stageOf id).toList ++ after) } := by
  obtain ⟨before, after, split, placed⟩ := exists_around here
  refine ⟨before.filterMap (Worker.stageOf id), after.filterMap (Worker.stageOf id), ?_, ?_⟩
  · rw [← filterMap_around, ← split]
    rfl
  · intro new
    rw [← filterMap_around, ← placed]
    rfl

/-- A worker on one client gets on: nothing changes for another client. -/
theorem Reactor.connection_setWorker_aside {old new : Worker}
    (here : reactor.workers[index]? = some old) (before : old.stageOf id = none)
    (after : new.stageOf id = none)
    : (reactor.setWorker index new).connection id = reactor.connection id := by
  obtain ⟨front, back, stages, placed⟩ := Reactor.connection_setWorker here id
  rw [placed, after, ← before, ← stages]

theorem Reactor.connection_submit (task : PoolTask) (aside : task ≠ .client id)
    : (reactor.threadPoolSubmit task).connection id = reactor.connection id := by
  rw [Reactor.threadPoolSubmit]
  split
  · rfl
  · simp [Reactor.connection, Reactor.client, List.count_append, aside]

/-- The list of clients changes. -/
theorem Reactor.connection_relink (reactor : Reactor) (linked : List Nat) (clientCount id : Nat)
    : Reactor.connection { reactor with linked, clientCount } id
      = { reactor.connection id with linked := linked.contains id } :=
  rfl

/-- The queue of the pool changes. -/
theorem Reactor.connection_requeue (reactor : Reactor) (queue : List PoolTask) (id : Nat)
    : Reactor.connection { reactor with queue } id
      = { reactor.connection id with queued := queue.count (.client id) } :=
  rfl

-- Clients

theorem Reactor.connection_close (listed : reactor.Listed) (id : Nat)
    : (reactor.serverCloseClient id).connection id = (reactor.connection id).close := by
  rw [Reactor.serverCloseClient, Connection.close]
  cases here : reactor.clients[id]? with
  | none =>
      have fd : (reactor.connection id).fd < 0 := by
        simp [Reactor.connection, Reactor.client, here]
      rw [if_pos fd]
  | some client =>
      have same : (reactor.connection id).fd = client.fd := by
        simp only [Reactor.connection, Reactor.client_of_get here]
      simp only [same]
      split
      · rfl
      · have unlinked : (reactor.linked.erase id).contains id = false := by
          simpa using listed.nodup.not_mem_erase
        have changed := Reactor.connection_setClient here
          { client with closed := true, fd := -1, refCount := client.refCount - 1 }
        rw [Reactor.connection_relink, changed, unlinked]
        simp only [Reactor.connection, Reactor.client_of_get here]

theorem Reactor.connection_close_ne {other : Nat} (different : other ≠ id)
    : (reactor.serverCloseClient other).connection id = reactor.connection id := by
  rw [Reactor.serverCloseClient]
  cases here : reactor.clients[other]? with
  | none => rfl
  | some client =>
      simp only
      split
      · rfl
      · have kept : (reactor.linked.erase other).contains id = reactor.linked.contains id := by
          simp [List.mem_erase_of_ne (Ne.symm different)]
        rw [Reactor.connection_relink, Reactor.connection_setClient_ne different, kept]
        rfl

theorem Reactor.connection_release_ne {other : Nat} (different : other ≠ id)
    : (reactor.clientReleaseRef other).connection id = reactor.connection id := by
  rw [Reactor.clientReleaseRef]
  cases here : reactor.clients[other]? with
  | none => rfl
  | some client => exact Reactor.connection_setClient_ne different _

/-- A connection is accepted, or nothing happens. -/
theorem Reactor.connection_accept (reactor : Reactor) (fd : Nat) (allocated registered : Bool)
    (id : Nat)
    : (reactor.connection id).Step none
        ((reactor.accept fd allocated registered).connection id) := by
  rw [Reactor.accept]
  split
  · exact .still
  · by_cases same : reactor.clients.length = id
    · subst same
      have unborn : (reactor.connection reactor.clients.length).born = false := by
        simp [Reactor.connection]
      have accepted := Connection.Step.accepted unborn fd
      simpa [Reactor.connection, Reactor.client] using accepted
    · have record : (reactor.clients ++ [⟨(fd : Int), false, [], false, 1⟩])[id]?
          = reactor.clients[id]? := by
        rcases Nat.lt_or_gt_of_ne same with beyond | inside
        · rw [List.getElem?_eq_none (by simpa using beyond), List.getElem?_eq_none (by omega)]
        · rw [List.getElem?_append_left inside]
      have unlinked : (reactor.clients.length :: reactor.linked).contains id
          = reactor.linked.contains id := by
        simp [Ne.symm same]
      have unchanged : (reactor.connection id).Step none (reactor.connection id) := .still
      simpa only [Reactor.connection, Reactor.client, record, unlinked] using unchanged

/-- A line is enqueued, with or without a task for it. -/
theorem Reactor.connection_enqueue (reactor : Reactor) (id : Nat) (line : List UInt8)
    : (reactor.connection id).Step
        ((reactor.enqueue id line).1.bind (ClientEvent.sight id reactor.poolFull))
        ((reactor.enqueue id line).2.connection id) := by
  rw [Reactor.enqueue]
  cases record : reactor.clients[id]? with
  | none => exact .still
  | some client =>
      have born : (reactor.connection id).born = true := by simp [Reactor.connection, record]
      have same := Reactor.client_of_get record
      have seen : (ClientEvent.enqueued id line).sight id reactor.poolFull
          = some (.received line reactor.poolFull) := if_pos rfl
      simp only [Option.bind_some, seen]
      split
      · next stays =>
          rw [Reactor.connection_setClient record]
          by_cases free : client.taskInFlight = true ∨ client.closed = true
          · rw [← same] at free ⊢
            exact .received line _ born free
          · obtain ⟨idle, isOpen⟩ := not_or.mp free
            have full : reactor.poolFull = true := by tauto
            rw [full]
            rw [← same, Bool.not_eq_true] at idle isOpen
            rw [← same]
            exact .refused line born idle isOpen
      · next submits =>
          obtain ⟨idle, isOpen, room⟩ := not_or.mp submits |>.imp_right not_or.mp
          rw [Bool.not_eq_true] at idle isOpen room
          have record' : (reactor.threadPoolSubmit (.client id)).clients[id]? = some client := by
            simp only [Reactor.threadPoolSubmit, room, Bool.false_eq_true, if_false, record]
          rw [Reactor.connection_setClient record']
          rw [← same] at idle isOpen
          have submitted := Connection.Step.submitted line born idle isOpen
          simpa [Reactor.threadPoolSubmit, Reactor.connection, Reactor.client, room, record,
            List.count_append] using submitted

theorem Reactor.connection_enqueue_ne {other : Nat} (different : other ≠ id) (full : Bool)
    (line : List UInt8)
    : (reactor.enqueue other line).1.bind (ClientEvent.sight id full) = none
      ∧ (reactor.enqueue other line).2.connection id = reactor.connection id := by
  rw [Reactor.enqueue]
  cases record : reactor.clients[other]? with
  | none => exact ⟨rfl, rfl⟩
  | some client =>
      refine ⟨if_neg different, ?_⟩
      simp only
      split
      · exact Reactor.connection_setClient_ne different _
      · rw [Reactor.connection_setClient_ne different]
        exact Reactor.connection_submit _ (by simpa using different)

-- The event loop

theorem Reactor.connection_react (reactor : Reactor) (readiness : Readiness) (id : Nat)
    : (reactor.connection id).Step none ((reactor.react readiness).connection id) := by
  cases readiness with
  | timer =>
      rw [Reactor.react, Reactor.connection_submit _ PoolTask.noConfusion]
      exact .still
  | connection fd allocated registered => exact reactor.connection_accept fd allocated registered id
  | _ =>
      rw [Reactor.react]
      split <;> exact .still

theorem Reactor.connection_loopStep (listed : reactor.Listed) (readiness : Readiness) (id : Nat)
    : (reactor.connection id).Step
        ((reactor.loopStep readiness).1.bind (ClientEvent.sight id reactor.poolFull))
        ((reactor.loopStep readiness).2.connection id) := by
  rw [Reactor.loopStep]
  split
  · exact reactor.connection_react readiness id
  · next other line rest fails reading =>
      by_cases same : other = id
      · subst same
        exact (reactor.setLoop (.reading other rest fails)).connection_enqueue other line
      · have aside := @Reactor.connection_enqueue_ne
          (reactor.setLoop (.reading other rest fails)) id other same reactor.poolFull line
        rw [aside.1, aside.2]
        exact .still
  · exact .still
  · next other closes =>
      by_cases same : other = id
      · subst same
        have moved : (reactor.setLoop .waiting).Listed :=
          ⟨listed.nodup, listed.known, listed.count⟩
        rw [Reactor.connection_close moved]
        exact .closedByLoop
      · rw [Reactor.connection_close_ne same]
        exact .still

-- The workers

/-- A client and a worker on it get on. -/
theorem Reactor.connection_setBoth {client : Client} (record : reactor.clients[id]? = some client)
    {old : Worker} (here : reactor.workers[index]? = some old)
    : ∃ before after,
        (reactor.connection id).stages = before ++ ((old.stageOf id).toList ++ after)
        ∧ ∀ (changed : Client) (new : Worker),
          ((reactor.setClient id changed).setWorker index new).connection id
          = { reactor.connection id with
              fd := changed.fd
              closed := changed.closed
              pending := changed.cmdQueue
              inFlight := changed.taskInFlight
              refs := changed.refCount
              stages := before ++ ((new.stageOf id).toList ++ after) } := by
  obtain ⟨before, after, stages, placed⟩ := Reactor.connection_setWorker here id
  refine ⟨before, after, stages, fun changed new => ?_⟩
  have record' : (reactor.setWorker index new).clients[id]? = some client := record
  have both := Reactor.connection_setClient record' changed
  rw [placed] at both
  exact both

/-- A worker on another client gets on. -/
theorem Reactor.connection_setBoth_ne {other : Nat} (different : other ≠ id) {old new : Worker}
    (here : reactor.workers[index]? = some old) (before : old.stageOf id = none)
    (after : new.stageOf id = none) (changed : Client)
    : ((reactor.setClient other changed).setWorker index new).connection id
      = reactor.connection id := by
  have here' : (reactor.setClient other changed).workers[index]? = some old := here
  rw [Reactor.connection_setWorker_aside here' before after,
    Reactor.connection_setClient_ne different]

/-- A worker takes a task out of the queue. -/
theorem Reactor.connection_take {task : PoolTask} {rest : List PoolTask}
    (here : reactor.workers[index]? = some .idle) (waiting : reactor.queue = task :: rest)
    (id : Nat)
    : (reactor.connection id).Step none
        (({ reactor with queue := rest }.setWorker index task.worker).connection id) := by
  by_cases mine : task = .client id
  · subst mine
    obtain ⟨before, after, stages, placed⟩ :=
      @Reactor.connection_setWorker { reactor with queue := rest } index _ here id
    have queued : (reactor.connection id).queued = rest.count (.client id) + 1 := by
      simp [Reactor.connection, waiting]
    rw [placed, Reactor.connection_requeue, PoolTask.worker, Worker.stageOf, if_pos rfl]
    exact .taken queued stages
  · have aside : task.worker.stageOf id = none := by
      cases task with
      | sweep => rfl
      | client other => exact if_neg (fun same => mine (by rw [same]))
    have queued : rest.count (.client id) = (reactor.connection id).queued := by
      simp [Reactor.connection, waiting, mine]
    rw [@Reactor.connection_setWorker_aside { reactor with queue := rest } id index _ _ here rfl
      aside, Reactor.connection_requeue reactor rest id, queued]
    exact .still

/-- A worker looks at the queue of its client. -/
theorem Reactor.connection_serve {other : Nat} {client : Client}
    (here : reactor.workers[index]? = some (.serving other))
    (record : reactor.clients[other]? = some client) (id : Nat)
    : (reactor.connection id).Step none
        (((reactor.setClient other (client.serve other).1).setWorker index
          (client.serve other).2).connection id) := by
  by_cases same : other = id
  · subst same
    obtain ⟨before, after, stages, placed⟩ := Reactor.connection_setBoth record here
    rw [Worker.stageOf, if_pos rfl] at stages
    have found := Reactor.client_of_get record
    rw [placed, Client.serve]
    split
    · next closed =>
        rw [← found] at closed ⊢
        rw [Worker.stageOf, if_pos rfl]
        exact .ended stages (.inl closed)
    · next isOpen =>
        rw [Bool.not_eq_true, ← found] at isOpen
        split
        · next empty =>
            rw [← found] at empty ⊢
            rw [Worker.stageOf, if_pos rfl]
            exact .ended stages (.inr empty)
        · next line rest more =>
            rw [← found] at more ⊢
            rw [Worker.stageOf, if_pos rfl]
            exact .popped stages isOpen more
  · have aside : (client.serve other).2.stageOf id = none := by
      rw [Client.serve]
      split
      · exact if_neg same
      · split <;> exact if_neg same
    rw [Reactor.connection_setBoth_ne same here (if_neg same) aside]
    exact .still

/-- A worker has executed a command. -/
theorem Reactor.connection_executed {other : Nat} {line : List UInt8}
    (here : reactor.workers[index]? = some (.executing other line)) (server : Server)
    (response : Response) (id : Nat) (full : Bool)
    : (reactor.connection id).Step ((ClientEvent.executed other line).sight id full)
        (({ reactor with server }.setWorker index (.responding other response)).connection id) := by
  by_cases same : other = id
  · subst same
    obtain ⟨before, after, stages, placed⟩ :=
      @Reactor.connection_setWorker { reactor with server } index _ here other
    rw [Worker.stageOf, if_pos rfl] at stages
    rw [placed, Worker.stageOf, if_pos rfl, ClientEvent.sight, if_pos rfl]
    exact .executed stages response
  · have before : (Worker.executing other line).stageOf id = none := if_neg same
    have after : (Worker.responding other response).stageOf id = none := if_neg same
    rw [@Reactor.connection_setWorker_aside { reactor with server } id index _ _ here before after,
      ClientEvent.sight, if_neg same]
    exact .still

theorem Client.respond_fst (client : Client) (id : Nat) (response : Response) (sent : Bool)
    : (client.respond id response sent).1
      = { client with fd := if response.detach then -1 else client.fd } := by
  rw [Client.respond]
  cases response.detach <;> rfl

theorem Client.respond_snd (client : Client) (id : Nat) (response : Response) (sent : Bool)
    : (client.respond id response sent).2 = .closing id
      ∨ (client.respond id response sent).2 = .serving id ∧ response.detach = false := by
  simp only [Client.respond]
  split
  · exact .inl rfl
  · next goesOn =>
      simp only [Bool.or_eq_true, not_or, Bool.not_eq_true] at goesOn
      exact .inr ⟨rfl, goesOn.1.1⟩

/-- A worker deals with a response. -/
theorem Reactor.connection_respond {other : Nat} {response : Response} {client : Client}
    (here : reactor.workers[index]? = some (.responding other response))
    (record : reactor.clients[other]? = some client) (sent : Bool) (id : Nat) (full : Bool)
    : (reactor.connection id).Step ((ClientEvent.answered other response).sight id full)
        (((reactor.setClient other (client.respond other response sent).1).setWorker index
          (client.respond other response sent).2).connection id) := by
  have goesOn := client.respond_snd other response sent
  by_cases same : other = id
  · subst same
    obtain ⟨before, after, stages, placed⟩ := Reactor.connection_setBoth record here
    rw [Worker.stageOf, if_pos rfl] at stages
    have found := Reactor.client_of_get record
    rw [placed, ClientEvent.sight, if_pos rfl, Client.respond_fst, ← found]
    rw [← found] at goesOn
    rcases goesOn with closes | ⟨serves, kept⟩
    · rw [closes, Worker.stageOf, if_pos rfl]
      exact .answered stages .closing (.inl rfl)
    · rw [serves, Worker.stageOf, if_pos rfl]
      exact .answered stages .serving (.inr ⟨rfl, kept⟩)
  · have aside : (client.respond other response sent).2.stageOf id = none := by
      rcases goesOn with closes | ⟨serves, _⟩
      · rw [closes]
        exact if_neg same
      · rw [serves]
        exact if_neg same
    rw [Reactor.connection_setBoth_ne same here (if_neg same) aside, ClientEvent.sight,
      if_neg same]
    exact .still

theorem Reactor.serverCloseClient_workers (reactor : Reactor) (id : Nat)
    : (reactor.serverCloseClient id).workers = reactor.workers := by
  rw [Reactor.serverCloseClient]
  split
  · rfl
  · split <;> rfl

theorem Reactor.clientReleaseRef_workers (reactor : Reactor) (id : Nat)
    : (reactor.clientReleaseRef id).workers = reactor.workers := by
  rw [Reactor.clientReleaseRef]
  split <;> rfl

/-- A worker closes its client. -/
theorem Reactor.connection_closing (listed : reactor.Listed) {other : Nat}
    (here : reactor.workers[index]? = some (.closing other)) (id : Nat)
    : (reactor.connection id).Step none
        (((reactor.serverCloseClient other).setWorker index (.releasing other)).connection id) := by
  rw [← reactor.serverCloseClient_workers other] at here
  by_cases same : other = id
  · subst same
    obtain ⟨before, after, stages, placed⟩ := Reactor.connection_setWorker here other
    rw [Reactor.connection_close listed, Connection.close_stages, Worker.stageOf, if_pos rfl]
      at stages
    rw [placed, Reactor.connection_close listed, Worker.stageOf, if_pos rfl]
    exact .closedByWorker stages
  · have before : (Worker.closing other).stageOf id = none := if_neg same
    have after : (Worker.releasing other).stageOf id = none := if_neg same
    rw [Reactor.connection_setWorker_aside here before after, Reactor.connection_close_ne same]
    exact .still

/-- A worker gives up its reference. -/
theorem Reactor.connection_releasing {other : Nat} (sound : (reactor.connection id).Sound)
    (here : reactor.workers[index]? = some (.releasing other)) (full : Bool)
    : (reactor.connection id).Step ((ClientEvent.released other).sight id full)
        (((reactor.clientReleaseRef other).setWorker index .idle).connection id) := by
  by_cases same : other = id
  · subst same
    obtain ⟨_, _, held, _⟩ := Reactor.connection_setWorker here other
    rw [Worker.stageOf, if_pos rfl] at held
    obtain ⟨client, record⟩ := Option.isSome_iff_exists.mp (sound.born held)
    obtain ⟨before, after, stages, placed⟩ := Reactor.connection_setBoth record here
    rw [Worker.stageOf, if_pos rfl] at stages
    rw [Reactor.clientReleaseRef]
    simp only [record]
    rw [placed, ← Reactor.client_of_get record, ClientEvent.sight, if_pos rfl]
    exact .released stages
  · rw [← reactor.clientReleaseRef_workers other] at here
    have before : (Worker.releasing other).stageOf id = none := if_neg same
    rw [Reactor.connection_setWorker_aside here before rfl, Reactor.connection_release_ne same,
      ClientEvent.sight, if_neg same]
    exact .still

theorem Reactor.connection_workerStep (listed : reactor.Listed)
    (sound : (reactor.connection id).Sound) (index : Nat) (env : WorkerEnv)
    : (reactor.connection id).Step
        ((reactor.workerStep index env).1.bind (ClientEvent.sight id reactor.poolFull))
        ((reactor.workerStep index env).2.connection id) := by
  rw [Reactor.workerStep]
  cases here : reactor.workers[index]? with
  | none => exact .still
  | some worker =>
      cases worker with
      | idle =>
          cases waiting : reactor.queue with
          | nil => exact .still
          | cons task rest => exact Reactor.connection_take here waiting id
      | sweeping =>
          have aside := @Reactor.connection_setWorker_aside
            { reactor with server := reactor.server.sweep env } id index _ .idle here rfl rfl
          simp only [aside]
          exact .still
      | serving other =>
          simp only
          cases record : reactor.clients[other]? with
          | none => exact .still
          | some client => exact Reactor.connection_serve here record id
      | executing other line =>
          simp only
          cases record : reactor.clients[other]? with
          | none => exact .still
          | some client =>
              simp only
              cases (protocolExecuteCommand reactor.server line
                  { env.command with clientFd := client.fd }).1 with
              | none => exact .still
              | some response =>
                  exact Reactor.connection_executed here _ response id reactor.poolFull
      | responding other response =>
          simp only
          cases record : reactor.clients[other]? with
          | none => exact .still
          | some client => exact Reactor.connection_respond here record env.sent id reactor.poolFull
      | closing other => exact Reactor.connection_closing listed here id
      | releasing other => exact Reactor.connection_releasing sound here reactor.poolFull

/-- Every step of the server is a step of each client, seen from there. -/
theorem Reactor.connection_step (listed : reactor.Listed) (sound : (reactor.connection id).Sound)
    (turn : ReactorTurn)
    : (reactor.connection id).Step
        ((reactor.step turn).1.bind (ClientEvent.sight id reactor.poolFull))
        ((reactor.step turn).2.connection id) := by
  cases turn with
  | loop readiness => exact Reactor.connection_loopStep listed readiness id
  | worker index env => exact Reactor.connection_workerStep listed sound index env

-- The list of clients

/-- A step that leaves the list of clients alone. -/
theorem Reactor.Listed.same (listed : reactor.Listed) {next : Reactor}
    (linked : next.linked = reactor.linked) (size : next.clients.length = reactor.clients.length)
    (count : next.clientCount = reactor.clientCount)
    : next.Listed := by
  refine ⟨linked ▸ listed.nodup, fun id member => ?_, ?_⟩
  · rw [size]
    exact listed.known id (linked ▸ member)
  · rw [count, linked]
    exact listed.count

theorem Reactor.Listed.accept (listed : reactor.Listed) (fd : Nat) (allocated registered : Bool)
    : (reactor.accept fd allocated registered).Listed := by
  rw [Reactor.accept]
  split
  · exact listed
  · refine ⟨List.nodup_cons.mpr ⟨fun old => ?_, listed.nodup⟩, fun id member => ?_, ?_⟩
    · exact absurd (listed.known _ old) (lt_irrefl _)
    · rw [List.length_append, List.length_singleton]
      rcases List.mem_cons.mp member with rfl | old
      · exact Nat.lt_succ_self _
      · exact Nat.lt_succ_of_lt (listed.known id old)
    · rw [List.length_cons, ← listed.count]

theorem Reactor.Listed.close (listed : reactor.Listed) (id : Nat)
    : (reactor.serverCloseClient id).Listed := by
  rw [Reactor.serverCloseClient]
  split
  · exact listed
  · split
    · exact listed
    · refine ⟨listed.nodup.erase id, fun other member => ?_, ?_⟩
      · simp only [Reactor.setClient, List.length_set]
        exact listed.known other (List.mem_of_mem_erase member)
      · have count := listed.count
        split
        · next known => rw [List.length_erase_of_mem known.1, ← count]
        · next unknown =>
            have absent : id ∉ reactor.linked := fun member =>
              unknown ⟨member, count ▸ List.length_pos_of_mem member⟩
            rw [List.erase_of_not_mem absent, ← count]

theorem Reactor.Listed.enqueue (listed : reactor.Listed) (id : Nat) (line : List UInt8)
    : (reactor.enqueue id line).2.Listed := by
  rw [Reactor.enqueue]
  split
  · exact listed
  · simp only [Reactor.threadPoolSubmit]
    split
    · exact listed.same rfl List.length_set rfl
    · split <;> exact listed.same rfl List.length_set rfl

theorem Reactor.Listed.loopStep (listed : reactor.Listed) (readiness : Readiness)
    : (reactor.loopStep readiness).2.Listed := by
  rw [Reactor.loopStep]
  split
  · cases readiness with
    | timer =>
        simp only [Reactor.react, Reactor.threadPoolSubmit]
        split <;> exact listed.same rfl rfl rfl
    | connection fd allocated registered => exact listed.accept fd allocated registered
    | _ =>
        simp only [Reactor.react]
        split <;> exact listed.same rfl rfl rfl
  · next id line rest fails reading =>
      have moved : (reactor.setLoop (.reading id rest fails)).Listed := listed.same rfl rfl rfl
      exact moved.enqueue id line
  · exact listed.same rfl rfl rfl
  · next id closes =>
      have moved : (reactor.setLoop .waiting).Listed := listed.same rfl rfl rfl
      exact moved.close id

theorem Reactor.Listed.workerStep (listed : reactor.Listed) (index : Nat) (env : WorkerEnv)
    : (reactor.workerStep index env).2.Listed := by
  rw [Reactor.workerStep]
  split
  · exact listed
  · split
    · exact listed
    · exact listed.same rfl rfl rfl
  · exact listed.same rfl rfl rfl
  · split
    · exact listed
    · exact listed.same rfl List.length_set rfl
  · split
    · exact listed
    · simp only
      split
      · exact listed
      · exact listed.same rfl rfl rfl
  · split
    · exact listed
    · exact listed.same rfl List.length_set rfl
  · next id closes => exact (listed.close id).same rfl rfl rfl
  · simp only [Reactor.clientReleaseRef]
    split
    · exact listed.same rfl rfl rfl
    · exact listed.same rfl List.length_set rfl

-- Runs

/-- The list of clients is in order, and so is every client by itself. -/
structure Reactor.Sound (reactor : Reactor) : Prop where
  listed : reactor.Listed
  connections : ∀ id, (reactor.connection id).Sound

theorem Reactor.Sound.step (sound : reactor.Sound) (turn : ReactorTurn)
    : (reactor.step turn).2.Sound := by
  refine ⟨?_, fun id =>
    (sound.connections id).step (Reactor.connection_step sound.listed (sound.connections id) turn)⟩
  cases turn with
  | loop readiness => exact sound.listed.loopStep readiness
  | worker index env => exact sound.listed.workerStep index env

theorem Reactor.Sound.start (server : Server) (queueCapacity workerCount : Nat)
    : (Reactor.start server queueCapacity workerCount).Sound := by
  refine ⟨⟨List.nodup_nil, fun _ member => absurd member List.not_mem_nil, rfl⟩, fun id => ?_⟩
  have stages : (List.replicate workerCount Worker.idle).filterMap (Worker.stageOf id) = [] := by
    simp [Worker.stageOf]
  refine ⟨fun _ => ⟨rfl, rfl, rfl, stages⟩, ?_, fun flag => absurd flag Bool.false_eq_true.mp,
    fun born => absurd born Bool.false_eq_true.mp, fun born => absurd born Bool.false_eq_true.mp⟩
  simp [Connection.tasks, Reactor.connection, Reactor.start, stages]

theorem Reactor.Sound.run (sound : reactor.Sound) (turns : List ReactorTurn)
    : (reactor.run turns).2.Sound :=
  @Foundations.Runs.run_invariant _ _ _ Reactor.step (fun _ => True) Reactor.Sound
    (fun _ turn sound _ => sound.step turn) reactor sound turns (fun _ _ => trivial)

end MiniKv
