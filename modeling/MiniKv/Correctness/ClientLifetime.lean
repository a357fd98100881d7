import MiniKv.Correctness.StrandedCommands

/-! The event loop has no reference of its own to the client it handles. The one of the list keeps
the record until a worker closes the client, and the one of the worker's task until the worker is
done: then the record is freed, whether or not the event loop still handles it.
-/

namespace MiniKv

open Foundations.Runs (Along)
open Foundations.Places

variable {reactor : Reactor} {id index : Nat}

/-- The client in the hands of the event loop, from `server_find_client` to the end of the event. -/
def EventLoop.handled : EventLoop → Option Nat
  | .waiting => none
  | .reading id _ _ => some id
  | .closing id => some id

/-- The record of that client has not been freed: it has a reference. -/
def Reactor.Protected (reactor : Reactor) : Prop :=
  ∀ id client, reactor.eventLoop.handled = some id → reactor.clients[id]? = some client →
    client.refCount ≠ 0

/-- A worker gives up its reference to that client, which is not linked any more and has no other
task.
-/
def Reactor.FreesHandled (reactor : Reactor) (turn : ReactorTurn) : Prop :=
  ∃ index env id, turn = .worker index env
    ∧ reactor.workers[index]? = some (.releasing id) ∧ reactor.eventLoop.handled = some id
    ∧ id ∉ reactor.linked ∧ (reactor.setWorker index .idle).hasTask id = false

-- References

/-- The list or a task has a reference to the client. -/
def Reactor.Referenced (reactor : Reactor) (id : Nat) : Prop :=
  id ∈ reactor.linked ∨ reactor.hasTask id = true

theorem Reactor.Sound.refCount_ne_zero_iff (sound : reactor.Sound) {client : Client}
    (record : reactor.clients[id]? = some client)
    : client.refCount ≠ 0 ↔ reactor.Referenced id := by
  have born : (reactor.connection id).born = true := by simp [Reactor.connection, record]
  have refs := (sound.connections id).refs born
  rw [Reactor.Referenced, reactor.hasTask_iff, ← Reactor.client_of_get record]
  rw [show (reactor.connection id).refs = (reactor.client id).refCount from rfl] at refs
  rw [refs, Connection.held]
  cases linked : (reactor.connection id).linked with
  | false =>
      have unlinked : id ∉ reactor.linked := fun member =>
        absurd (linked.symm.trans (List.contains_iff_mem.mpr member)) Bool.false_eq_true.mp
      simp only [unlinked, false_or, Bool.toNat_false]
      omega
  | true =>
      have member : id ∈ reactor.linked := List.contains_iff_mem.mp linked
      simp only [member, true_or, iff_true, Bool.toNat_true]
      omega

theorem Reactor.Sound.protected_iff (sound : reactor.Sound)
    : reactor.Protected ↔ ∀ id, reactor.eventLoop.handled = some id →
        (reactor.clients[id]?).isSome → reactor.Referenced id := by
  constructor
  · intro safe id handled born
    obtain ⟨client, record⟩ := Option.isSome_iff_exists.mp born
    exact (sound.refCount_ne_zero_iff record).mp (safe id client handled record)
  · intro referenced id client handled record
    exact (sound.refCount_ne_zero_iff record).mpr
      (referenced id handled (Option.isSome_iff_exists.mpr ⟨client, record⟩))

theorem Reactor.hasTask_setWorker {old new : Worker} (here : reactor.workers[index]? = some old)
    (kept : (old.stageOf id).isSome → (new.stageOf id).isSome) (task : reactor.hasTask id = true)
    : (reactor.setWorker index new).hasTask id = true := by
  obtain ⟨before, after, split, placed⟩ := exists_around here
  simp only [Reactor.hasTask, Reactor.setWorker, placed]
  simp only [Reactor.hasTask, split, List.any_append, List.any_cons, Bool.or_eq_true] at task ⊢
  tauto

theorem Reactor.hasTask_of_worker {old new : Worker} (here : reactor.workers[index]? = some old)
    (has : (new.stageOf id).isSome)
    : (reactor.setWorker index new).hasTask id = true := by
  obtain ⟨before, after, split, placed⟩ := exists_around here
  simp only [Reactor.hasTask, Reactor.setWorker, placed, List.any_append, List.any_cons, has,
    Bool.true_or, Bool.or_true]

/-- The worker stays with the client. -/
theorem Client.serve_stageOf (client : Client) (id : Nat)
    : ((client.serve id).2.stageOf id).isSome := by
  rw [Client.serve]
  split
  · simp [Worker.stageOf]
  · split <;> simp [Worker.stageOf]

theorem Client.respond_stageOf (client : Client) (id : Nat) (response : Response) (sent : Bool)
    : ((client.respond id response sent).2.stageOf id).isSome := by
  simp only [Client.respond]
  split <;> simp [Worker.stageOf]

-- One step

theorem Reactor.serverCloseClient_parts (reactor : Reactor) (id : Nat)
    : (reactor.serverCloseClient id).eventLoop = reactor.eventLoop
      ∧ (reactor.serverCloseClient id).queue = reactor.queue
      ∧ (reactor.serverCloseClient id).clients.length = reactor.clients.length
      ∧ ∀ other, other ≠ id → other ∈ reactor.linked →
          other ∈ (reactor.serverCloseClient id).linked := by
  rw [Reactor.serverCloseClient]
  split
  · exact ⟨rfl, rfl, rfl, fun _ _ member => member⟩
  · split
    · exact ⟨rfl, rfl, rfl, fun _ _ member => member⟩
    · exact ⟨rfl, rfl, List.length_set ..,
        fun other different member => (List.mem_erase_of_ne different).mpr member⟩

theorem Reactor.clientReleaseRef_parts (reactor : Reactor) (id : Nat)
    : (reactor.clientReleaseRef id).eventLoop = reactor.eventLoop
      ∧ (reactor.clientReleaseRef id).queue = reactor.queue
      ∧ (reactor.clientReleaseRef id).clients.length = reactor.clients.length
      ∧ (reactor.clientReleaseRef id).linked = reactor.linked := by
  rw [Reactor.clientReleaseRef]
  split
  · exact ⟨rfl, rfl, rfl, rfl⟩
  · exact ⟨rfl, rfl, List.length_set .., rfl⟩

/-- A worker leaves the event loop alone and accepts no clients. -/
theorem Reactor.workerStep_parts (reactor : Reactor) (index : Nat) (env : WorkerEnv)
    : (reactor.workerStep index env).2.eventLoop = reactor.eventLoop
      ∧ (reactor.workerStep index env).2.clients.length = reactor.clients.length := by
  rw [Reactor.workerStep]
  split
  · exact ⟨rfl, rfl⟩
  · split <;> exact ⟨rfl, rfl⟩
  · exact ⟨rfl, rfl⟩
  · split
    · exact ⟨rfl, rfl⟩
    · exact ⟨rfl, List.length_set ..⟩
  · split
    · exact ⟨rfl, rfl⟩
    · simp only
      split <;> exact ⟨rfl, rfl⟩
  · split
    · exact ⟨rfl, rfl⟩
    · exact ⟨rfl, List.length_set ..⟩
  · next other _ =>
      obtain ⟨loop, _, length, _⟩ := reactor.serverCloseClient_parts other
      exact ⟨loop, length⟩
  · next other _ =>
      obtain ⟨loop, _, length, _⟩ := reactor.clientReleaseRef_parts other
      exact ⟨loop, length⟩

/-- Nothing changes for a client by what a worker does elsewhere; and a worker that has the client
and keeps it is a reference.
-/
theorem Reactor.Referenced.setWorker (referenced : reactor.Referenced id) {next : Reactor}
    {old new : Worker} (here : reactor.workers[index]? = some old)
    (linked : id ∈ reactor.linked → id ∈ next.linked ∨ (new.stageOf id).isSome)
    (queue : next.queue = reactor.queue) (workers : next.workers = reactor.workers)
    (kept : (old.stageOf id).isSome → (new.stageOf id).isSome)
    : (next.setWorker index new).Referenced id := by
  have here' : next.workers[index]? = some old := workers ▸ here
  rcases referenced with member | task
  · rcases linked member with stays | has
    · exact .inl stays
    · exact .inr (Reactor.hasTask_of_worker here' has)
  · have task' : next.hasTask id = true := by
      simpa only [Reactor.hasTask, queue, workers] using task
    exact .inr (Reactor.hasTask_setWorker here' kept task')

/-- A task goes from the queue to the worker. -/
theorem Reactor.Referenced.take (referenced : reactor.Referenced id)
    (here : reactor.workers[index]? = some .idle) {task : PoolTask} {rest : List PoolTask}
    (queue : reactor.queue = task :: rest)
    : ({ reactor with queue := rest }.setWorker index task.worker).Referenced id := by
  have here' : ({ reactor with queue := rest } : Reactor).workers[index]? = some .idle := here
  by_cases same : task = .client id
  · have has : (task.worker.stageOf id).isSome := by
      simp [same, PoolTask.worker, Worker.stageOf]
    exact .inr (Reactor.hasTask_of_worker here' has)
  · have referenced' : Reactor.Referenced { reactor with queue := rest } id := by
      simpa [Reactor.Referenced, Reactor.hasTask, queue, Ne.symm same] using referenced
    exact referenced'.imp_right (Reactor.hasTask_setWorker here' (by simp [Worker.stageOf]))

/-- A worker takes a reference away only when it gives up its own. -/
theorem Reactor.Referenced.workerStep (referenced : reactor.Referenced id) (env : WorkerEnv)
    (keeps : reactor.workers[index]? ≠ some (.releasing id))
    : (reactor.workerStep index env).2.Referenced id := by
  rw [Reactor.workerStep]
  cases here : reactor.workers[index]? with
  | none => exact referenced
  | some worker =>
      cases worker with
      | idle =>
          simp only
          cases queue : reactor.queue with
          | nil => exact referenced
          | cons task rest => exact referenced.take here queue
      | sweeping => exact referenced.setWorker here .inl rfl rfl (by simp [Worker.stageOf])
      | serving other =>
          simp only
          cases record : reactor.clients[other]? with
          | none => exact referenced
          | some client =>
              refine referenced.setWorker here .inl rfl rfl (fun has => ?_)
              obtain rfl : other = id := by simpa [Worker.stageOf] using has
              exact client.serve_stageOf other
      | executing other line =>
          simp only
          cases record : reactor.clients[other]? with
          | none => exact referenced
          | some client =>
              simp only
              split
              · exact referenced
              · exact referenced.setWorker here .inl rfl rfl (by simp [Worker.stageOf])
      | responding other response =>
          simp only
          cases record : reactor.clients[other]? with
          | none => exact referenced
          | some client =>
              refine referenced.setWorker here .inl rfl rfl (fun has => ?_)
              obtain rfl : other = id := by simpa [Worker.stageOf] using has
              exact client.respond_stageOf other response env.sent
      | closing other =>
          obtain ⟨_, queue, _, linked⟩ := reactor.serverCloseClient_parts other
          refine referenced.setWorker here (fun member => ?_) queue
            (reactor.serverCloseClient_workers other) (by simp [Worker.stageOf])
          by_cases same : other = id
          · exact .inr (by simp [Worker.stageOf, same])
          · exact .inl (linked id (Ne.symm same) member)
      | releasing other =>
          have different : other ≠ id := fun same => keeps (same ▸ here)
          obtain ⟨_, queue, _, linked⟩ := reactor.clientReleaseRef_parts other
          refine referenced.setWorker here (fun member => .inl (linked ▸ member)) queue
            (reactor.clientReleaseRef_workers other) (by simp [Worker.stageOf, different])

/-- What `server_find_client` returns is in the list. -/
theorem Reactor.serverFindClient_linked {fd : Int} (found : reactor.serverFindClient fd = some id)
    : id ∈ reactor.linked :=
  List.mem_of_find?_eq_some found

/-- What the event loop gets hold of is in the list. -/
theorem Reactor.react_referenced (waiting : reactor.eventLoop = .waiting) (readiness : Readiness)
    (handled : (reactor.react readiness).eventLoop.handled = some id)
    : (reactor.react readiness).Referenced id := by
  have idle : reactor.eventLoop.handled ≠ some id := by
    simp [waiting, EventLoop.handled]
  cases readiness with
  | timer =>
      rw [Reactor.react, Reactor.threadPoolSubmit] at handled
      split at handled <;> exact absurd handled idle
  | connection fd allocated registered =>
      simp only [Reactor.react, Reactor.accept] at handled ⊢
      split at handled
      · exact absurd handled idle
      · next accepted =>
          rw [if_neg accepted]
          cases registered with
          | true => exact absurd handled idle
          | false =>
              obtain rfl := Option.some.inj handled
              exact .inl List.mem_cons_self
  | data fd lines fails =>
      simp only [Reactor.react] at handled ⊢
      cases found : reactor.serverFindClient fd with
      | none => exact absurd (by simpa only [found] using handled) idle
      | some other =>
          simp only [found] at handled
          obtain rfl := Option.some.inj handled
          exact .inl (Reactor.serverFindClient_linked found)
  | hangup fd =>
      simp only [Reactor.react] at handled ⊢
      cases found : reactor.serverFindClient fd with
      | none => exact absurd (by simpa only [found] using handled) idle
      | some other =>
          simp only [found] at handled
          obtain rfl := Option.some.inj handled
          exact .inl (Reactor.serverFindClient_linked found)

/-- Enqueueing a line takes no reference away. -/
theorem Reactor.Referenced.enqueue (referenced : reactor.Referenced id) (other : Nat)
    (line : List UInt8)
    : (reactor.enqueue other line).2.Referenced id := by
  rw [Reactor.enqueue]
  split
  · exact referenced
  · simp only
    split
    · exact referenced
    · simp only [Reactor.Referenced, Reactor.hasTask, Reactor.setClient, Reactor.threadPoolSubmit]
        at referenced ⊢
      split
      · exact referenced
      · simp only [List.contains_append, Bool.or_eq_true] at referenced ⊢
        tauto

theorem Reactor.enqueue_eventLoop (reactor : Reactor) (id : Nat) (line : List UInt8)
    : (reactor.enqueue id line).2.eventLoop = reactor.eventLoop := by
  rw [Reactor.enqueue]
  split
  · rfl
  · simp only
    split
    · rfl
    · simp only [Reactor.setClient, Reactor.threadPoolSubmit]
      split <;> rfl

theorem Reactor.enqueue_unborn (unborn : reactor.clients[id]? = none) (line : List UInt8)
    : (reactor.enqueue id line).2 = reactor := by
  simp only [Reactor.enqueue, unborn]

/-- What the event loop goes on with keeps its references. -/
theorem Reactor.Sound.loopStep_protected (sound : reactor.Sound) (safe : reactor.Protected)
    (readiness : Readiness)
    : (reactor.loopStep readiness).2.Protected := by
  have after : (reactor.loopStep readiness).2.Sound := sound.step (.loop readiness)
  rw [after.protected_iff]
  rw [sound.protected_iff] at safe
  intro id handled born
  rw [Reactor.loopStep] at handled born ⊢
  cases loop : reactor.eventLoop with
  | waiting =>
      simp only [loop] at handled ⊢
      exact Reactor.react_referenced loop readiness handled
  | reading other lines fails =>
      have before : reactor.eventLoop.handled = some other := by rw [loop]; rfl
      cases lines with
      | nil =>
          simp only [loop] at handled born ⊢
          cases fails with
          | false => exact absurd handled (by simp [Reactor.setLoop, EventLoop.handled])
          | true =>
              obtain rfl := Option.some.inj handled
              exact safe other before born
      | cons line rest =>
          simp only [loop] at handled born ⊢
          rw [Reactor.enqueue_eventLoop] at handled
          obtain rfl := Option.some.inj handled
          cases record : reactor.clients[other]? with
          | none =>
              rw [Reactor.enqueue_unborn (by exact record)] at born
              simp [Reactor.setLoop, record] at born
          | some client =>
              have referenced := safe other before (by rw [record]; rfl)
              exact @Reactor.Referenced.enqueue (reactor.setLoop (.reading other rest fails)) other
                referenced other line
  | closing other =>
      simp only [loop] at handled
      rw [(Reactor.serverCloseClient_parts _ other).1] at handled
      cases handled

/-- Behind a worker that gives up its reference, the others are left. -/
theorem Reactor.referenced_release (here : reactor.workers[index]? = some (.releasing id))
    (env : WorkerEnv)
    : (reactor.workerStep index env).2.Referenced id
      ↔ id ∈ reactor.linked ∨ (reactor.setWorker index .idle).hasTask id = true := by
  obtain ⟨_, queue, _, linked⟩ := reactor.clientReleaseRef_parts id
  have workers := reactor.clientReleaseRef_workers id
  simp only [Reactor.workerStep, here, Reactor.Referenced, Reactor.setWorker, Reactor.hasTask,
    queue, linked, workers]

/-- By what the worker does: it frees the client that the event loop handles, or leaves it a
reference.
-/
theorem Reactor.Sound.workerStep_protected_iff (sound : reactor.Sound) (safe : reactor.Protected)
    (index : Nat) (env : WorkerEnv)
    : (reactor.workerStep index env).2.Protected
      ↔ ¬ reactor.FreesHandled (.worker index env) := by
  have after : (reactor.workerStep index env).2.Sound := sound.step (.worker index env)
  obtain ⟨loop, length⟩ := reactor.workerStep_parts index env
  rw [after.protected_iff, loop]
  rw [sound.protected_iff] at safe
  simp only [isSome_getElem?, length] at safe ⊢
  constructor
  · rintro kept ⟨other, otherEnv, id, turn, here, handled, unlinked, noTask⟩
    cases turn
    have born : id < reactor.clients.length := by
      obtain ⟨before, after, stages, _⟩ := Reactor.connection_setWorker here id
      rw [Worker.stageOf, if_pos rfl] at stages
      have accepted := (sound.connections id).born stages
      rwa [Reactor.connection, isSome_getElem?] at accepted
    rcases (Reactor.referenced_release here env).mp (kept id handled born) with
      linked | task
    · exact unlinked linked
    · exact absurd (noTask.symm.trans task) Bool.false_eq_true.mp
  · intro keeps id handled born
    by_cases here : reactor.workers[index]? = some (.releasing id)
    · rw [Reactor.referenced_release here env]
      by_contra freed
      obtain ⟨unlinked, noTask⟩ := not_or.mp freed
      exact keeps ⟨index, env, id, rfl, here, handled, unlinked,
        Bool.eq_false_of_not_eq_true noTask⟩
    · exact (safe id handled born).workerStep env here

/-- All along a run the client in the hands of the event loop is not freed exactly when no worker
gives up the last reference to it.
-/
theorem handled_client_protected_iff (server : Server) (queueCapacity workerCount : Nat)
    (turns : List ReactorTurn)
    : (∀ earlier, earlier <+: turns →
        ((Reactor.start server queueCapacity workerCount).run earlier).2.Protected)
      ↔ Along Reactor.step (fun reactor turn => ¬ reactor.FreesHandled turn)
          (Reactor.start server queueCapacity workerCount) turns := by
  refine @Foundations.Runs.always_iff_along _ _ _ Reactor.step _ Reactor.Sound Reactor.Protected
    (fun _ turn sound => sound.step turn) ?_ _
    (Reactor.Sound.start server queueCapacity workerCount) ?_ turns
  · intro reactor turn sound safe
    cases turn with
    | loop readiness =>
        refine iff_of_true (sound.loopStep_protected safe readiness) ?_
        rintro ⟨_, _, _, turn, _⟩
        cases turn
    | worker index env => exact sound.workerStep_protected_iff safe index env
  · intro id client handled
    cases handled

/-- A client sends QUIT. A worker closes it and is done with its task before the event loop looks
for the next line in the read buffer of the client, whose record is freed by then.
-/
theorem client_freed_while_handled
    : ∃ store, kvInitFull 1 0 0 none [] 7 (.at 0) (fun _ => .at 0) = .ok store
        ∧ let worker : ReactorTurn := .worker 0 ⟨.at 1, 7, true⟩
          let reached := ((Reactor.start ⟨store, ⟨.master, []⟩⟩ serverDefaultQueueSize
            serverDefaultWorkers).run
              [.loop (.connection 5 true true), .loop (.data 5 [Verb.quit.word] false),
                .loop .timer, worker, worker, worker, worker, worker, worker]).2
          reached.eventLoop = .reading 0 [] false
          ∧ reached.clients = [⟨-1, true, [], true, 0⟩]
          ∧ ¬ reached.Protected := by
  refine ⟨_, rfl, ?_⟩
  intro worker reached
  obtain ⟨loop, clients⟩ :
      reached.eventLoop = .reading 0 [] false ∧ reached.clients = [⟨-1, true, [], true, 0⟩] := by
    decide +kernel
  refine ⟨loop, clients, fun safe => ?_⟩
  exact safe 0 _ (by rw [loop]; rfl) (by rw [clients]; rfl) rfl

end MiniKv
