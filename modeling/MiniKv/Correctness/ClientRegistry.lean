import MiniKv.Refinement.Connections

/-! The list of clients is exact until a client is detached: `server_worker_client_task` takes its
descriptor away first, and `server_close_client` then takes the client for closed and leaves it in
the list.
-/

namespace MiniKv

open Foundations.Runs (Along)

variable {connection next : Connection} {sight : Option Sight} {reactor : Reactor}

-- One client

/-- A linked client has a descriptor. -/
def Connection.Registered (connection : Connection) : Prop :=
  connection.linked = true → 0 ≤ connection.fd

/-- A response takes the descriptor of the client away. -/
def Connection.Detaches (connection : Connection) : Option Sight → Prop
  | some (.answered response) => response.detach = true ∧ 0 ≤ connection.fd
  | _ => False

/-- Closing a client with a descriptor unlinks it, and one without does nothing. -/
theorem Connection.registered_close_iff (connection : Connection)
    : connection.close.Registered ↔ connection.Registered := by
  rw [Connection.close]
  split
  · exact Iff.rfl
  · next isOpen =>
      exact iff_of_true (fun linked => absurd linked Bool.false_eq_true.mp)
        (fun _ => not_lt.mp isOpen)

/-- By the kind of step: only a response that detaches makes a difference, and for good. -/
theorem Connection.Sound.registered_iff (sound : connection.Sound)
    (step : connection.Step sight next)
    : next.Registered ↔ connection.Registered ∧ ¬ connection.Detaches sight := by
  cases step with
  | accepted unborn fd =>
      refine iff_of_true (fun _ => Int.natCast_nonneg fd) ⟨fun linked => ?_, not_false⟩
      exact absurd (linked.symm.trans (sound.unborn unborn).2.1) Bool.true_eq_false.mp
  | @answered before after response split stage goesOn =>
      have born := sound.born split
      cases detach : response.detach with
      | false =>
          refine (and_iff_left fun detaches => ?_).symm
          exact absurd (detach.symm.trans detaches.1) Bool.false_eq_true.mp
      | true =>
          constructor
          · intro registered
            have unlinked : ¬ connection.linked = true := fun linked =>
              absurd (registered linked) (show ¬ (0 : Int) ≤ -1 by decide)
            exact ⟨fun linked => absurd linked unlinked,
              fun detaches => unlinked (sound.opened born detaches.2).1⟩
          · rintro ⟨registered, attached⟩ linked
            exact absurd ⟨detach, registered linked⟩ attached
  | closedByWorker split =>
      exact connection.registered_close_iff.trans (and_iff_left not_false).symm
  | closedByLoop => exact connection.registered_close_iff.trans (and_iff_left not_false).symm
  | _ => exact (and_iff_left not_false).symm

-- The server

/-- The tasks for a client that are queued or that a worker has; each has a reference. -/
def Reactor.taskCount (reactor : Reactor) (id : Nat) : Nat :=
  reactor.queue.count (.client id)
    + reactor.workers.countP (fun worker => (worker.stageOf id).isSome)

/-- The count is that of the list, which has no client twice; linked clients have a descriptor, and
a client that is closed or has none is not linked and has the references of its tasks only.
-/
structure Reactor.Exact (reactor : Reactor) : Prop where
  nodup : reactor.linked.Nodup
  count : reactor.clientCount = reactor.linked.length
  opened : ∀ id ∈ reactor.linked, ∃ client, reactor.clients[id]? = some client ∧ 0 ≤ client.fd
  unlinked : ∀ (id : Nat) (client : Client), reactor.clients[id]? = some client →
    client.closed = true ∨ client.fd < 0 →
      id ∉ reactor.linked ∧ client.refCount = (reactor.taskCount id : Int)

/-- A worker deals with a response that detaches a client with a descriptor. -/
def Reactor.Detaches (reactor : Reactor) (turn : ReactorTurn) : Prop :=
  ∃ index env id response client, turn = .worker index env
    ∧ reactor.workers[index]? = some (.responding id response)
    ∧ reactor.clients[id]? = some client ∧ response.detach = true ∧ 0 ≤ client.fd

theorem Reactor.Sound.exact_iff (sound : reactor.Sound)
    : reactor.Exact ↔ ∀ id, (reactor.connection id).Registered := by
  constructor
  · intro registry id linked
    obtain ⟨client, record, positive⟩ := registry.opened id (List.contains_iff_mem.mp linked)
    rw [← Reactor.client_of_get record] at positive
    exact positive
  · intro registered
    refine ⟨sound.listed.nodup, sound.listed.count, fun id linked => ?_,
      fun id client record gone => ?_⟩
    · have record := List.getElem?_eq_getElem (sound.listed.known id linked)
      refine ⟨_, record, ?_⟩
      rw [← Reactor.client_of_get record]
      exact registered id (List.contains_iff_mem.mpr linked)
    · have born : (reactor.connection id).born = true := by simp [Reactor.connection, record]
      have connected := sound.connections id
      rw [← Reactor.client_of_get record] at gone ⊢
      have negative : (reactor.connection id).fd < 0 := by
        rcases gone with closed | negative
        · refine not_le.mp fun positive => ?_
          exact absurd (closed.symm.trans (connected.opened born positive).2) Bool.true_eq_false.mp
        · exact negative
      have unlinked : (reactor.connection id).linked = false :=
        Bool.eq_false_iff.mpr fun linked => absurd (registered id linked) (not_le.mpr negative)
      have refs := connected.refs born
      rw [unlinked, Bool.toNat_false, Nat.cast_zero, zero_add] at refs
      refine ⟨fun member => ?_, ?_⟩
      · exact absurd (unlinked.symm.trans (List.contains_iff_mem.mpr member)) Bool.false_eq_true.mp
      · rw [Reactor.taskCount, ← List.length_filterMap_eq_countP]
        push_cast
        exact refs

/-- A turn detaches a client exactly when it does so at that client. -/
theorem Reactor.detaches_iff (turn : ReactorTurn)
    : reactor.Detaches turn
      ↔ ∃ id, (reactor.connection id).Detaches
        ((reactor.step turn).1.bind (ClientEvent.sight id reactor.poolFull)) := by
  constructor
  · rintro ⟨index, env, id, response, client, rfl, here, record, detach, positive⟩
    have emitted : (reactor.step (.worker index env)).1 = some (.answered id response) := by
      simp [Reactor.step, Reactor.workerStep, here, record]
    refine ⟨id, ?_⟩
    rw [emitted, Option.bind_some, ClientEvent.sight, if_pos rfl]
    rw [← Reactor.client_of_get record] at positive
    exact ⟨detach, positive⟩
  · rintro ⟨id, detaches⟩
    cases seen : (reactor.step turn).1.bind (ClientEvent.sight id reactor.poolFull) with
    | none =>
        rw [seen] at detaches
        exact False.elim detaches
    | some sight =>
        rw [seen] at detaches
        cases Reactor.step_shows seen with
        | @answered index env response client here record =>
            refine ⟨index, env, id, response, client, rfl, here, record, ?_⟩
            rw [← Reactor.client_of_get record]
            exact detaches
        | _ => exact False.elim detaches

/-- Behind a run the list of clients is exact exactly when no turn of it has detached a client. -/
theorem client_registry_exact_iff (server : Server) (queueCapacity workerCount : Nat)
    (turns : List ReactorTurn)
    : ((Reactor.start server queueCapacity workerCount).run turns).2.Exact
      ↔ Along Reactor.step (fun reactor turn => ¬ reactor.Detaches turn)
          (Reactor.start server queueCapacity workerCount) turns := by
  have start := Reactor.Sound.start server queueCapacity workerCount
  have empty : (Reactor.start server queueCapacity workerCount).Exact :=
    start.exact_iff.mpr fun _ linked => absurd linked Bool.false_eq_true.mp
  refine Iff.trans (@Foundations.Runs.finally_iff_along _ _ _ Reactor.step _ Reactor.Sound
    Reactor.Exact (fun _ turn sound => sound.step turn) ?_ _ start turns) (and_iff_right empty)
  intro reactor turn sound
  rw [(sound.step turn).exact_iff, sound.exact_iff, Reactor.detaches_iff, not_exists, ← forall_and]
  exact forall_congr' fun id => (sound.connections id).registered_iff
    (Reactor.connection_step sound.listed (sound.connections id) turn)

/-- A replica has sent SYNC and everybody is done with it: its client is in the list, and counted,
without a descriptor, and has the reference of the list.
-/
theorem detached_client_stays_linked
    : ∃ store, kvInitFull 1 0 0 none [] 7 (.at 0) (fun _ => .at 0) = .ok store
        ∧ let worker : ReactorTurn := .worker 0 ⟨.at 1, 7, true⟩
          let ended := ((Reactor.start ⟨store, ⟨.master, []⟩⟩ serverDefaultQueueSize
            serverDefaultWorkers).run
              [.loop (.connection 5 true true), .loop (.data 5 [Verb.sync.word] false),
                .loop .timer, .loop .timer, worker, worker, worker, worker, worker, worker]).2
          ended.eventLoop = .waiting ∧ ended.queue = []
          ∧ ended.workers = List.replicate serverDefaultWorkers .idle
          ∧ ended.linked = [0] ∧ ended.clientCount = 1
          ∧ ended.clients = [⟨-1, false, [], true, 1⟩]
          ∧ ¬ ended.Exact := by
  refine ⟨_, rfl, ?_⟩
  intro worker ended
  obtain ⟨loop, queue, workers, linked, count, clients⟩ :
      ended.eventLoop = .waiting ∧ ended.queue = []
      ∧ ended.workers = List.replicate serverDefaultWorkers .idle
      ∧ ended.linked = [0] ∧ ended.clientCount = 1
      ∧ ended.clients = [⟨-1, false, [], true, 1⟩] := by
    decide +kernel
  refine ⟨loop, queue, workers, linked, count, clients, fun registry => ?_⟩
  have member : 0 ∈ ended.linked := linked ▸ List.mem_singleton_self 0
  obtain ⟨client, record, positive⟩ := registry.opened 0 member
  rw [clients] at record
  cases record
  exact absurd positive (by decide)

end MiniKv
