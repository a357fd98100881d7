import MiniKv.Refinement.Connections

/-! A client with lines in its queue has a task for them, until a submission is refused or the
client is detached: `server_close_client` does nothing for a client without a descriptor, so nobody
clears its flag and nobody marks it closed.
-/

namespace MiniKv

open Foundations.Runs (Along)

variable {connection next : Connection} {sight : Option Sight} {reactor : Reactor} {id index : Nat}

-- One client

/-- The tasks for the client that are queued or that a worker has. -/
def Connection.held (connection : Connection) : Nat :=
  connection.queued + connection.stages.length

/-- An open client with lines in its queue has a task, and its flag says so. -/
def Connection.Served (connection : Connection) : Prop :=
  connection.closed = false → connection.pending ≠ [] →
    connection.inFlight = true ∧ 0 < connection.held

/-- A line comes in for an open client when the pool refuses a task for it, or when the flag is set
and the task is gone; or the last task of a detached client ends with lines in the queue.
-/
def Connection.Strands (connection : Connection) : Option Sight → Prop
  | some (.received _ full) => connection.closed = false
      ∧ (connection.inFlight = false ∧ full = true
        ∨ connection.inFlight = true ∧ connection.fd < 0 ∧ connection.held = 0)
  | some .released => connection.closed = false ∧ connection.fd < 0 ∧ connection.pending ≠ []
      ∧ connection.held = 1
  | _ => False

theorem Connection.tasks_le_held (connection : Connection)
    : connection.tasks ≤ connection.held :=
  Nat.add_le_add_left List.countP_le_length _

/-- Nothing is lost by a step that keeps the queue, the flag and the number of tasks. -/
theorem Connection.Served.same (served : connection.Served)
    (isOpen : next.closed = connection.closed)
    (pending : next.pending = connection.pending) (flag : next.inFlight = connection.inFlight)
    (held : next.held = connection.held)
    : next.Served := by
  rw [Connection.Served, isOpen, pending, flag, held]
  exact served

theorem Connection.Served.close (served : connection.Served)
    : connection.close.Served := by
  rw [Connection.close]
  split
  · exact served
  · exact fun isOpen => absurd isOpen Bool.true_eq_false.mp

/-- A worker that gets on still has its task. -/
theorem Connection.held_restage {before after : List Stage} {old : Stage}
    (split : connection.stages = before ++ old :: after) (new : Stage)
    : connection.queued + (before ++ new :: after).length = connection.held := by
  rw [Connection.held, split, List.length_append, List.length_append, List.length_cons,
    List.length_cons]

/-- The flag of an open client without a task is set only when it is detached. -/
theorem Connection.Sound.detached (sound : connection.Sound) (flag : connection.inFlight = true)
    (isOpen : connection.closed = false) (idle : connection.tasks = 0)
    : connection.fd < 0 := by
  by_contra positive
  have task := sound.served flag isOpen (not_lt.mp positive)
  omega

/-- A line comes in for a busy client. -/
theorem Connection.served_received_iff (sound : connection.Sound) (line : List UInt8) (full : Bool)
    (busy : connection.inFlight = true ∨ connection.closed = true)
    : Connection.Served { connection with pending := connection.pending ++ [line] }
      ↔ ¬ connection.Strands (some (.received line full)) := by
  have more : connection.pending ++ [line] ≠ [] := by simp
  by_cases isOpen : connection.closed = false
  · have flag : connection.inFlight = true := by simpa [isOpen] using busy
    constructor
    · intro served strands
      rcases strands.2 with ⟨free, _⟩ | ⟨_, _, gone⟩
      · exact absurd (flag.symm.trans free) Bool.true_eq_false.mp
      · exact absurd (served isOpen more).2 gone.le.not_gt
    · intro safe _ _
      refine ⟨flag, Nat.pos_of_ne_zero fun gone => safe ⟨isOpen, .inr ⟨flag, ?_, gone⟩⟩⟩
      have idle : connection.tasks ≤ 0 := connection.tasks_le_held.trans_eq gone
      exact sound.detached flag isOpen (Nat.le_zero.mp idle)
  · exact iff_of_true (fun stays => absurd stays isOpen) (fun strands => isOpen strands.1)

/-- A worker on the client gives up its task. -/
theorem Connection.Served.released_iff (served : connection.Served) (sound : connection.Sound)
    {before after : List Stage} (split : connection.stages = before ++ .releasing :: after)
    {refs : Int}
    : Connection.Served { connection with refs, stages := before ++ after }
      ↔ ¬ connection.Strands (some .released) := by
  have held : connection.held = connection.queued + (before ++ after).length + 1 := by
    rw [Connection.held, split, List.length_append, List.length_append, List.length_cons]
    omega
  constructor
  · rintro kept ⟨isOpen, _, more, last⟩
    have task : 0 < connection.queued + (before ++ after).length := (kept isOpen more).2
    omega
  · intro safe isOpen more
    obtain ⟨flag, _⟩ := served isOpen more
    refine ⟨flag, Nat.pos_of_ne_zero fun gone => safe ⟨isOpen, ?_, more, ?_⟩⟩
    · refine sound.detached flag isOpen ?_
      simp only [Connection.held, Nat.add_eq_zero_iff, List.length_eq_zero_iff,
        List.append_eq_nil_iff] at gone
      obtain ⟨queued, rfl, rfl⟩ := gone
      simp [Connection.tasks, split, queued, Stage.active]
    · rw [held]
      exact congrArg (· + 1) gone

/-- By the kind of step. -/
theorem Connection.Served.step_iff (served : connection.Served) (sound : connection.Sound)
    (step : connection.Step sight next)
    : next.Served ↔ ¬ connection.Strands sight := by
  cases step with
  | still => exact iff_of_true served not_false
  | accepted unborn fd => exact iff_of_true (fun _ more => absurd rfl more) not_false
  | received line full born busy => exact Connection.served_received_iff sound line full busy
  | refused line born free isOpen =>
      refine iff_of_false (fun served => ?_) (fun safe => safe ⟨isOpen, .inl ⟨free, rfl⟩⟩)
      exact absurd (free.symm.trans (served isOpen (by simp)).1) Bool.false_eq_true.mp
  | submitted line born free isOpen =>
      refine iff_of_true (fun _ _ => ⟨rfl, ?_⟩) ?_
      · simp only [Connection.held]
        omega
      · rintro ⟨_, ⟨_, full⟩ | ⟨flag, _⟩⟩
        · exact absurd full Bool.false_eq_true.mp
        · exact absurd (free.symm.trans flag) Bool.false_eq_true.mp
  | taken waiting split =>
      refine iff_of_true (served.same rfl rfl rfl ?_) not_false
      simp only [Connection.held, waiting, split, List.length_append, List.length_cons]
      omega
  | popped split isOpen more =>
      refine iff_of_true (fun _ _ => ?_) not_false
      rw [Connection.held, Connection.held_restage split]
      exact served isOpen (more ▸ List.cons_ne_nil _ _)
  | ended split finished =>
      refine iff_of_true (fun isOpen more => ?_) not_false
      rcases finished with closed | empty
      · exact absurd (closed.symm.trans isOpen) Bool.true_eq_false.mp
      · exact absurd empty more
  | executed split response =>
      exact iff_of_true (served.same rfl rfl rfl (Connection.held_restage split _)) not_false
  | answered split stage goesOn =>
      exact iff_of_true (served.same rfl rfl rfl (Connection.held_restage split _)) not_false
  | closedByWorker split =>
      have split' := connection.close_stages.trans split
      exact iff_of_true (served.close.same rfl rfl rfl (Connection.held_restage split' _)) not_false
  | closedByLoop => exact iff_of_true served.close not_false
  | released split => exact served.released_iff sound split

-- The server

/-- A task for the client is queued, or a worker has it. -/
def Reactor.hasTask (reactor : Reactor) (id : Nat) : Bool :=
  reactor.queue.contains (.client id)
    || reactor.workers.any (fun worker => (worker.stageOf id).isSome)

/-- An open client with lines in its queue has a task, and its flag says so. -/
def Reactor.NoStranded (reactor : Reactor) : Prop :=
  ∀ id client, reactor.clients[id]? = some client → client.closed = false →
    client.cmdQueue ≠ [] → client.taskInFlight = true ∧ reactor.hasTask id = true

/-- The event loop enqueues a line of an open client while the pool is full, with no task for it, or
while it is detached and the task is gone; or a worker, the last with a task for a detached client,
gives its task up with lines in the queue.
-/
def Reactor.Strands (reactor : Reactor) : ReactorTurn → Prop
  | .loop _ => ∃ id line rest fails client,
      reactor.eventLoop = .reading id (line :: rest) fails
      ∧ reactor.clients[id]? = some client ∧ client.closed = false
      ∧ (client.taskInFlight = false ∧ reactor.poolFull = true
        ∨ client.taskInFlight = true ∧ client.fd < 0 ∧ reactor.hasTask id = false)
  | .worker index _ => ∃ id client,
      reactor.workers[index]? = some (.releasing id)
      ∧ reactor.clients[id]? = some client ∧ client.closed = false ∧ client.fd < 0
      ∧ client.cmdQueue ≠ [] ∧ (reactor.setWorker index .idle).hasTask id = false

theorem Reactor.hasTask_iff (reactor : Reactor) (id : Nat)
    : reactor.hasTask id = true ↔ 0 < (reactor.connection id).held := by
  simp only [Reactor.hasTask, Connection.held, Reactor.connection, Bool.or_eq_true,
    List.contains_iff_mem, List.any_eq_true, Nat.add_pos_iff_pos_or_pos, List.count_pos_iff,
    List.length_filterMap_eq_countP, List.countP_pos_iff]

theorem Reactor.hasTask_eq_false_iff (reactor : Reactor) (id : Nat)
    : reactor.hasTask id = false ↔ (reactor.connection id).held = 0 := by
  rw [← Bool.not_eq_true, reactor.hasTask_iff, Nat.pos_iff_ne_zero, not_not]

/-- A client with lines in its queue has been accepted. -/
theorem Reactor.get_of_pending (more : (reactor.connection id).pending ≠ [])
    : ∃ client, reactor.clients[id]? = some client := by
  rw [← Option.ne_none_iff_exists']
  intro unborn
  exact more (by simp [Reactor.connection, Reactor.client, unborn])

theorem Reactor.noStranded_iff
    : reactor.NoStranded ↔ ∀ id, (reactor.connection id).Served := by
  constructor
  · intro safe id isOpen more
    obtain ⟨client, record⟩ := Reactor.get_of_pending more
    have kept := safe id client record
    rw [← Reactor.client_of_get record, reactor.hasTask_iff] at kept
    exact kept isOpen more
  · intro served id client record isOpen more
    rw [← Reactor.client_of_get record] at isOpen more ⊢
    obtain ⟨flag, task⟩ := served id isOpen more
    exact ⟨flag, (reactor.hasTask_iff id).mpr task⟩

/-- A worker has the last task for a client. -/
theorem Reactor.held_last (here : reactor.workers[index]? = some (.releasing id))
    : (reactor.connection id).held = 1
      ↔ (reactor.setWorker index .idle).hasTask id = false := by
  obtain ⟨before, after, stages, placed⟩ := Reactor.connection_setWorker here id
  rw [Worker.stageOf, if_pos rfl] at stages
  rw [Reactor.hasTask_eq_false_iff, placed, Connection.held, stages]
  simp only [Connection.held, Worker.stageOf, Option.toList_some, Option.toList_none,
    List.length_append, List.length_cons, List.length_nil]
  omega

/-- A turn strands a line exactly when it does so at some client. -/
theorem Reactor.strands_iff (turn : ReactorTurn)
    : reactor.Strands turn
      ↔ ∃ id, (reactor.connection id).Strands
        ((reactor.step turn).1.bind (ClientEvent.sight id reactor.poolFull)) := by
  constructor
  · intro strands
    cases turn with
    | loop readiness =>
        obtain ⟨id, line, rest, fails, client, reading, record, isOpen, cause⟩ := strands
        have emitted : (reactor.step (.loop readiness)).1 = some (.enqueued id line) := by
          simp [Reactor.step, Reactor.loopStep, reading, Reactor.enqueue, Reactor.setLoop, record]
        refine ⟨id, ?_⟩
        rw [emitted, Option.bind_some, ClientEvent.sight, if_pos rfl]
        rw [← Reactor.client_of_get record, reactor.hasTask_eq_false_iff] at cause
        rw [← Reactor.client_of_get record] at isOpen
        exact ⟨isOpen, cause⟩
    | worker index env =>
        obtain ⟨id, client, here, record, isOpen, detached, more, last⟩ := strands
        have emitted : (reactor.step (.worker index env)).1 = some (.released id) := by
          simp [Reactor.step, Reactor.workerStep, here]
        refine ⟨id, ?_⟩
        rw [emitted, Option.bind_some, ClientEvent.sight, if_pos rfl]
        rw [← Reactor.client_of_get record] at isOpen detached more
        exact ⟨isOpen, detached, more, (Reactor.held_last here).mpr last⟩
  · rintro ⟨id, strands⟩
    cases seen : (reactor.step turn).1.bind (ClientEvent.sight id reactor.poolFull) with
    | none =>
        rw [seen] at strands
        exact False.elim strands
    | some sight =>
        rw [seen] at strands
        cases Reactor.step_shows seen with
        | @received readiness line rest fails client reading record =>
            obtain ⟨isOpen, cause⟩ := strands
            rw [← reactor.hasTask_eq_false_iff] at cause
            refine ⟨id, line, rest, fails, client, reading, record, ?_⟩
            rw [← Reactor.client_of_get record]
            exact ⟨isOpen, cause⟩
        | released here =>
            obtain ⟨isOpen, detached, more, last⟩ := strands
            obtain ⟨client, record⟩ := Reactor.get_of_pending more
            refine ⟨id, client, here, record, ?_⟩
            rw [← Reactor.client_of_get record]
            exact ⟨isOpen, detached, more, (Reactor.held_last here).mp last⟩
        | _ => exact False.elim strands

/-- All along a run no client is stranded exactly when no turn of it strands one. -/
theorem no_stranded_command_iff (server : Server) (queueCapacity workerCount : Nat)
    (turns : List ReactorTurn)
    : (∀ earlier, earlier <+: turns →
        ((Reactor.start server queueCapacity workerCount).run earlier).2.NoStranded)
      ↔ Along Reactor.step (fun reactor turn => ¬ reactor.Strands turn)
          (Reactor.start server queueCapacity workerCount) turns := by
  refine @Foundations.Runs.always_iff_along _ _ _ Reactor.step _ Reactor.Sound Reactor.NoStranded
    (fun _ turn sound => sound.step turn) ?_ _
    (Reactor.Sound.start server queueCapacity workerCount) ?_ turns
  · intro reactor turn sound safe
    rw [Reactor.noStranded_iff] at safe ⊢
    rw [Reactor.strands_iff, not_exists]
    exact forall_congr' fun id => (safe id).step_iff (sound.connections id)
      (Reactor.connection_step sound.listed (sound.connections id) turn)
  · intro id client record
    simp [Reactor.start] at record

/-- The timer fills the queue of the pool. -/
theorem Reactor.run_timers (waiting : reactor.eventLoop = .waiting) (count : Nat)
    (room : reactor.queue.length + count ≤ reactor.queueCapacity) (turns : List ReactorTurn)
    : (reactor.run (List.replicate count (.loop .timer) ++ turns)).2
      = (Reactor.run { reactor with queue := reactor.queue ++ List.replicate count .sweep }
          turns).2 := by
  induction count generalizing reactor with
  | zero => simp only [List.replicate_zero, List.nil_append, List.append_nil]
  | succ count ih =>
      have free : reactor.poolFull = false := by
        simp only [Reactor.poolFull, decide_eq_false_iff_not]
        omega
      have stepped : (reactor.step (.loop .timer)).2
          = { reactor with queue := reactor.queue ++ [.sweep] } := by
        simp [Reactor.step, Reactor.loopStep, waiting, Reactor.react, Reactor.threadPoolSubmit,
          free]
      have first : (reactor.run (.loop .timer :: (List.replicate count (.loop .timer) ++ turns))).2
          = ((reactor.step (.loop .timer)).2.run
              (List.replicate count (.loop .timer) ++ turns)).2 := rfl
      have left : (reactor.queue ++ [PoolTask.sweep]).length + count ≤ reactor.queueCapacity := by
        rw [List.length_append, List.length_singleton]
        omega
      have later := @ih { reactor with queue := reactor.queue ++ [.sweep] } waiting left
      rw [List.replicate_succ, List.cons_append, first, stepped, later]
      simp only [List.append_assoc, List.singleton_append, List.replicate_succ]

/-- With the sizes of the server: a line comes in while 1024 sweeps are queued, and a line comes in
behind a SYNC. The event loop, and in the second run every worker, is done with the line, and it
stays in the queue.
-/
theorem commands_stranded
    : ∃ store, kvInitFull 1 0 0 none [] 7 (.at 0) (fun _ => .at 0) = .ok store
        ∧ let start := Reactor.start ⟨store, ⟨.master, []⟩⟩ serverDefaultQueueSize
            serverDefaultWorkers
          let worker : ReactorTurn := .worker 0 ⟨.at 1, 7, true⟩
          let refused := (start.run (List.replicate serverDefaultQueueSize (.loop .timer)
            ++ [.loop (.connection 5 true true), .loop (.data 5 [Verb.ping.word] false),
              .loop .timer, .loop .timer])).2
          let detached := (start.run
            [.loop (.connection 5 true true),
              .loop (.data 5 [Verb.sync.word, Verb.ping.word] false), .loop .timer, .loop .timer,
              .loop .timer, worker, worker, worker, worker, worker, worker]).2
          (refused.clients = [⟨5, false, [Verb.ping.word], false, 1⟩]
            ∧ refused.eventLoop = .waiting ∧ ¬ refused.NoStranded)
          ∧ detached.clients = [⟨-1, false, [Verb.ping.word], true, 1⟩]
          ∧ detached.eventLoop = .waiting ∧ detached.queue = []
          ∧ detached.workers = List.replicate serverDefaultWorkers .idle
          ∧ ¬ detached.NoStranded := by
  refine ⟨_, rfl, ?_⟩
  intro start worker refused detached
  have full : refused = (Reactor.run
      { start with queue := List.replicate serverDefaultQueueSize .sweep }
      [.loop (.connection 5 true true), .loop (.data 5 [Verb.ping.word] false), .loop .timer,
        .loop .timer]).2 :=
    Reactor.run_timers rfl serverDefaultQueueSize (by decide) _
  obtain ⟨clients, loop⟩ : refused.clients = [⟨5, false, [Verb.ping.word], false, 1⟩]
      ∧ refused.eventLoop = .waiting := by
    rw [full]
    decide +kernel
  obtain ⟨left, idle, queue, workers, gone⟩ :
      detached.clients = [⟨-1, false, [Verb.ping.word], true, 1⟩]
      ∧ detached.eventLoop = .waiting ∧ detached.queue = []
      ∧ detached.workers = List.replicate serverDefaultWorkers .idle
      ∧ detached.hasTask 0 = false := by
    decide +kernel
  refine ⟨⟨clients, loop, fun safe => ?_⟩, left, idle, queue, workers, fun safe => ?_⟩
  · have record : refused.clients[0]? = some ⟨5, false, [Verb.ping.word], false, 1⟩ := by
      rw [clients]
      rfl
    exact absurd (safe 0 _ record rfl (by decide)).1 Bool.false_eq_true.mp
  · have record : detached.clients[0]? = some ⟨-1, false, [Verb.ping.word], true, 1⟩ := by
      rw [left]
      rfl
    exact absurd (gone.symm.trans (safe 0 _ record rfl (by decide)).2) Bool.false_eq_true.mp

end MiniKv
