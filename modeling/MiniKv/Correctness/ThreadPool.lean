import MiniKv.Foundations.RingBuffer
import MiniKv.Server.Reactor
import MiniKv.Server.ThreadPool

/-! Every task that the pool accepts is taken out of its ring once, in the order of acceptance, and
is executed once when all threads have returned.
-/

namespace MiniKv

open MiniKv.Foundations

variable {φ α : Type} {pool next : ThreadPool φ α} {event : Option (PoolEvent φ α)}

-- Events

def PoolEvent.acceptedTask : PoolEvent φ α → Option (Task φ α)
  | .accepted task => some task
  | _ => none

def PoolEvent.dequeuedTask : PoolEvent φ α → Option (Task φ α)
  | .dequeued task => some task
  | _ => none

def PoolEvent.executedTask : PoolEvent φ α → Option (Task φ α)
  | .executed task => some task
  | _ => none

/-- The tasks that `thread_pool_submit` has accepted, in order. -/
def acceptedTasks (events : List (Option (PoolEvent φ α))) : List (Task φ α) :=
  events.filterMap (fun event => event.bind PoolEvent.acceptedTask)

/-- The tasks that the threads have taken out of the queue, in order. -/
def dequeuedTasks (events : List (Option (PoolEvent φ α))) : List (Task φ α) :=
  events.filterMap (fun event => event.bind PoolEvent.dequeuedTask)

/-- The tasks whose function has been called and has returned, in order. -/
def executedTasks (events : List (Option (PoolEvent φ α))) : List (Task φ α) :=
  events.filterMap (fun event => event.bind PoolEvent.executedTask)

/-- The task a thread is executing. -/
def PoolThread.task : PoolThread φ α → Option (Task φ α)
  | .running task => some task
  | _ => none

/-- The tasks in the ring, oldest first. -/
def ThreadPool.pending (pool : ThreadPool φ α) : List (Task φ α) :=
  RingBuffer.contents pool.queue pool.queueHead pool.queueCount

/-- The tasks in the hands of the threads. -/
def ThreadPool.running (pool : ThreadPool φ α) : List (Task φ α) :=
  pool.workers.filterMap PoolThread.task

-- One step

/-- The ring is laid out in its array, only tasks with a function get into it, and a thread has
returned only after the shutdown and from an empty queue.
-/
structure ThreadPool.Sound (pool : ThreadPool φ α) : Prop where
  capacity : pool.queue.length = pool.queueCapacity
  laid : RingBuffer.Laid pool.queue pool.queueHead pool.queueTail pool.queueCount
  callable : ∀ task ∈ pool.pending ++ pool.running, task.function.isSome
  staffed : pool.workers ≠ []
  drained : .exited ∈ pool.workers → pool.shutdown = true ∧ pool.queueCount = 0

/-- Everything a step can do. -/
inductive ThreadPool.Moved (pool : ThreadPool φ α)
    : Option (PoolEvent φ α) → ThreadPool φ α → Prop where
  | still : pool.Moved none pool
  | refused {status : Int} : pool.Moved (some (.refused status)) pool
  | accepted {task : Task φ α} (callable : task.function.isSome)
      (accepting : pool.shutdown = false) (room : pool.queueCount < pool.queueCapacity)
      : pool.Moved (some (.accepted task))
          { pool with
            queue := pool.queue.set pool.queueTail task
            queueTail := (pool.queueTail + 1) % pool.queueCapacity
            queueCount := pool.queueCount + 1 }
  | shutdown : pool.Moved none pool.threadPoolDestroy
  | exited {index : Nat} (waiting : pool.workers[index]? = some .waiting)
      (shut : pool.shutdown = true) (empty : pool.queueCount = 0)
      : pool.Moved none (pool.setWorker index .exited)
  | dequeued {index count : Nat} {task : Task φ α}
      (waiting : pool.workers[index]? = some .waiting) (counted : pool.queueCount = count + 1)
      (first : pool.queue[pool.queueHead]? = some task)
      : pool.Moved (some (.dequeued task))
          ({ pool with
            queueHead := (pool.queueHead + 1) % pool.queueCapacity
            queueCount := count }.setWorker index (.running task))
  | executed {index : Nat} {task : Task φ α}
      (running : pool.workers[index]? = some (.running task)) (callable : task.function.isSome)
      : pool.Moved (some (.executed task)) (pool.setWorker index .waiting)
  | dropped {index : Nat} {task : Task φ α}
      (running : pool.workers[index]? = some (.running task)) (null : ¬ task.function.isSome)
      : pool.Moved none (pool.setWorker index .waiting)

/-- A submission is refused without a function, after the shutdown, or by a full queue. -/
theorem ThreadPool.threadPoolSubmit_cases (pool : ThreadPool φ α) (function : Option φ)
    (arg : Option α)
    : ((pool.threadPoolSubmit function arg).1 ≠ kvOk
        ∧ (pool.threadPoolSubmit function arg).2 = pool
        ∧ (function = none ∨ pool.shutdown = true ∨ pool.queueCapacity ≤ pool.queueCount))
      ∨ function.isSome ∧ pool.shutdown = false ∧ pool.queueCount < pool.queueCapacity
        ∧ pool.threadPoolSubmit function arg = (kvOk,
          { pool with
            queue := pool.queue.set pool.queueTail ⟨function, arg⟩
            queueTail := (pool.queueTail + 1) % pool.queueCapacity
            queueCount := pool.queueCount + 1 }) := by
  cases function with
  | none => exact .inl ⟨show kvErrInvalidParam ≠ kvOk by decide, rfl, .inl rfl⟩
  | some function =>
      by_cases shut : pool.shutdown = true
      · refine .inl ?_
        simp only [ThreadPool.threadPoolSubmit, Option.isNone_some, Bool.false_eq_true, if_false,
          shut, if_true]
        exact ⟨by decide, trivial, .inr (.inl trivial)⟩
      · by_cases full : pool.queueCapacity ≤ pool.queueCount
        · refine .inl ?_
          simp only [ThreadPool.threadPoolSubmit, Option.isNone_some, Bool.false_eq_true, if_false,
            shut, full, if_true]
          exact ⟨by decide, trivial, .inr (.inr trivial)⟩
        · refine .inr ⟨rfl, Bool.eq_false_of_not_eq_true shut, Nat.lt_of_not_le full, ?_⟩
          simp only [ThreadPool.threadPoolSubmit, Option.isNone_some, Bool.false_eq_true, if_false,
            shut, full]

theorem ThreadPool.step_moved (pool : ThreadPool φ α) (turn : PoolTurn φ α)
    : pool.Moved (pool.step turn).1 (pool.step turn).2 := by
  cases turn with
  | submit function arg =>
      simp only [ThreadPool.step]
      rcases pool.threadPoolSubmit_cases function arg with
        ⟨refused, same, _⟩ | ⟨callable, accepting, room, accepted⟩
      · rw [if_neg refused, same]
        exact .refused
      · rw [accepted, if_pos rfl]
        exact .accepted callable accepting room
  | worker index =>
      simp only [ThreadPool.step, ThreadPool.threadPoolWorker]
      cases here : pool.workers[index]? with
      | none => exact .still
      | some thread =>
          cases thread with
          | exited => exact .still
          | running task =>
              simp only
              split_ifs with callable
              · exact .executed here callable
              · exact .dropped here callable
          | waiting =>
              by_cases asleep : pool.queueCount = 0 ∧ pool.shutdown = false
              · simp only [asleep, and_self, if_true]
                exact .still
              · by_cases empty : pool.queueCount = 0
                · have shut : pool.shutdown = true := by
                    by_contra running
                    exact asleep ⟨empty, Bool.eq_false_of_not_eq_true running⟩
                  simp only [empty, shut, Bool.true_eq_false, and_false, if_false, and_self,
                    if_true]
                  exact .exited here shut empty
                · simp only [empty, false_and, and_false, if_false]
                  cases first : pool.queue[pool.queueHead]? with
                  | none => exact .still
                  | some task =>
                      exact .dequeued here (Nat.succ_pred_eq_of_ne_zero empty).symm first
  | destroy => exact .shutdown

theorem ThreadPool.Sound.pending_push (sound : pool.Sound)
    (room : pool.queueCount < pool.queueCapacity) (task : Task φ α)
    : RingBuffer.contents (pool.queue.set pool.queueTail task) pool.queueHead
        (pool.queueCount + 1)
      = pool.pending ++ [task] :=
  sound.laid.contents_push (sound.capacity ▸ room) task

theorem ThreadPool.Sound.pending_pop (sound : pool.Sound) {count : Nat} {task : Task φ α}
    (counted : pool.queueCount = count + 1) (first : pool.queue[pool.queueHead]? = some task)
    : pool.pending
      = task :: RingBuffer.contents pool.queue ((pool.queueHead + 1) % pool.queueCapacity)
          count := by
  obtain ⟨element, found, split⟩ := (counted ▸ sound.laid).contents_pop
  obtain rfl := Option.some.inj (found.symm.trans first)
  rw [ThreadPool.pending, counted, split, sound.capacity]

/-- A thread exchanges the task it has for another one, or for none. -/
theorem ThreadPool.running_setWorker {index : Nat} {old : PoolThread φ α}
    (here : pool.workers[index]? = some old) (new : PoolThread φ α)
    : (new.task.toList ++ pool.running).Perm
        (old.task.toList ++ (pool.setWorker index new).running) :=
  Places.filterMap_set_perm PoolThread.task here new

/-- A task comes in at the end of the ring and goes out at its front. -/
theorem ThreadPool.Sound.pending_moved (sound : pool.Sound) (moved : pool.Moved event next)
    : pool.pending ++ (event.bind PoolEvent.acceptedTask).toList
      = (event.bind PoolEvent.dequeuedTask).toList ++ next.pending := by
  cases moved with
  | @accepted task callable accepting room => exact (sound.pending_push room task).symm
  | dequeued waiting counted first =>
      rw [sound.pending_pop counted first]
      exact List.append_nil _
  | _ => exact List.append_nil _

/-- A task goes from the ring into the hand of a thread, and from there it is executed. -/
theorem ThreadPool.Sound.running_moved (sound : pool.Sound) (moved : pool.Moved event next)
    : (pool.running ++ (event.bind PoolEvent.dequeuedTask).toList).Perm
        ((event.bind PoolEvent.executedTask).toList ++ next.running) := by
  cases moved with
  | exited waiting shut empty =>
      rw [Option.bind_none, Option.toList_none, List.append_nil]
      exact ThreadPool.running_setWorker waiting .exited
  | @dequeued index count task waiting counted first =>
      have exchanged := ThreadPool.running_setWorker waiting (.running task)
      exact List.perm_append_comm.trans exchanged
  | executed running callable =>
      have exchanged := ThreadPool.running_setWorker running .waiting
      exact (List.Perm.of_eq (List.append_nil _)).trans exchanged
  | @dropped index task running null =>
      have member : task ∈ pool.running :=
        List.mem_filterMap.mpr ⟨_, List.mem_of_getElem? running, rfl⟩
      exact absurd (sound.callable task (List.mem_append_right _ member)) null
  | _ => exact .of_eq (List.append_nil _)

theorem ThreadPool.Sound.callable_moved (sound : pool.Sound) (moved : pool.Moved event next)
    : ∀ task ∈ next.pending ++ next.running, task.function.isSome := by
  -- What is in the ring behind the step was in it, or has been accepted by the step.
  have entered : ∀ task ∈ pool.pending ++ (event.bind PoolEvent.acceptedTask).toList,
      task.function.isSome := by
    intro task member
    rcases List.mem_append.mp member with old | fresh
    · exact sound.callable task (List.mem_append_left _ old)
    · cases moved with
      | accepted callable => exact List.mem_singleton.mp fresh ▸ callable
      | _ => cases fresh
  rw [sound.pending_moved moved] at entered
  intro task member
  rcases List.mem_append.mp member with queued | running
  · exact entered task (List.mem_append_right _ queued)
  · have before := (sound.running_moved moved).mem_iff.mpr (List.mem_append_right _ running)
    rcases List.mem_append.mp before with old | dequeued
    · exact sound.callable task (List.mem_append_right _ old)
    · exact entered task (List.mem_append_left _ dequeued)

theorem ThreadPool.Sound.moved (sound : pool.Sound) (moved : pool.Moved event next)
    : next.Sound := by
  have callable := sound.callable_moved moved
  obtain ⟨capacity, laid, _, staffed, drained⟩ := sound
  have stays : ∀ {index : Nat} {thread : PoolThread φ α}, pool.workers.set index thread ≠ [] :=
    fun empty => staffed (by simpa using empty)
  -- A thread that has returned stays so, and another one does not become so.
  have kept : ∀ {index : Nat} {thread : PoolThread φ α}, thread ≠ .exited →
      .exited ∈ pool.workers.set index thread → .exited ∈ pool.workers :=
    fun different member =>
      (List.mem_or_eq_of_mem_set member).resolve_right (fun same => different same.symm)
  cases moved with
  | @accepted task _ accepting room =>
      refine ⟨(List.length_set ..).trans capacity, ?_, callable, staffed, fun out => ?_⟩
      · exact capacity ▸ laid.push (capacity ▸ room) task
      · exact absurd (drained out).1 (Bool.eq_false_iff.mp accepting)
  | shutdown => exact ⟨capacity, laid, callable, staffed, fun out => ⟨rfl, (drained out).2⟩⟩
  | exited waiting shut empty => exact ⟨capacity, laid, callable, stays, fun _ => ⟨shut, empty⟩⟩
  | dequeued waiting counted first =>
      refine ⟨capacity, capacity ▸ (counted ▸ laid).pop, callable, stays, fun out => ?_⟩
      have drainedBefore := (drained (kept (by simp) out)).2
      omega
  | executed running _ =>
      exact ⟨capacity, laid, callable, stays, fun out => drained (kept (by simp) out)⟩
  | dropped running _ =>
      exact ⟨capacity, laid, callable, stays, fun out => drained (kept (by simp) out)⟩
  | _ => exact ⟨capacity, laid, callable, staffed, drained⟩

-- Runs

theorem ThreadPool.Sound.create {numThreads maxQueueSize : Nat} {started : Bool}
    (created : threadPoolCreate numThreads maxQueueSize started = some pool)
    : pool.Sound ∧ pool.shutdown = false ∧ pool.pending = [] ∧ pool.running = [] := by
  simp only [threadPoolCreate] at created
  split_ifs at created with refused
  obtain rfl := Option.some.inj created
  have threads : numThreads ≠ 0 := fun none => refused (.inl none)
  have room : 0 < maxQueueSize := Nat.pos_of_ne_zero (fun none => refused (.inr (.inl none)))
  have idle : (List.replicate numThreads (.waiting : PoolThread φ α)).filterMap PoolThread.task
      = [] := by
    rw [List.filterMap_replicate_of_none rfl]
  refine ⟨⟨List.length_replicate, .empty _ (by simpa using room), ?_, ?_, ?_⟩, rfl, rfl, idle⟩
  · intro task member
    rw [ThreadPool.running, idle] at member
    cases member
  · simpa using threads
  · intro out
    cases List.eq_of_mem_replicate out

theorem ThreadPool.Sound.step (sound : pool.Sound) (turn : PoolTurn φ α)
    : (pool.step turn).2.Sound :=
  sound.moved (pool.step_moved turn)

theorem ThreadPool.Sound.run (sound : pool.Sound) (turns : List (PoolTurn φ α))
    : (pool.run turns).2.Sound :=
  Runs.run_invariant (fun _ turn inner _ => inner.step turn) sound (fun _ _ => trivial)

theorem ThreadPool.Sound.run_pending (sound : pool.Sound) (turns : List (PoolTurn φ α))
    : pool.pending ++ acceptedTasks (pool.run turns).1
      = dequeuedTasks (pool.run turns).1 ++ (pool.run turns).2.pending :=
  Runs.run_conserves (fun _ turn inner => inner.step turn)
    (fun pool turn inner => inner.pending_moved (pool.step_moved turn)) sound turns

theorem ThreadPool.Sound.run_running (sound : pool.Sound) (turns : List (PoolTurn φ α))
    : (pool.running ++ dequeuedTasks (pool.run turns).1).Perm
        (executedTasks (pool.run turns).1 ++ (pool.run turns).2.running) :=
  Runs.run_conserves_perm (fun _ turn inner => inner.step turn)
    (fun pool turn inner => inner.running_moved (pool.step_moved turn)) sound turns

theorem ThreadPool.threadPoolWorker_shutdown (pool : ThreadPool φ α) (index : Nat)
    : (pool.threadPoolWorker index).2.shutdown = pool.shutdown := by
  simp only [ThreadPool.threadPoolWorker]
  split
  · rfl
  · rfl
  · rfl
  · split_ifs
    · rfl
    · rfl
    · split <;> rfl

/-- Only `thread_pool_destroy` begins the shutdown. -/
theorem ThreadPool.run_shutdown (turns : List (PoolTurn φ α))
    (shut : (pool.run turns).2.shutdown = true)
    : pool.shutdown = true ∨ .destroy ∈ turns := by
  induction turns generalizing pool with
  | nil => exact .inl shut
  | cons turn rest ih =>
      rcases @ih (pool.step turn).2 shut with first | later
      · cases turn with
        | destroy => exact .inr List.mem_cons_self
        | submit function arg =>
            left
            rcases pool.threadPoolSubmit_cases function arg with
              ⟨_, same, _⟩ | ⟨_, _, _, accepted⟩
            · simpa only [ThreadPool.step, same] using first
            · simpa only [ThreadPool.step, accepted] using first
        | worker index =>
            exact .inl (pool.threadPoolWorker_shutdown index ▸ first)
      · exact .inr (List.mem_cons_of_mem _ later)

/-- When all threads have returned, the ring is empty and no thread has a task. -/
theorem ThreadPool.Sound.finished (sound : pool.Sound)
    (returned : ∀ thread ∈ pool.workers, thread = .exited)
    : pool.pending = [] ∧ pool.running = [] := by
  obtain ⟨thread, member⟩ := List.exists_mem_of_ne_nil _ sound.staffed
  have empty := (sound.drained (returned thread member ▸ member)).2
  refine ⟨?_, List.filterMap_eq_nil_iff.mpr (fun thread member => ?_)⟩
  · rw [ThreadPool.pending, empty]
    rfl
  · rw [returned thread member]
    rfl

/-- For every pool, any submitters and threads and any order of their critical sections: the ring
keeps its layout, a submission is refused only by a full queue or after the shutdown has begun,
tasks are taken out in the order of their acceptance and each once, and when all threads have
returned every accepted task has been executed once.
-/
theorem thread_pool_exactly_once {numThreads maxQueueSize : Nat} {started : Bool}
    {start : ThreadPool φ α}
    (created : threadPoolCreate numThreads maxQueueSize started = some start)
    (turns : List (PoolTurn φ α))
    : let ran := start.run turns
      (ran.2.queueCount ≤ ran.2.queueCapacity
        ∧ ran.2.queueTail = (ran.2.queueHead + ran.2.queueCount) % ran.2.queueCapacity)
      ∧ (∀ function arg, (ran.2.threadPoolSubmit (some function) arg).1 ≠ kvOk →
          ran.2.queueCount = ran.2.queueCapacity ∨ .destroy ∈ turns)
      ∧ (dequeuedTasks ran.1 <+: acceptedTasks ran.1
        ∧ (acceptedTasks ran.1).length = (dequeuedTasks ran.1).length + ran.2.queueCount)
      ∧ ((∀ thread ∈ ran.2.workers, thread = .exited) →
          (executedTasks ran.1).Perm (acceptedTasks ran.1)) := by
  obtain ⟨sound, running, noTask, noHand⟩ := ThreadPool.Sound.create created
  have after := sound.run turns
  have order := sound.run_pending turns
  have hands := sound.run_running turns
  have bounded := after.laid.bounded
  rw [noTask, List.nil_append] at order
  rw [noHand, List.nil_append] at hands
  refine ⟨⟨after.capacity ▸ bounded, after.capacity ▸ after.laid.behind⟩, ?_, ⟨?_, ?_⟩, ?_⟩
  · intro function arg refused
    rcases (start.run turns).2.threadPoolSubmit_cases (some function) arg with
      ⟨_, _, missing | shut | full⟩ | ⟨_, _, _, accepted⟩
    · cases missing
    · exact .inr ((ThreadPool.run_shutdown turns shut).resolve_left
        (Bool.eq_false_iff.mp running))
    · exact .inl (Nat.le_antisymm (after.capacity ▸ bounded) full)
    · rw [accepted] at refused
      exact absurd rfl refused
  · exact ⟨_, order.symm⟩
  · rw [order, List.length_append, ThreadPool.pending, RingBuffer.length_contents bounded]
  · intro returned
    obtain ⟨noneLeft, noneHeld⟩ := after.finished returned
    rw [noneLeft, List.append_nil] at order
    rw [noneHeld, List.append_nil] at hands
    rw [order]
    exact hands.symm

/-- One thread and two slots: the third task wraps around, and the shutdown drains the queue. -/
theorem thread_pool_exactly_once_wrapping
    : ∃ start : ThreadPool Nat Nat, threadPoolCreate 1 2 true = some start
        ∧ let ran := start.run [.submit (some 7) (some 1), .submit (some 7) (some 2), .worker 0,
            .worker 0, .submit (some 7) (some 3), .destroy, .worker 0, .worker 0, .worker 0,
            .worker 0, .worker 0]
          (acceptedTasks ran.1).length = 3
          ∧ (executedTasks ran.1).Perm (acceptedTasks ran.1) := by
  have created : ∃ start : ThreadPool Nat Nat, threadPoolCreate 1 2 true = some start := ⟨_, rfl⟩
  obtain ⟨start, created⟩ := created
  have executed := thread_pool_exactly_once created [.submit (some 7) (some 1),
    .submit (some 7) (some 2), .worker 0, .worker 0, .submit (some 7) (some 3), .destroy,
    .worker 0, .worker 0, .worker 0, .worker 0, .worker 0]
  obtain rfl := Option.some.inj created
  exact ⟨_, rfl, by decide, executed.2.2.2 (by decide)⟩

-- The queue of the server

/-- A task of the server as the ring holds it. -/
def PoolTask.queued (task : PoolTask) : Task PoolTask Unit := ⟨some task, none⟩

/-- The server's queue is the ring without its layout, before the shutdown. -/
structure Reactor.Queues (reactor : Reactor) (pool : ThreadPool PoolTask Unit) : Prop where
  sound : pool.Sound
  capacity : reactor.queueCapacity = pool.queueCapacity
  accepting : pool.shutdown = false
  queue : reactor.queue.map PoolTask.queued = pool.pending

theorem Reactor.Queues.full_iff {reactor : Reactor} {pool : ThreadPool PoolTask Unit}
    (queues : reactor.Queues pool)
    : reactor.poolFull = true ↔ pool.queueCapacity ≤ pool.queueCount := by
  have length := congrArg List.length queues.queue
  rw [List.length_map, ThreadPool.pending,
    RingBuffer.length_contents queues.sound.laid.bounded] at length
  rw [Reactor.poolFull, decide_eq_true_iff, queues.capacity, length]

/-- A submission to the server's queue is one to the ring. -/
theorem Reactor.Queues.submit {reactor : Reactor} {pool : ThreadPool PoolTask Unit}
    (queues : reactor.Queues pool) (task : PoolTask)
    : (reactor.threadPoolSubmit task).Queues (pool.threadPoolSubmit (some task) none).2 := by
  have full := queues.full_iff
  have after := queues.sound.step (.submit (some task) none)
  rcases pool.threadPoolSubmit_cases (some task) none with
    ⟨_, same, missing | shut | refused⟩ | ⟨_, accepting, room, accepted⟩
  · cases missing
  · exact absurd shut (Bool.eq_false_iff.mp queues.accepting)
  · rw [same, Reactor.threadPoolSubmit, if_pos (full.mpr refused)]
    exact queues
  · have free : ¬ reactor.poolFull = true := fun isFull => absurd (full.mp isFull) (by omega)
    rw [Reactor.threadPoolSubmit, if_neg free]
    refine ⟨after, ?_, ?_, ?_⟩
    · rw [accepted]
      exact queues.capacity
    · rw [accepted]
      exact accepting
    · rw [accepted, List.map_append, queues.queue]
      exact (queues.sound.pending_push room task.queued).symm

/-- What a waiting thread takes out of the ring is the first task of the server's queue. -/
theorem Reactor.Queues.take {reactor : Reactor} {pool next : ThreadPool PoolTask Unit}
    {taken : Task PoolTask Unit} (queues : reactor.Queues pool)
    (moved : pool.Moved (some (.dequeued taken)) next)
    : ∃ task rest, reactor.queue = task :: rest ∧ taken = task.queued
        ∧ { reactor with queue := rest }.Queues next := by
  have order := queues.sound.pending_moved moved
  have after := queues.sound.moved moved
  rw [← queues.queue] at order
  cases moved with
  | dequeued waiting counted first =>
      obtain ⟨task, rest, split, same, later⟩ :=
        List.map_eq_cons_iff.mp ((List.append_nil _).symm.trans order)
      exact ⟨task, rest, split, same.symm, after, queues.capacity, queues.accepting, later⟩

end MiniKv
