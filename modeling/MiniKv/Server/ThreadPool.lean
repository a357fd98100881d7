import MiniKv.Foundations.Runs
import MiniKv.Store.CStrings

/-! The thread pool with its ring of tasks. A step is one critical section under `queue_lock`, or
the execution of a task outside of it. A thread that sleeps in `pthread_cond_wait` looks at the
queue again whenever it is its turn.
-/

namespace MiniKv

variable {φ α : Type}

/-- `task_t`; a null pointer is `none`. -/
structure Task (φ α : Type) where
  function : Option φ
  arg : Option α
deriving DecidableEq

/-- Where a thread is in `thread_pool_worker`: at its critical section or asleep in it, with a task
it has taken out, or returned.
-/
inductive PoolThread (φ α : Type) where
  | waiting
  | running (task : Task φ α)
  | exited
deriving DecidableEq

/-- `thread_pool_t`, with its threads. -/
structure ThreadPool (φ α : Type) where
  workers : List (PoolThread φ α)
  queue : List (Task φ α)
  queueCapacity : Nat
  queueHead : Nat
  queueTail : Nat
  queueCount : Nat
  shutdown : Bool
deriving DecidableEq

/-- A turn of a submitter with the arguments it passes, of a thread of the pool, or of the caller of
`thread_pool_destroy`.
-/
inductive PoolTurn (φ α : Type) where
  | submit (function : Option φ) (arg : Option α)
  | worker (index : Nat)
  | destroy
deriving DecidableEq

/-- What happens to a task: it is accepted or refused, taken out of the queue, and executed. -/
inductive PoolEvent (φ α : Type) where
  | accepted (task : Task φ α)
  | refused (status : Int)
  | dequeued (task : Task φ α)
  | executed (task : Task φ α)
deriving DecidableEq

/-- `thread_pool_create`; `started` says whether everything could be allocated, initialised and
started.
-/
def threadPoolCreate (numThreads maxQueueSize : Nat) (started : Bool)
    : Option (ThreadPool φ α) :=
  if numThreads = 0 ∨ maxQueueSize = 0 ∨ started = false then none
  else
    some
      { workers := List.replicate numThreads .waiting
        queue := List.replicate maxQueueSize ⟨none, none⟩
        queueCapacity := maxQueueSize
        queueHead := 0
        queueTail := 0
        queueCount := 0
        shutdown := false }

/-- `thread_pool_submit`. -/
def ThreadPool.threadPoolSubmit (pool : ThreadPool φ α) (function : Option φ) (arg : Option α)
    : Int × ThreadPool φ α :=
  if function.isNone then (kvErrInvalidParam, pool)
  else if pool.shutdown then (kvErrInternal, pool)
  else if pool.queueCapacity ≤ pool.queueCount then (kvErrAgain, pool)
  else
    (kvOk, { pool with
      queue := pool.queue.set pool.queueTail ⟨function, arg⟩
      queueTail := (pool.queueTail + 1) % pool.queueCapacity
      queueCount := pool.queueCount + 1 })

def ThreadPool.setWorker (pool : ThreadPool φ α) (index : Nat) (thread : PoolThread φ α)
    : ThreadPool φ α :=
  { pool with workers := pool.workers.set index thread }

/-- One step of `thread_pool_worker`. An index outside of the ring would be undefined behaviour; the
step does nothing then.
-/
def ThreadPool.threadPoolWorker (pool : ThreadPool φ α) (index : Nat)
    : Option (PoolEvent φ α) × ThreadPool φ α :=
  match pool.workers[index]? with
  | none => (none, pool)
  | some .exited => (none, pool)
  | some (.running task) =>
      (if task.function.isSome then some (.executed task) else none, pool.setWorker index .waiting)
  | some .waiting =>
      if pool.queueCount = 0 ∧ pool.shutdown = false then (none, pool)
      else if pool.shutdown = true ∧ pool.queueCount = 0 then (none, pool.setWorker index .exited)
      else
        match pool.queue[pool.queueHead]? with
        | none => (none, pool)
        | some task =>
            (some (.dequeued task),
              { pool with
                queueHead := (pool.queueHead + 1) % pool.queueCapacity
                queueCount := pool.queueCount - 1 }.setWorker index (.running task))

/-- The critical section of `thread_pool_destroy`; after it the caller joins the threads. -/
def ThreadPool.threadPoolDestroy (pool : ThreadPool φ α) : ThreadPool φ α :=
  { pool with shutdown := true }

def ThreadPool.step (pool : ThreadPool φ α)
    : PoolTurn φ α → Option (PoolEvent φ α) × ThreadPool φ α
  | .submit function arg =>
      let submitted := pool.threadPoolSubmit function arg
      (some (if submitted.1 = kvOk then .accepted ⟨function, arg⟩ else .refused submitted.1),
        submitted.2)
  | .worker index => pool.threadPoolWorker index
  | .destroy => (none, pool.threadPoolDestroy)

/-- What happens along a schedule, and the pool behind it. -/
def ThreadPool.run (pool : ThreadPool φ α) (turns : List (PoolTurn φ α))
    : List (Option (PoolEvent φ α)) × ThreadPool φ α :=
  Foundations.Runs.run ThreadPool.step pool turns

end MiniKv
