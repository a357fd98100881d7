import MiniKv.Store.Locks

/-! Threads in `kv_set` and `kv_delete`. A call takes its lock, appends its record, applies the
mutation, and truncates the file when that failed; between these steps other threads may run. The
first test of `kv_set` for all locks is made without a lock, so its answer may be out of date.
-/

namespace MiniKv

/-- A call that logs before it applies. -/
inductive Mutation where
  | set (key value : CString)
  | delete (key : CString)

def Mutation.key : Mutation → CString
  | .set key _ => key
  | .delete key => key

/-- The record the call appends. -/
def Mutation.record : Mutation → List UInt8
  | .set key value => formatRecord .set key.bytes (some value.bytes)
  | .delete key => formatRecord .delete key.bytes none

/-- The whole call while no other thread runs. -/
def Mutation.call (mutation : Mutation) (env : CallEnv) (store : Store) : Int × Store :=
  match mutation with
  | .set key value => kvSet store (some key) (some value) env
  | .delete key => kvDelete store (some key) env

/-- The argument checks, before any lock. -/
def Mutation.check : Mutation → Except Int Unit
  | .set key value =>
      match validateKey (some key) with
      | .error err => .error err
      | .ok _ => (validateValue (some value)).map (fun _ => ())
  | .delete key =>
      match validateKey (some key) with
      | .error _ => .error kvErrInvalidParam
      | .ok _ => .ok ()

/-- The test under the lock for whether `kv_set` needs all locks. -/
def Mutation.needsAll (mutation : Mutation) (table : Table) : Bool :=
  match mutation with
  | .set key value =>
      table.loadFactorExceeded
        || (0 < table.maxMemoryBudget
          && table.maxMemoryBudget
            < table.allocatedBytes + (sizeofEntry + key.length + 1 + value.length + 1))
  | .delete _ => false

/-- What happens to the table when the lock is taken. -/
def Mutation.prepare (mutation : Mutation) (env : CallEnv) (store : Store) : Store :=
  match mutation with
  | .set _ _ => { store with table := store.table.growIfLoaded env }
  | .delete _ => store

/-- The first step under the lock: the record, if there is a log. -/
def Mutation.append (mutation : Mutation) (env : CallEnv) (store : Store)
    : Int × Option Nat × Store :=
  if store.aof.fp = none then (kvOk, none, store)
  else
    let logged := store.aof.writeAofRecord mutation.record env.io
    (logged.1, logged.2.1, { store with aof := logged.2.2 })

/-- The second step: the mutation. -/
def Mutation.apply (mutation : Mutation) (env : CallEnv) (store : Store) : Int × Store :=
  match mutation with
  | .set key value => kvSetInternal store (some key) (some value) env
  | .delete key => kvDeleteInternal store (some key) env 0

/-- The third step, when the second failed. -/
def Store.rollback (store : Store) (pos : Option Nat) : Store :=
  { store with aof := store.aof.rollbackAofRecord pos }

/-- How far a call has come, with the locks it holds and the position it has saved. -/
inductive Phase where
  | ready
  | locked (all : Bool)
  | logged (all : Bool) (pos : Option Nat)
  | failed (all : Bool) (pos : Option Nat) (status : Int)
  | returned (status : Int)
deriving DecidableEq

structure Thread where
  mutation : Mutation
  env : CallEnv
  phase : Phase

/-- The threads that share a store with `numLocks` locks. -/
structure Machine where
  store : Store
  numLocks : Nat
  threads : List Thread

/-- All locks, or the one of a key. -/
def Thread.holdsAll (thread : Thread) : Option Bool :=
  match thread.phase with
  | .locked all | .logged all _ | .failed all _ _ => some all
  | .ready | .returned _ => none

/-- A thread does not stand in the way of another that wants all locks or the one of a key. -/
def Thread.allows (thread : Thread) (numLocks : Nat) (all : Bool) (key : CString) : Bool :=
  match thread.holdsAll with
  | none => true
  | some held =>
      !held && !all && kvLockIndex numLocks thread.mutation.key != kvLockIndex numLocks key

/-- What a turn does to the log: a record is written, or the file is truncated. -/
inductive LogEvent where
  | wrote (id : Nat)
  | undid (id : Nat)
deriving DecidableEq

/-- The turn of a thread; `stale` is what its first test for all locks said. -/
structure Turn where
  id : Nat
  stale : Bool

/-- A thread enters its next phase and leaves a store behind. -/
def Machine.advance (machine : Machine) (id : Nat) (phase : Phase) (store : Store) : Machine :=
  { machine with
    store
    threads := machine.threads.modify id (fun thread => { thread with phase }) }

/-- One step of one thread. A thread that waits for a lock, or has returned, does nothing. -/
def Machine.step (machine : Machine) (turn : Turn) : Option LogEvent × Machine :=
  match machine.threads[turn.id]? with
  | none => (none, machine)
  | some thread =>
      match thread.phase with
      | .returned _ => (none, machine)
      | .ready =>
          match thread.mutation.check with
          | .error err => (none, machine.advance turn.id (.returned err) machine.store)
          | .ok _ =>
              let all := match thread.mutation with
                | .set _ _ => turn.stale || thread.mutation.needsAll machine.store.table
                | .delete _ => false
              if (machine.threads.eraseIdx turn.id).all
                  (fun other => other.allows machine.numLocks all thread.mutation.key) then
                (none, machine.advance turn.id (.locked all)
                  (thread.mutation.prepare thread.env machine.store))
              else (none, machine)
      | .locked all =>
          let logged := thread.mutation.append thread.env machine.store
          if logged.1 ≠ kvOk then (none, machine.advance turn.id (.returned logged.1) logged.2.2)
          else (some (.wrote turn.id), machine.advance turn.id (.logged all logged.2.1) logged.2.2)
      | .logged all pos =>
          let applied := thread.mutation.apply thread.env machine.store
          if applied.1 = kvOk ∨ applied.2.aof.fp = none then
            (none, machine.advance turn.id (.returned applied.1) applied.2)
          else (none, machine.advance turn.id (.failed all pos applied.1) applied.2)
      | .failed _ pos status =>
          (some (.undid turn.id),
            machine.advance turn.id (.returned status) (machine.store.rollback pos))

/-- The events along a schedule and the machine behind it. -/
def Machine.run (machine : Machine) (turns : List Turn) : List (Option LogEvent) × Machine :=
  Foundations.Runs.run Machine.step machine turns

/-- Threads about to start their calls. -/
def Machine.start (store : Store) (numLocks : Nat) (calls : List (Mutation × CallEnv))
    : Machine :=
  { store, numLocks, threads := calls.map (fun call => ⟨call.1, call.2, .ready⟩) }

-- What a turn can do

/-- The turn of a thread: it waits or has returned, or its call gets one step further. -/
inductive Machine.Turned (machine : Machine) (id : Nat) : Option LogEvent × Machine → Prop where
  | still (waits : ∀ thread, machine.threads[id]? = some thread →
        thread.phase = .ready ∨ ∃ status, thread.phase = .returned status)
      : Turned machine id (none, machine)
  | refused {thread : Thread} (here : machine.threads[id]? = some thread)
      (ready : thread.phase = .ready) {err : Int} (invalid : thread.mutation.check = .error err)
      : Turned machine id (none, machine.advance id (.returned err) machine.store)
  | took {thread : Thread} (here : machine.threads[id]? = some thread)
      (ready : thread.phase = .ready) (all : Bool)
      (free : (machine.threads.eraseIdx id).all
        (fun other => other.allows machine.numLocks all thread.mutation.key) = true)
      : Turned machine id (none, machine.advance id (.locked all)
          (thread.mutation.prepare thread.env machine.store))
  | unwritten {thread : Thread} (here : machine.threads[id]? = some thread) {all : Bool}
      (locked : thread.phase = .locked all)
      (failed : (thread.mutation.append thread.env machine.store).1 ≠ kvOk)
      : Turned machine id (none, machine.advance id
          (.returned (thread.mutation.append thread.env machine.store).1)
          (thread.mutation.append thread.env machine.store).2.2)
  | wrote {thread : Thread} (here : machine.threads[id]? = some thread) {all : Bool}
      (locked : thread.phase = .locked all)
      (written : (thread.mutation.append thread.env machine.store).1 = kvOk)
      : Turned machine id (some (.wrote id), machine.advance id
          (.logged all (thread.mutation.append thread.env machine.store).2.1)
          (thread.mutation.append thread.env machine.store).2.2)
  | ended {thread : Thread} (here : machine.threads[id]? = some thread) {all : Bool}
      {pos : Option Nat} (logged : thread.phase = .logged all pos)
      (settled : (thread.mutation.apply thread.env machine.store).1 = kvOk
        ∨ (thread.mutation.apply thread.env machine.store).2.aof.fp = none)
      : Turned machine id (none, machine.advance id
          (.returned (thread.mutation.apply thread.env machine.store).1)
          (thread.mutation.apply thread.env machine.store).2)
  | doomed {thread : Thread} (here : machine.threads[id]? = some thread) {all : Bool}
      {pos : Option Nat} (logged : thread.phase = .logged all pos)
      (failed : (thread.mutation.apply thread.env machine.store).1 ≠ kvOk)
      : Turned machine id (none, machine.advance id
          (.failed all pos (thread.mutation.apply thread.env machine.store).1)
          (thread.mutation.apply thread.env machine.store).2)
  | undid {thread : Thread} (here : machine.threads[id]? = some thread) {all : Bool}
      {pos : Option Nat} {status : Int} (failed : thread.phase = .failed all pos status)
      : Turned machine id (some (.undid id),
          machine.advance id (.returned status) (machine.store.rollback pos))

/-- By the phase of the thread whose turn it is. -/
theorem Machine.step_turned (machine : Machine) (turn : Turn)
    : machine.Turned turn.id (machine.step turn) := by
  rw [Machine.step]
  cases here : machine.threads[turn.id]? with
  | none =>
      refine .still fun thread found => ?_
      rw [here] at found
      cases found
  | some thread =>
      have waits (phase : thread.phase = .ready ∨ ∃ status, thread.phase = .returned status)
          : machine.Turned turn.id (none, machine) :=
        .still fun other found => Option.some.inj (here.symm.trans found) ▸ phase
      simp only
      cases phase : thread.phase with
      | returned status => exact waits (.inr ⟨status, phase⟩)
      | ready =>
          have either (all : Bool) : machine.Turned turn.id
              (if (machine.threads.eraseIdx turn.id).all
                  (fun other => other.allows machine.numLocks all thread.mutation.key) = true
                then (none, machine.advance turn.id (.locked all)
                  (thread.mutation.prepare thread.env machine.store))
                else (none, machine)) := by
            split
            · next free => exact .took here phase all free
            · exact waits (.inl phase)
          simp only
          cases checked : thread.mutation.check with
          | error err => exact .refused here phase checked
          | ok _ => exact either _
      | locked all =>
          simp only
          split
          · next failed => exact .unwritten here phase failed
          · next written => exact .wrote here phase (not_not.mp written)
      | logged all pos =>
          simp only
          split
          · next settled => exact .ended here phase settled
          · next going => exact .doomed here phase (fun worked => going (.inl worked))
      | failed all pos status => exact .undid here phase

-- A thread alone

/-- Without a stream there is nothing to truncate. -/
theorem Store.rollback_of_closed {store : Store} (closed : store.aof.fp = none)
    (pos : Option Nat)
    : store.rollback pos = store := by
  simp only [Store.rollback, Aof.rollbackAofRecord, closed]

theorem Store.rollback_none (store : Store) : store.rollback none = store := by
  rw [Store.rollback, Aof.rollbackAofRecord_none]

/-- The end of a call that may have failed, with or without a stream. -/
theorem Store.rollback_cases (applied : Int × Store) (pos : Option Nat)
    : (if applied.1 ≠ kvOk then (applied.1, applied.2.rollback pos) else applied)
      = if applied.1 = kvOk ∨ applied.2.aof.fp = none then applied
        else (applied.1, applied.2.rollback pos) := by
  by_cases worked : applied.1 = kvOk
  · simp [worked]
  · by_cases closed : applied.2.aof.fp = none
    · simp [worked, closed, Store.rollback_of_closed closed]
    · simp [worked, closed]

theorem Mutation.append_closed {store : Store} (mutation : Mutation) (env : CallEnv)
    (closed : store.aof.fp = none)
    : mutation.append env store = (kvOk, none, store) :=
  if_pos closed

theorem Mutation.append_opened {store : Store} (mutation : Mutation) (env : CallEnv)
    (opened : store.aof.fp ≠ none)
    : mutation.append env store
      = let logged := store.aof.writeAofRecord mutation.record env.io
        (logged.1, logged.2.1, { store with aof := logged.2.2 }) :=
  if_neg opened

/-- What a call does after its checks, given what it does without and with a log. -/
theorem Mutation.steps_eq {mutation : Mutation} {env : CallEnv} {store : Store}
    {result : Int × Store}
    (closed : store.aof.fp = none → result = mutation.apply env store)
    (opened : store.aof.fp ≠ none →
      result = let logged := store.aof.writeAofRecord mutation.record env.io
        if logged.1 ≠ kvOk then (logged.1, { store with aof := logged.2.2 })
        else
          let applied := mutation.apply env { store with aof := logged.2.2 }
          if applied.1 ≠ kvOk then (applied.1, applied.2.rollback logged.2.1) else applied)
    : result
      = let logged := mutation.append env store
        if logged.1 ≠ kvOk then (logged.1, logged.2.2)
        else
          let applied := mutation.apply env logged.2.2
          if applied.1 = kvOk ∨ applied.2.aof.fp = none then applied
          else (applied.1, applied.2.rollback logged.2.1) := by
  simp only [← Store.rollback_cases]
  by_cases missing : store.aof.fp = none
  · rw [closed missing, mutation.append_closed env missing]
    simp [Store.rollback_none]
  · rw [opened missing, mutation.append_opened env missing]

/-- The steps of a call, one after the other. -/
theorem Mutation.call_eq (mutation : Mutation) (env : CallEnv) (store : Store)
    : mutation.call env store
      = match mutation.check with
        | .error err => (err, store)
        | .ok _ =>
            let logged := mutation.append env (mutation.prepare env store)
            if logged.1 ≠ kvOk then (logged.1, logged.2.2)
            else
              let applied := mutation.apply env logged.2.2
              if applied.1 = kvOk ∨ applied.2.aof.fp = none then applied
              else (applied.1, applied.2.rollback logged.2.1) := by
  cases mutation with
  | set key value =>
      simp only [Mutation.call, Mutation.check, kvSet]
      cases checkedKey : validateKey (some key) with
      | error err => rfl
      | ok validKey =>
          obtain rfl := Option.some.inj (validateKey_eq_ok.mp checkedKey).1
          cases checkedValue : validateValue (some value) with
          | error err => rfl
          | ok validValue =>
              obtain rfl := Option.some.inj (validateValue_eq_ok.mp checkedValue).1
              exact Mutation.steps_eq (fun closed => if_pos closed) (fun opened => if_neg opened)
  | delete key =>
      simp only [Mutation.call, Mutation.check, kvDelete]
      cases checkedKey : validateKey (some key) with
      | error err => rfl
      | ok validKey =>
          obtain rfl := Option.some.inj (validateKey_eq_ok.mp checkedKey).1
          exact Mutation.steps_eq (fun closed => if_pos closed) (fun opened => if_neg opened)

variable {machine : Machine} {id : Nat} {thread : Thread}

theorem Machine.advance_get (here : machine.threads[id]? = some thread) (phase : Phase)
    (store : Store)
    : (machine.advance id phase store).threads[id]? = some { thread with phase } := by
  simp [Machine.advance, here]

theorem Machine.advance_get_ne {other : Nat} (different : other ≠ id) (phase : Phase)
    (store : Store)
    : (machine.advance id phase store).threads[other]? = machine.threads[other]? := by
  simp [Machine.advance, different.symm]

theorem Machine.advance_store (machine : Machine) (id : Nat) (phase : Phase) (store : Store)
    : (machine.advance id phase store).store = store :=
  rfl

theorem Machine.advance_advance (machine : Machine) (id : Nat) (first second : Phase)
    (middle last : Store)
    : (machine.advance id first middle).advance id second last
      = machine.advance id second last := by
  simp [Machine.advance, List.modify_modify_eq, Function.comp_def]

theorem Machine.step_of_returned (here : machine.threads[id]? = some thread) {status : Int}
    (returned : thread.phase = .returned status) (stale : Bool)
    : machine.step ⟨id, stale⟩ = (none, machine) := by
  simp only [Machine.step, here, returned]

/-- By induction on the turns: a thread that has returned stays where it is. -/
theorem Machine.run_of_returned (here : machine.threads[id]? = some thread) {status : Int}
    (returned : thread.phase = .returned status) (stale : Bool) (count : Nat)
    : (machine.run (List.replicate count ⟨id, stale⟩)).2 = machine := by
  induction count with
  | zero => rfl
  | succ count ih =>
      rw [List.replicate_succ]
      change ((machine.step ⟨id, stale⟩).2.run (List.replicate count ⟨id, stale⟩)).2 = machine
      rw [Machine.step_of_returned here returned]
      exact ih

/-- A call that has just returned ignores its further turns. -/
theorem Machine.run_advance_returned (here : machine.threads[id]? = some thread) (status : Int)
    (store : Store) (stale : Bool) (count : Nat)
    : ((machine.advance id (.returned status) store).run (List.replicate count ⟨id, stale⟩)).2
      = machine.advance id (.returned status) store :=
  Machine.run_of_returned (Machine.advance_get here _ store) rfl stale count

/-- While no other thread holds a lock, four turns of a thread are one whole call. -/
theorem Machine.run_alone (here : machine.threads[id]? = some thread)
    (ready : thread.phase = .ready)
    (idle : ∀ other ∈ machine.threads.eraseIdx id, other.holdsAll = none) (stale : Bool)
    : (machine.run (List.replicate 4 ⟨id, stale⟩)).2
      = let called := thread.mutation.call thread.env machine.store
        machine.advance id (.returned called.1) called.2 := by
  have first (machine : Machine) (count : Nat) :
      (machine.run (List.replicate (count + 1) ⟨id, stale⟩)).2
        = ((machine.step ⟨id, stale⟩).2.run (List.replicate count ⟨id, stale⟩)).2 := rfl
  have free (all : Bool) : (machine.threads.eraseIdx id).all
      (fun other => other.allows machine.numLocks all thread.mutation.key) = true := by
    apply List.all_eq_true.mpr
    intro other member
    simp only [Thread.allows, idle other member]
  rw [first, thread.mutation.call_eq]
  cases checked : thread.mutation.check with
  | error err =>
      simp only [Machine.step, here, ready, checked]
      exact Machine.run_advance_returned here err _ stale 3
  | ok _ =>
      simp only [Machine.step, here, ready, checked, free, if_true]
      generalize thread.mutation.prepare thread.env machine.store = prepared
      generalize (match thread.mutation with
        | .set _ _ => stale || thread.mutation.needsAll machine.store.table
        | .delete _ => false) = all
      rw [first]
      simp only [Machine.step, Machine.advance_get here, Machine.advance_advance,
        Machine.advance_store]
      generalize thread.mutation.append thread.env prepared = logged
      by_cases written : logged.1 = kvOk
      · rw [if_neg (not_not.mpr written), if_neg (not_not.mpr written), first]
        simp only [Machine.step, Machine.advance_get here, Machine.advance_advance,
          Machine.advance_store]
        generalize thread.mutation.apply thread.env logged.2.2 = applied
        by_cases ended : applied.1 = kvOk ∨ applied.2.aof.fp = none
        · rw [if_pos ended, if_pos ended]
          exact Machine.run_advance_returned here _ _ stale 1
        · rw [if_neg ended, if_neg ended, first]
          simp only [Machine.step, Machine.advance_get here, Machine.advance_advance,
            Machine.advance_store]
          exact Machine.run_advance_returned here _ _ stale 0
      · rw [if_pos written, if_pos written]
        exact Machine.run_advance_returned here _ _ stale 2

end MiniKv
