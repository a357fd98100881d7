import MiniKv.Store.Locks
import MiniKv.Store.Mutations

/-! Threads that write while a rewrite is running. Under its locks a call changes the table and the
log, and then appends its record to the rewrite buffer piece by piece. `aof_lock` is held for one
piece only, so between two pieces other threads may append theirs.
-/

namespace MiniKv

/-- The file with the rewrite buffer of another state. -/
def Aof.withBuffer (aof buffer : Aof) : Aof :=
  { aof with
    rewriteBuf := buffer.rewriteBuf
    rewriteBufLen := buffer.rewriteBufLen
    rewriteBufCap := buffer.rewriteBufCap }

/-- How far a call has come: which pieces are in the buffer and which are not. -/
inductive Progress where
  | ready
  | appending (all : Bool) (done rest : List (List UInt8)) (reply : Reply (List CString))
  | returned (reply : Reply (List CString))
deriving DecidableEq

structure Appender where
  op : Op
  env : CallEnv
  progress : Progress

/-- The threads that share a store with `numLocks` locks. -/
structure Appenders where
  store : Store
  numLocks : Nat
  appenders : List Appender

/-- A thread that is still appending does not stand in the way of another one that wants all locks
or the one of a key.
-/
def Appender.allows (appender : Appender) (numLocks : Nat) (all : Bool) (key : Option CString)
    : Bool :=
  match appender.progress with
  | .ready | .returned _ => true
  | .appending held _ _ _ =>
      !held && !all
        && (match appender.op.key, key with
          | some held, some wanted => kvLockIndex numLocks held != kvLockIndex numLocks wanted
          | _, _ => true)

/-- The turn of a thread; `all` says whether its call takes all locks. -/
structure Shift where
  id : Nat
  all : Bool

/-- A thread comes further and leaves a store behind. -/
def Appenders.advance (machine : Appenders) (id : Nat) (progress : Progress) (store : Store)
    : Appenders :=
  { machine with
    store
    appenders := machine.appenders.modify id (fun appender => { appender with progress }) }

/-- The pieces that a call which met `table` and got `reply` has to append. -/
def Appender.pieces (appender : Appender) (table : Table) (reply : Reply (List CString))
    : List (List UInt8) :=
  if appender.op.succeeded reply then appender.op.appends appender.env.now table else []

/-- The first step under the locks: everything but the appends to the rewrite buffer. -/
def Appender.mutate (appender : Appender) (store : Store) : Reply (List CString) × Store :=
  (appender.op.call appender.env store).map id
    (fun called => { called with aof := called.aof.withBuffer store.aof })

/-- A thread with nothing left to append returns. -/
def Progress.next (all : Bool) (done rest : List (List UInt8)) (reply : Reply (List CString))
    : Progress :=
  if rest = [] then .returned reply else .appending all done rest reply

/-- One step of one thread; it reports the thread if that has begun its record. -/
def Appenders.step (machine : Appenders) (shift : Shift) : Option Nat × Appenders :=
  match machine.appenders[shift.id]? with
  | none => (none, machine)
  | some appender =>
      match appender.progress with
      | .ready =>
          if (machine.appenders.all
              (fun other => other.allows machine.numLocks shift.all appender.op.key)) = false then
            (none, machine)
          else
            let mutated := appender.mutate machine.store
            (none, machine.advance shift.id
              (.next shift.all [] (appender.pieces machine.store.table mutated.1) mutated.1)
              mutated.2)
      | .appending _ _ [] reply => (none, machine.advance shift.id (.returned reply) machine.store)
      | .appending all done (piece :: rest) reply =>
          let appended := machine.store.aof.appendAofRewriteBuffer piece
            (appender.env.alloc (.rewriteBuffer done.length))
          (if done = [] then some shift.id else none,
            machine.advance shift.id (.next all (done ++ [piece]) rest reply)
              { machine.store with aof := appended })
      | .returned _ => (none, machine)

/-- A run of the threads in the order of their shifts. -/
def Appenders.run (machine : Appenders) (shifts : List Shift) : List (Option Nat) × Appenders :=
  Foundations.Runs.run Appenders.step machine shifts

/-- The threads before their first steps. -/
def Appenders.start (store : Store) (numLocks : Nat) (calls : List (Op × CallEnv)) : Appenders :=
  { store, numLocks, appenders := calls.map (fun call => ⟨call.1, call.2, .ready⟩) }

end MiniKv
