import MiniKv.Foundations.Runs
import MiniKv.Persistence.Rewrite

/-! The store as a machine: its public operations as inputs, and single-threaded runs of them. -/

namespace MiniKv

/-- The operations that name a key, and resizing. A null pointer argument is `none`. -/
inductive Op where
  | set (key value : Option CString)
  | get (key : Option CString)
  | delete (key : Option CString)
  | exist (key : Option CString)
  | lpush (key value : Option CString)
  | rpop (key : Option CString)
  | llen (key : Option CString)
  | sadd (key value : Option CString)
  | srem (key value : Option CString)
  | scard (key : Option CString)
  | smembers (key : Option CString)
  | pexpireat (key : Option CString) (unixMs : Int64)
  | expire (key : Option CString) (seconds : Int64)
  | pexpire (key : Option CString) (milliseconds : Int64)
  | pttl (key : Option CString)
  | ttl (key : Option CString)
  | persist (key : Option CString)
  | resize (newBucketCount : Nat)
deriving DecidableEq

/-- The operations that maintain the store as a whole. -/
inductive Upkeep where
  | expireSampleSweep (sampleSize maxKeysToDelete : Nat)
  | evictLru
  | setAutoResize (enabled : Bool)
  | setMaxCapacity (maxCapacity : Nat)
  | setMemoryBudget (budgetBytes : Nat)
  | bgrewriteaof (pid : Int)
  | mergeAofRewrite (childPid : Int) (outcome : MergeOutcome)
  | discardAofRewrite
deriving DecidableEq

inductive Action where
  | op (op : Op)
  | upkeep (upkeep : Upkeep)
deriving DecidableEq

/-- What a call returns; `μ` is how the members of a set are listed. -/
inductive Reply (μ : Type) where
  | status (code : Int)
  | value (found : Option CString)
  | popped (code : Int) (found : Option CString)
  | members (found : Option μ) (count : Nat)
  | remaining (milliseconds : Int64)
  | deleted (count : Nat)
  | done
  | undefined
deriving DecidableEq

/-- The reply of a push or an add. -/
def Reply.ofResult {μ : Type} : Option Int → Reply μ
  | some code => .status code
  | none => .undefined

/-- The same reply with members listed in another way. -/
def Reply.map {μ ν : Type} (list : μ → ν) : Reply μ → Reply ν
  | .status code => .status code
  | .value found => .value found
  | .popped code found => .popped code found
  | .members found count => .members (found.map list) count
  | .remaining milliseconds => .remaining milliseconds
  | .deleted count => .deleted count
  | .done => .done
  | .undefined => .undefined

/-- One operation. -/
def Op.call (op : Op) (env : CallEnv) (store : Store) : Reply (List CString) × Store :=
  match op with
  | .set key value => (kvSet store key value env).map Reply.status id
  | .get key => (kvGet store key env).map Reply.value id
  | .delete key => (kvDelete store key env).map Reply.status id
  | .exist key => (kvExists store key env).map Reply.status id
  | .lpush key value => (kvLpush store key value env).map Reply.ofResult id
  | .rpop key => (kvRpop store key env).map (fun popped => .popped popped.1 popped.2) id
  | .llen key => (kvLlen store key env).map Reply.status id
  | .sadd key value => (kvSadd store key value env).map Reply.ofResult id
  | .srem key value => (kvSrem store key value env).map Reply.status id
  | .scard key => (kvScard store key env).map Reply.status id
  | .smembers key =>
      (kvSmembers store key env).map (fun found => .members found.1 found.2) id
  | .pexpireat key unixMs => (kvPexpireat store key unixMs env).map Reply.status id
  | .expire key seconds => (kvExpire store key seconds env).map Reply.status id
  | .pexpire key milliseconds => (kvPexpire store key milliseconds env).map Reply.status id
  | .pttl key => (kvPttl store key env).map Reply.remaining id
  | .ttl key => (kvTtl store key env).map Reply.remaining id
  | .persist key => (kvPersist store key env).map Reply.status id
  | .resize newBucketCount =>
      (store.table.kvResizeUnlocked newBucketCount env).map Reply.status
        (fun table => { store with table })

/-- One maintenance operation. -/
def Upkeep.call (upkeep : Upkeep) (env : CallEnv) (store : Store)
    : Reply (List CString) × Store :=
  match upkeep with
  | .expireSampleSweep sampleSize maxKeysToDelete =>
      (store.table.kvExpireSampleSweep sampleSize maxKeysToDelete env.now).map Reply.deleted
        (fun table => { store with table })
  | .evictLru =>
      store.table.kvEvictLruUnlocked.map Reply.status (fun table => { store with table })
  | .setAutoResize enabled =>
      (.done, { store with table := { store.table with autoResize := enabled } })
  | .setMaxCapacity maxCapacity =>
      (.done, { store with table := { store.table with maxCapacity } })
  | .setMemoryBudget budgetBytes =>
      (.done, { store with table := { store.table with maxMemoryBudget := budgetBytes } })
  | .bgrewriteaof pid => (kvBgrewriteaof store pid env).map Reply.status id
  | .mergeAofRewrite childPid outcome =>
      (kvMergeAofRewrite store childPid outcome).map Reply.status id
  | .discardAofRewrite => (.done, kvDiscardAofRewrite store)

/-- A call: what is called, in which environment, and the state in which it meets the
process-wide random number generator.
-/
structure Call where
  action : Action
  env : CallEnv
  prng : UInt32

/-- One call on a store. -/
def Store.step (store : Store) (call : Call) : Reply (List CString) × Store :=
  let store := { store with table := { store.table with prng := call.prng } }
  match call.action with
  | .op op => op.call call.env store
  | .upkeep upkeep => upkeep.call call.env store

/-- A single-threaded run of calls. -/
def Store.run (store : Store) (calls : List Call) : List (Reply (List CString)) × Store :=
  Foundations.Runs.run Store.step store calls

end MiniKv
