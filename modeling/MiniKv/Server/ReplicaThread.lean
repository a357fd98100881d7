import MiniKv.Persistence.Disk
import MiniKv.Server.Receive

/-! The connections of a replica to its master: `replica_thread_main` reads the line that announces
a snapshot, downloads it to a file, loads the file into a new store, and applies the stream behind
it. What `recv` returns is an input of each step: bytes, or nothing for 0 and for an error.
-/

namespace MiniKv

/-- The size of `header`. -/
def headerSize : Nat := 64

/-- The size of the buffer of the download. -/
def downloadBufSize : Nat := 4096

/-- What an announcement has to start with. -/
def snapshotWord : List UInt8 :=
  ascii ['+', 'S', 'N', 'A', 'P', 'S', 'H', 'O', 'T', ' ']

/-- `atol`, which is `strtol` where a long has 64 bits. -/
def atol (text : List UInt8) : Int64 :=
  strtoll (CString.ofBuffer text).bytes

/-- The outside world of one iteration: whether the file can be opened for writing and which bytes
reach it, whether it can be opened for reading, the calls of the reload, the calls for the lines of
the stream, and what is on the stack.
-/
structure ReplicaEnv where
  opened : Bool
  reaches : Nat → Bool
  readable : Bool
  prng : UInt32
  init : CallEnv
  now : Int64
  load : Nat → CallEnv
  apply : CallEnv
  stack : Nat → UInt8

/-- Where the thread is: without a connection, or in one of its three receive loops. -/
inductive ReplicaStage where
  | closed
  | header (header : List UInt8) (i : Nat)
  | download (remaining : Nat)
  | streaming (cmdbuf : ReceiveBuffer)

/-- The replica: its thread, its store, which is missing when it could not be set up again, and the
file `replica_sync.snap`.
-/
structure ReplicaThread where
  stage : ReplicaStage
  store : Option Store
  file : List UInt8

namespace ReplicaThread

/-- How many bytes the next `recv` asks for. -/
def offered (thread : ReplicaThread) : Nat :=
  match thread.stage with
  | .closed => 0
  | .header _ _ => 1
  | .download remaining => min downloadBufSize remaining
  | .streaming cmdbuf => cmdbuf.offered

/-- A new connection, behind the SYNC that has been sent on it. -/
def connect (thread : ReplicaThread) (stack : Nat → UInt8) : ReplicaThread :=
  match thread.stage with
  | .closed => { thread with stage := .header ((List.range headerSize).map stack) 0 }
  | _ => thread

/-- The last loop is entered with an empty buffer. -/
def stream (thread : ReplicaThread) (env : ReplicaEnv) : ReplicaThread :=
  { thread with
    stage := .streaming (.initial ((List.range cmdbufSize).map env.stack) (by simp)) }

/-- `kv_destroy`, `kv_init_full` and `kv_load_snapshot`, whatever has been downloaded. -/
def reload (thread : ReplicaThread) (env : ReplicaEnv) : ReplicaThread :=
  let store :=
    match kvInitFull replicaBuckets 0 0 none [] env.prng env.init env.load with
    | .error _ => none
    | .ok store =>
        -- A file that cannot be opened loads like one without its magic.
        some (kvLoadSnapshot store (if env.readable then thread.file else []) env.now env.load).2
  { thread with store }.stream env

/-- The download goes on while there are bytes to come. -/
def fetch (thread : ReplicaThread) (remaining : Nat) (env : ReplicaEnv) : ReplicaThread :=
  if remaining = 0 then thread.reload env else { thread with stage := .download remaining }

/-- What follows the header. Without a file, the snapshot is taken for a part of the stream. -/
def announced (thread : ReplicaThread) (header : List UInt8) (env : ReplicaEnv) : ReplicaThread :=
  if snapshotWord.isPrefixOf header = false then { thread with stage := .closed }
  else if env.opened = false then thread.stream env
  else { thread with file := [] }.fetch (atol (header.drop 10)).toInt.toNat env

/-- The lines of the stream; there is nothing to apply them to when the store is missing. -/
def applyAll (store : Option Store) (lines : List (List UInt8)) (env : CallEnv) : Option Store :=
  store.map (fun store => lines.foldl (fun store line => replicaApplyLine store line env) store)

/-- One iteration of the receive loop the thread is in. -/
def receive (thread : ReplicaThread) (chunk : List UInt8) (env : ReplicaEnv) : ReplicaThread :=
  match thread.stage with
  | .closed => thread
  | .header header i =>
      match chunk with
      -- The bytes behind the ones received are those on the stack.
      | [] => thread.announced header env
      | byte :: _ =>
          if byte = lf then thread.announced ((header.set i byte).set (i + 1) 0) env
          else if i + 1 < headerSize - 1 then
            { thread with stage := .header (header.set i byte) (i + 1) }
          else thread.announced (header.set i byte) env
  | .download remaining =>
      let data := chunk.take thread.offered
      if data = [] then thread.reload env
      else
        { thread with file := thread.file ++ survivors env.reaches 0 data }.fetch
          (remaining - data.length) env
  | .streaming cmdbuf =>
      let data := chunk.take thread.offered
      if data = [] then { thread with stage := .closed }
      else
        let received := cmdbuf.receive data
        { thread with
          stage := .streaming received.2
          store := applyAll thread.store received.1 env.apply }

/-- The iterations of one connection. -/
def run (thread : ReplicaThread) (arrivals : List (List UInt8 × ReplicaEnv)) : ReplicaThread :=
  arrivals.foldl (fun thread arrival => thread.receive arrival.1 arrival.2) thread

/-- Chunks that `recv` can return one after another on an open connection. -/
def Receivable : ReplicaThread → List (List UInt8 × ReplicaEnv) → Prop
  | _, [] => True
  | thread, (chunk, env) :: rest =>
      chunk ≠ [] ∧ chunk.length ≤ thread.offered ∧ Receivable (thread.receive chunk env) rest

instance decidableReceivable
    : (thread : ReplicaThread) → (arrivals : List (List UInt8 × ReplicaEnv)) →
      Decidable (thread.Receivable arrivals)
  | _, [] => inferInstanceAs (Decidable True)
  | thread, (chunk, env) :: rest =>
      have : Decidable (Receivable (thread.receive chunk env) rest) := decidableReceivable _ rest
      inferInstanceAs (Decidable (_ ∧ _ ∧ _))

end ReplicaThread

/-- The bytes that have arrived. -/
def arrivedBytes (arrivals : List (List UInt8 × ReplicaEnv)) : List UInt8 :=
  arrivals.flatMap Prod.fst

end MiniKv
