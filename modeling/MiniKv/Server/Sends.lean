import MiniKv.Server.Replication

/-! What the master sends to its replicas, call by call. The sockets are non-blocking: a `send`
takes a beginning of its data or would block, and which of the two is an input of each call.
-/

namespace MiniKv

open MiniKv.Foundations.Decimal

/-- What one `send` on a non-blocking socket does. -/
inductive SendOutcome where
  | accepted (count : Nat)
  | wouldBlock
deriving DecidableEq

/-- `send`: its return value and the bytes that are on the way to the peer. -/
def send (data : List UInt8) : SendOutcome → Int × List UInt8
  | .accepted count => ((min count data.length : Nat), data.take count)
  | .wouldBlock => (-1, [])

/-- The line that announces a snapshot of `size` bytes. -/
def snapshotHeader (size : Nat) : List UInt8 :=
  ascii ['+', 'S', 'N', 'A', 'P', 'S', 'H', 'O', 'T', ' '] ++ decimal size ++ [cr, lf]

/-- The size of the buffer that the snapshot is read into. -/
def sendBufSize : Nat := 4096

/-- The blocks that `fread` returns one after another; the length of the file is enough fuel. -/
def snapshotBlocks : Nat → List UInt8 → List (List UInt8)
  | 0, _ => []
  | fuel + 1, file =>
      if file = [] then []
      else file.take sendBufSize :: snapshotBlocks fuel (file.drop sendBufSize)

/-- The data of the `send` calls of `replication_handle_sync`, in their order. -/
def syncData (file : List UInt8) : List (List UInt8) :=
  snapshotHeader file.length :: snapshotBlocks file.length file

/-- Consecutive `send` calls whose return values nobody looks at. -/
def sendAll (outcomes : Nat → SendOutcome) : Nat → List (List UInt8) → List UInt8
  | _, [] => []
  | nth, data :: rest => (send data (outcomes nth)).2 ++ sendAll outcomes (nth + 1) rest

/-- The replication state, and what has been delivered to each socket since its SYNC. -/
structure Outbound where
  replication : Replication
  delivered : Int → List UInt8

/-- The walk of `replication_broadcast` along the list: a replica whose `send` fails is unlinked. -/
def broadcastLoop (data : List UInt8) (outcomes : Int → SendOutcome)
    : List Int → (Int → List UInt8) → List Int × (Int → List UInt8)
  | [], delivered => ([], delivered)
  | socketFd :: rest, delivered =>
      let sent := send data (outcomes socketFd)
      let later := broadcastLoop data outcomes rest
        (Function.update delivered socketFd (delivered socketFd ++ sent.2))
      if sent.1 < 0 then later else (socketFd :: later.1, later.2)

/-- A SYNC from its header on, with the outcome of each of its calls and of the allocation of a list
node; and a broadcast, with the outcome of the call for each socket.
-/
inductive OutboundEvent where
  | sync (socketFd : Int) (file : List UInt8) (outcomes : Nat → SendOutcome) (allocated : Bool)
  | broadcast (data : List UInt8) (outcomes : Int → SendOutcome)

def Outbound.step (outbound : Outbound) (event : OutboundEvent) : Unit × Outbound :=
  if outbound.replication.mode ≠ .master then ((), outbound)
  else
    match event with
    | .sync socketFd file outcomes allocated =>
        ((),
          { replication := outbound.replication.addReplica socketFd allocated
            delivered :=
              Function.update outbound.delivered socketFd (sendAll outcomes 0 (syncData file)) })
    | .broadcast data outcomes =>
        let walked := broadcastLoop data outcomes outbound.replication.replicas outbound.delivered
        ((),
          { replication := { outbound.replication with replicas := walked.1 }
            delivered := walked.2 })

/-- A run of events. -/
def Outbound.run (outbound : Outbound) (events : List OutboundEvent) : Outbound :=
  (Foundations.Runs.run Outbound.step outbound events).2

/-- A master without replicas. -/
def Outbound.start : Outbound :=
  { replication := { mode := .master, replicas := [] }, delivered := fun _ => [] }

end MiniKv
