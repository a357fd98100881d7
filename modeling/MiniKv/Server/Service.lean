import MiniKv.Server.Requests

/-! The server with its sockets: the event loop reads into the buffers of the clients, and workers
send with `server_send_all`. The steps are those of the reactor; what is read and what is sent so is
recorded for each client, by its number.
-/

namespace MiniKv

/-- What one `send` call does: it takes some of the bytes, it is to be tried again (EINTR, EAGAIN,
EWOULDBLOCK), or it fails.
-/
inductive SendResult where
  | taken (count : Nat)
  | again
  | failed
deriving DecidableEq

/-- `server_send_all` by the results of its calls: the bytes the socket takes, and whether it
returns 0; there is no such value while it has not returned.
-/
def serverSendAll : List UInt8 → List SendResult → List UInt8 × Option Bool
  | [], _ => ([], some true)
  | _ :: _, [] => ([], none)
  | byte :: data, .again :: rest => serverSendAll (byte :: data) rest
  | _ :: _, .failed :: _ => ([], some false)
  | _ :: _, .taken 0 :: _ => ([], some false)
  | byte :: data, .taken (count + 1) :: rest =>
      let later := serverSendAll (data.drop count) rest
      (byte :: data.take count ++ later.1, later.2)

/-- The bytes that are sent to the client: the first `*out_len` of the response buffer. -/
def Response.sent (response : Response) (respBuf : List UInt8) : List UInt8 :=
  (response.writes.foldl (fun respBuf write => overwrite respBuf write.1 write.2) respBuf).take
    response.outLen

/-- What gets at the server: a command of a client, with the response to it, or a sweep. -/
inductive Served where
  | command (id : Nat) (line : List UInt8) (env : CommandEnv) (response : Response)
  | sweep (env : WorkerEnv)

/-- The reactor; the read buffer of each client, which is given up when `client_handle_read` fails;
the bytes that have come from it and those sent to it; and what has got at the server.
-/
structure Service where
  reactor : Reactor
  buffers : Nat → Option ClientBuffer
  received : Nat → List UInt8
  sent : Nat → List UInt8
  served : List Served

/-- What `epoll_wait` reports, with what `recv` returns for a readable client. -/
inductive SocketEvent where
  | timer
  | connection (fd : Nat) (allocated registered : Bool)
  | data (fd : Nat) (chunks : List (List UInt8)) (allocated : Nat → Bool)
  | hangup (fd : Nat)

/-- The outside world of a worker's step, with what is on its stack and the results of `send`. -/
structure WorkerInput where
  command : CommandEnv
  prng : UInt32
  stack : Nat → UInt8
  sends : List SendResult

inductive ServiceTurn where
  | loop (event : SocketEvent)
  | worker (index : Nat) (input : WorkerInput)

/-- `client_handle_read` on the buffer of a client. -/
def readClient (buffer : Option ClientBuffer) (chunks : List (List UInt8)) (allocated : Nat → Bool)
    : List (List UInt8) × Option ClientBuffer :=
  match buffer with
  | none => ([], none)
  | some buffer =>
      let handled := buffer.handleRead chunks allocated
      (handled.1.map ClientCmd.line, handled.2)

/-- The part of a response that a worker sends, and whether that works. -/
def Client.transmit (client : Client) (response : Response) (payload : List UInt8)
    (sends : List SendResult)
    : List UInt8 × Option Bool :=
  if !client.closed && 0 ≤ client.fd && 0 < response.outLen then serverSendAll payload sends
  else ([], some true)

namespace Service

/-- The memory of `resp_buf`. -/
def respBuf (input : WorkerInput) : List UInt8 :=
  (List.range respBufSize).map input.stack

/-- The client that the event loop reads for an event. -/
def readable (service : Service) (fd : Nat) : Option Nat :=
  if service.reactor.eventLoop = .waiting then service.reactor.serverFindClient fd else none

/-- One step of the event loop. -/
def loopStep (service : Service) (event : SocketEvent) : Service :=
  let moved (readiness : Readiness) : Service :=
    { service with reactor := (service.reactor.loopStep readiness).2 }
  match event with
  | .timer => moved .timer
  | .connection fd allocated registered => moved (.connection fd allocated registered)
  | .hangup fd => moved (.hangup fd)
  | .data fd chunks allocated =>
      match service.readable fd with
      | none => moved (.data fd [] false)
      | some id =>
          let read := readClient (service.buffers id) chunks allocated
          { moved (.data fd read.1 read.2.isNone) with
            buffers := Function.update service.buffers id read.2
            received :=
              Function.update service.received id (service.received id ++ chunks.flatten) }

/-- One step of a worker. While `server_send_all` has not returned, nothing has happened. -/
def workerStep (service : Service) (index : Nat) (input : WorkerInput) : Service :=
  let env (sent : Bool) : WorkerEnv := { command := input.command, prng := input.prng, sent }
  let moved (sent : Bool) : Service :=
    { service with reactor := (service.reactor.workerStep index (env sent)).2 }
  match service.reactor.workers[index]? with
  | some .sweeping => { moved true with served := service.served ++ [.sweep (env true)] }
  | some (.executing id line) =>
      match service.reactor.clients[id]? with
      | none => service
      | some client =>
          let command := { input.command with clientFd := client.fd }
          match (protocolExecuteCommand service.reactor.server line command).1 with
          | none => service
          | some response =>
              { moved true with
                served := service.served ++ [.command id line command response] }
  | some (.responding id response) =>
      match service.reactor.clients[id]? with
      | none => service
      | some client =>
          let sending := client.transmit response (response.sent (respBuf input)) input.sends
          match sending.2 with
          | none => service
          | some done =>
              { moved done with
                sent := Function.update service.sent id (service.sent id ++ sending.1) }
  | _ => moved true

def step (service : Service) : ServiceTurn → Service
  | .loop event => service.loopStep event
  | .worker index input => service.workerStep index input

def run (service : Service) (turns : List ServiceTurn) : Service :=
  turns.foldl step service

/-- A service that has just been started. The record of a client comes zeroed. -/
def start (server : Server) (queueCapacity workerCount : Nat) : Service :=
  { reactor := .start server queueCapacity workerCount
    buffers := fun _ =>
      some (.initial (List.replicate serverReadBufSize 0) List.length_replicate)
    received := fun _ => []
    sent := fun _ => []
    served := [] }

end Service

end MiniKv
