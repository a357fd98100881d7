import MiniKv.Correctness.ClientLifetime
import MiniKv.Correctness.CommandOrder
import MiniKv.Server.Service

/-! The responses to a client: one order of the commands on the server, one response in the hand of
a worker, and the bytes that it sends.
-/

namespace MiniKv

open MiniKv.Foundations

variable {reactor : Reactor} {id : Nat} {connection after : Connection} {sight : Option Sight}
  {before behind : List Stage} {stage : Stage}

-- One order of the commands

/-- One worker that does the same things gets the same responses. -/
def Server.Serves : Server → List Served → Server → Prop
  | server, [], final => server = final
  | server, .command _ line env response :: rest, final =>
      (protocolExecuteCommand server line env).1 = some response
        ∧ (protocolExecuteCommand server line env).2.Serves rest final
  | server, .sweep env :: rest, final => (server.sweep env).Serves rest final

theorem Server.Serves.append {first middle last : Server} {early late : List Served}
    (serves : first.Serves early middle) (more : middle.Serves late last)
    : first.Serves (early ++ late) last := by
  induction early generalizing first with
  | nil =>
      obtain rfl : first = middle := serves
      exact more
  | cons served rest ih =>
      cases served with
      | command id line env response => exact ⟨serves.1, ih serves.2⟩
      | sweep env => exact ih serves

/-- The line of a client's command. -/
def Served.line (id : Nat) : Served → Option (List UInt8)
  | .command other line _ _ => if other = id then some line else none
  | .sweep _ => none

/-- The response to a client's command. -/
def Served.response (id : Nat) : Served → Option Response
  | .command other _ _ response => if other = id then some response else none
  | .sweep _ => none

/-- The commands of a client, in the order in which they have been executed. -/
def Service.commands (service : Service) (id : Nat) : List (List UInt8) :=
  service.served.filterMap (Served.line id)

def Service.responses (service : Service) (id : Nat) : List Response :=
  service.served.filterMap (Served.response id)

theorem Reactor.react_server (reactor : Reactor) (readiness : Readiness)
    : (reactor.react readiness).server = reactor.server := by
  cases readiness <;> simp only [Reactor.react, Reactor.threadPoolSubmit, Reactor.accept] <;>
    split <;> rfl

theorem Reactor.serverCloseClient_server (reactor : Reactor) (id : Nat)
    : (reactor.serverCloseClient id).server = reactor.server := by
  rw [Reactor.serverCloseClient]
  split
  · rfl
  · split <;> rfl

theorem Reactor.loopStep_server (reactor : Reactor) (readiness : Readiness)
    : (reactor.loopStep readiness).2.server = reactor.server := by
  rw [Reactor.loopStep]
  split
  · exact reactor.react_server readiness
  · simp only [Reactor.enqueue, Reactor.threadPoolSubmit]
    split
    · rfl
    · simp only
      split
      · rfl
      · split <;> rfl
  · rfl
  · exact Reactor.serverCloseClient_server _ _

/-- Only a worker that sweeps or executes a command changes the server. -/
theorem Reactor.workerStep_server {index : Nat} (env : WorkerEnv)
    (sweeps : reactor.workers[index]? ≠ some .sweeping)
    (executes : ∀ id line, reactor.workers[index]? ≠ some (.executing id line))
    : (reactor.workerStep index env).2.server = reactor.server := by
  rw [Reactor.workerStep]
  split
  · rfl
  · split <;> rfl
  · next here => exact absurd here sweeps
  · split <;> rfl
  · next id line here => exact absurd here (executes id line)
  · split <;> rfl
  · exact Reactor.serverCloseClient_server _ _
  · simp only [Reactor.clientReleaseRef, Reactor.setWorker]
    split <;> rfl

-- Responses in the hand of a worker

/-- The response in the hand of the worker. -/
def Stage.answer : Stage → Option Response
  | .responding response => some response
  | _ => none

/-- A client that nothing has been lost of, and that will be sent to. -/
def Connection.Clean (connection : Connection) : Prop :=
  connection.born = true →
    connection.closed = false ∧ 0 ≤ connection.fd ∧ Stage.closing ∉ connection.stages

/-- Beside an active worker the others are done. -/
theorem Connection.Sound.alone (sound : connection.Sound)
    (split : connection.stages = before ++ stage :: behind) (active : stage.active = true)
    {other : Stage} (member : other ∈ before ++ behind)
    : other.active = false := by
  have single := sound.single
  have atMost := connection.inFlight.toNat_le
  simp only [Connection.tasks, split, List.countP_append, List.countP_cons, active, if_true]
    at single
  have none : (before ++ behind).countP Stage.active = 0 := by
    rw [List.countP_append]
    omega
  exact Bool.eq_false_iff.mpr (List.countP_eq_zero.mp none other member)

/-- The only response is the one of the active worker. -/
theorem Connection.Sound.answers_alone (sound : connection.Sound)
    (split : connection.stages = before ++ stage :: behind) (active : stage.active = true)
    (new : Stage)
    : (before ++ new :: behind).filterMap Stage.answer = new.answer.toList := by
  have others : (before ++ behind).filterMap Stage.answer = [] := by
    rw [List.filterMap_eq_nil_iff]
    intro other member
    have inactive := sound.alone split active member
    cases other with
    | responding response => exact absurd inactive Bool.true_eq_false.mp
    | _ => rfl
  rw [List.filterMap_append, List.append_eq_nil_iff] at others
  rw [Places.filterMap_around, others.1, others.2, List.nil_append, List.append_nil]

/-- By the kind of step: while nothing is executed or answered, the response stays. -/
theorem Connection.Step.answers (step : connection.Step sight after)
    (executes : ∀ line, sight ≠ some (.executed line))
    (answers : ∀ response, sight ≠ some (.answered response))
    : after.stages.filterMap Stage.answer = connection.stages.filterMap Stage.answer := by
  have skip : ∀ (before behind : List Stage) {stage : Stage}, stage.answer = none →
      (before ++ stage :: behind).filterMap Stage.answer
        = (before ++ behind).filterMap Stage.answer := by
    intro before behind stage empty
    rw [List.filterMap_append, List.filterMap_cons_none empty, ← List.filterMap_append]
  cases step with
  | still | accepted | received | refused | submitted => rfl
  | taken waiting split => rw [split, skip _ _ rfl]
  | popped split isOpen more => rw [split, skip _ _ rfl, skip _ _ rfl]
  | ended split finished => rw [split, skip _ _ rfl, skip _ _ rfl]
  | executed split response => exact absurd rfl (executes _)
  | answered split stage goesOn => exact absurd rfl (answers _)
  | closedByWorker split => rw [split, skip _ _ rfl, skip _ _ rfl]
  | closedByLoop => rw [Connection.close_stages]
  | released split => rw [split, skip _ _ rfl]

/-- What makes a client unclean stays. -/
theorem Connection.Step.clean_back (step : connection.Step sight after) (clean : after.Clean)
    : connection.Clean := by
  intro born
  cases step with
  | accepted unborn fd => exact absurd (born.symm.trans unborn) Bool.true_eq_false.mp
  | closedByWorker | closedByLoop =>
      have accepted : connection.close.born = true := by
        rw [Connection.close]
        split <;> exact born
      exact absurd (clean accepted).2.1 (not_le.mpr connection.close_fd)
  | @answered before behind response split stage goesOn =>
      obtain ⟨isOpen, descriptor, stages⟩ := clean born
      simp only at isOpen descriptor stages
      refine ⟨isOpen, ?_, by simp_all⟩
      split at descriptor
      · exact absurd descriptor (by decide)
      · exact descriptor
  | still | received | refused | submitted => exact clean born
  | taken | popped | ended | executed | released =>
      obtain ⟨isOpen, descriptor, stages⟩ := clean born
      exact ⟨isOpen, descriptor, by simp_all⟩

-- Bytes

theorem serverSendAll_prefix (data : List UInt8) (sends : List SendResult)
    : (serverSendAll data sends).1 <+: data := by
  fun_induction serverSendAll data sends with
  | case1 | case2 | case4 | case5 => exact List.nil_prefix
  | case3 _ _ _ ih => exact ih
  | case6 byte data count rest later ih =>
      have whole : byte :: data.take count ++ data.drop count = byte :: data := by
        rw [List.cons_append, List.take_append_drop]
      rw [← whole]
      exact (List.prefix_append_right_inj _).mpr ih

/-- `server_send_all` returns 0 only when everything has been sent. -/
theorem serverSendAll_whole {data : List UInt8} {sends : List SendResult}
    (sent : (serverSendAll data sends).2 = some true)
    : (serverSendAll data sends).1 = data := by
  fun_induction serverSendAll data sends with
  | case1 => rfl
  | case2 | case4 | case5 => simp at sent
  | case3 _ _ _ ih => exact ih sent
  | case6 byte data count rest later ih =>
      rw [ih sent, List.cons_append, List.take_append_drop]

/-- The bytes of a response, with some memory behind what is written. -/
def Response.Sends (response : Response) (payload : List UInt8) : Prop :=
  ∃ memory, memory.length = respBufSize ∧ payload = response.sent memory

section Transmit

variable {client : Client} {response : Response} {payload : List UInt8} {sends : List SendResult}

theorem Client.transmit_prefix (client : Client) (response : Response) (payload : List UInt8)
    (sends : List SendResult)
    : (client.transmit response payload sends).1 <+: payload := by
  rw [Client.transmit]
  split
  · exact serverSendAll_prefix payload sends
  · exact List.nil_prefix

/-- Nothing is sent to a client that is closed or has no descriptor. -/
theorem Client.transmit_closed (gone : client.closed = true ∨ client.fd < 0)
    : (client.transmit response payload sends).1 = [] := by
  rw [Client.transmit, if_neg]
  rcases gone with closed | negative
  · simp [closed]
  · simp [negative]

/-- A worker that goes on with an open client has sent its whole response. -/
theorem Client.transmit_whole {done : Bool} (isOpen : client.closed = false)
    (descriptor : 0 ≤ client.fd) (sent : response.Sends payload)
    (serves : (client.respond id response done).2 = .serving id)
    (returned : (client.transmit response payload sends).2 = some done)
    : (client.transmit response payload sends).1 = payload := by
  by_cases silent : response.outLen = 0
  · obtain ⟨memory, _, rfl⟩ := sent
    have begins := client.transmit_prefix response (response.sent memory) sends
    have empty : response.sent memory = [] := by rw [Response.sent, silent, List.take_zero]
    rw [empty] at begins ⊢
    exact List.prefix_nil.mp begins
  · have positive : 0 < response.outLen := Nat.pos_of_ne_zero silent
    have finished : done = true := by
      simp only [Client.respond, isOpen, descriptor, positive] at serves
      split at serves
      · cases serves
      · next goesOn =>
          simp only [Bool.or_eq_true, not_or, Bool.not_eq_true] at goesOn
          simpa using goesOn.2
    simp only [Client.transmit, isOpen, descriptor, positive, finished, Bool.not_false,
      decide_true, Bool.and_self, if_true] at returned ⊢
    exact serverSendAll_whole returned

end Transmit

end MiniKv
