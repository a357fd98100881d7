import MiniKv.Correctness.ClientLines
import MiniKv.Correctness.ClientResponses

/-! What a turn of the reactor does for one client: lines come in at the end of its pipeline, the
worker on it has at most one response in its hand, and the bytes that are sent to it are those of
the responses.
-/

namespace MiniKv

variable {service next : Service} {reactor : Reactor} {id : Nat} {turn : ReactorTurn}
  {new : List Served}

-- What is kept of a client

/-- Its commands that have been executed, those that are waiting, and those that have been read. -/
def Service.pipeline (service : Service) (id : Nat) : List (List UInt8) :=
  service.commands id
    ++ ((service.reactor.connection id).backlog ++ service.reactor.unread id)

/-- The response in the hand of the worker on the client. -/
def Service.hand (service : Service) (id : Nat) : List Response :=
  (service.reactor.connection id).stages.filterMap Stage.answer

/-- The responses have been dealt with, up to the one in hand; what has been sent is the beginning
of their bytes, and all of them while the client is clean.
-/
def Service.Delivered (service : Service) (id : Nat) : Prop :=
  ∃ done payloads, service.responses id = done ++ service.hand id
    ∧ List.Forall₂ Response.Sends done payloads
    ∧ service.sent id <+: payloads.flatten
    ∧ ((service.reactor.connection id).Clean → service.sent id = payloads.flatten)

-- Turns of the reactor

/-- The service takes a turn of the reactor, which puts its commands and sweeps to the server. -/
structure Service.Takes (service next : Service) (turn : ReactorTurn) (new : List Served) : Prop
    where
  reactor : next.reactor = (service.reactor.step turn).2
  served : next.served = service.served ++ new
  serves : service.reactor.server.Serves new next.reactor.server
  lines (id : Nat) : new.filterMap (Served.line id)
    = ((service.reactor.step turn).1.bind (ClientEvent.executedLine id)).toList

/-- Lines only come in at the end of the pipeline, when they are read. -/
theorem Service.Takes.pipeline (takes : service.Takes next turn new)
    (sound : service.reactor.Sound)
    : next.pipeline id = service.pipeline id ++ service.reactor.reads id turn := by
  have connected := sound.connections id
  have backlog := connected.backlog (Reactor.connection_step sound.listed connected turn)
  rw [Option.bind_assoc, Option.bind_assoc] at backlog
  simp only [ClientEvent.sight_enqueuedLine, ClientEvent.sight_executedLine] at backlog
  rw [Service.pipeline, Service.commands, takes.served, List.filterMap_append, takes.lines,
    takes.reactor, List.append_assoc, ← List.append_assoc (Option.toList _), ← backlog,
    List.append_assoc, ← Reactor.unread_step sound.listed turn id, Service.pipeline,
    Service.commands]
  simp only [List.append_assoc]

/-- A worker that has no command of the client in its hand executes none. -/
theorem Reactor.executes_none
    (executes : ∀ index env line, turn = .worker index env →
      reactor.workers[index]? ≠ some (.executing id line))
    : (reactor.step turn).1.bind (ClientEvent.executedLine id) = none := by
  rw [← funext (ClientEvent.sight_executedLine id reactor.poolFull), ← Option.bind_assoc,
    Option.bind_eq_none_iff]
  intro sight seen
  cases Reactor.step_shows seen with
  | executed here => exact absurd here (executes _ _ _ rfl)
  | _ => rfl

theorem Service.Takes.loop {readiness : Readiness}
    (moved : next.reactor = (service.reactor.loopStep readiness).2)
    (served : next.served = service.served)
    : service.Takes next (.loop readiness) [] := by
  refine ⟨moved, served.trans (List.append_nil _).symm, ?_, fun id => ?_⟩
  · rw [moved]
    exact (service.reactor.loopStep_server readiness).symm
  · rw [Reactor.executes_none (fun _ _ _ => ReactorTurn.noConfusion)]
    rfl

/-- A worker that neither sweeps nor executes puts nothing to the server. -/
theorem Service.Takes.worker {index : Nat} {env : WorkerEnv}
    (sweeps : service.reactor.workers[index]? ≠ some .sweeping)
    (executes : ∀ id line, service.reactor.workers[index]? ≠ some (.executing id line))
    (moved : next.reactor = (service.reactor.workerStep index env).2)
    (served : next.served = service.served)
    : service.Takes next (.worker index env) [] := by
  refine ⟨moved, served.trans (List.append_nil _).symm, ?_, fun id => ?_⟩
  · rw [moved]
    exact (Reactor.workerStep_server env sweeps executes).symm
  · rw [Reactor.executes_none]
    · rfl
    · rintro _ _ line ⟨⟩
      exact executes id line

theorem Service.Takes.executes {index : Nat} {env : WorkerEnv} {other : Nat} {line : List UInt8}
    {command : CommandEnv} {response : Response} {answering : Server}
    (stepped : service.reactor.step (.worker index env) = (some (.executed other line),
      { service.reactor with server := answering }.setWorker index (.responding other response)))
    (executes : protocolExecuteCommand service.reactor.server line command
      = (some response, answering))
    (moved : next.reactor = (service.reactor.workerStep index env).2)
    (served : next.served = service.served ++ [.command other line command response])
    : service.Takes next (.worker index env) [.command other line command response] := by
  refine ⟨moved, served, ⟨congrArg Prod.fst executes, ?_⟩, fun id => ?_⟩
  · rw [moved, ← Reactor.step, stepped, executes]
    rfl
  · rw [stepped]
    by_cases same : other = id <;> simp [Served.line, ClientEvent.executedLine, same]

/-- A turn without a command or a response of the client leaves its responses and bytes alone. -/
theorem Service.Delivered.aside (delivered : service.Delivered id) (sound : service.reactor.Sound)
    (moved : next.reactor = (service.reactor.step turn).2)
    (executes : ∀ index env line, turn = .worker index env →
      service.reactor.workers[index]? ≠ some (.executing id line))
    (responds : ∀ index env response, turn = .worker index env →
      service.reactor.workers[index]? ≠ some (.responding id response))
    (responses : next.responses id = service.responses id)
    (sent : next.sent id = service.sent id)
    : next.Delivered id := by
  have step := Reactor.connection_step sound.listed (sound.connections id) turn
  obtain ⟨done, payloads, hand, sends, bytes, whole⟩ := delivered
  refine ⟨done, payloads, ?_, sends, sent ▸ bytes, fun clean => ?_⟩
  · rw [responses, hand, Service.hand, Service.hand, moved, step.answers]
    · intro line seen
      cases Reactor.step_shows seen with
      | executed here => exact executes _ _ line rfl here
    · intro response seen
      cases Reactor.step_shows seen with
      | answered here record => exact responds _ _ response rfl here
  · rw [sent]
    exact whole (step.clean_back (moved ▸ clean))

/-- A turn that executes a command of the client: its hand was empty, and has the response now. -/
theorem Service.Delivered.executed (delivered : service.Delivered id)
    (sound : service.reactor.Sound) {index : Nat} {env : WorkerEnv} {line : List UInt8}
    {response : Response} {answering : Server}
    (here : service.reactor.workers[index]? = some (.executing id line))
    (stepped : (service.reactor.step (.worker index env)).2
      = { service.reactor with server := answering }.setWorker index (.responding id response))
    (moved : next.reactor = (service.reactor.step (.worker index env)).2)
    (responses : next.responses id = service.responses id ++ [response])
    (sent : next.sent id = service.sent id)
    : next.Delivered id := by
  have step := Reactor.connection_step sound.listed (sound.connections id) (.worker index env)
  obtain ⟨before, behind, stages, placed⟩ :=
    @Reactor.connection_setWorker { service.reactor with server := answering } index _ here id
  rw [Worker.stageOf, if_pos rfl] at stages
  have split : (service.reactor.connection id).stages = before ++ .executing line :: behind :=
    stages
  have alone := (sound.connections id).answers_alone split rfl
  obtain ⟨done, payloads, hand, sends, bytes, whole⟩ := delivered
  rw [Service.hand, split, alone] at hand
  refine ⟨done, payloads, ?_, sends, sent ▸ bytes, fun clean => ?_⟩
  · rw [responses, hand, Service.hand, moved, stepped, placed]
    simp [Worker.stageOf, alone, Stage.answer]
  · rw [sent]
    exact whole (step.clean_back (moved ▸ clean))

/-- A turn that deals with a response to the client. -/
theorem Service.Delivered.answered (delivered : service.Delivered id)
    (sound : service.reactor.Sound) {index : Nat} {env : WorkerEnv} {client : Client}
    {response : Response} {payload : List UInt8} {sends : List SendResult}
    (here : service.reactor.workers[index]? = some (.responding id response))
    (record : service.reactor.clients[id]? = some client) (isPayload : response.Sends payload)
    (returned : (client.transmit response payload sends).2 = some env.sent)
    (moved : next.reactor = (service.reactor.step (.worker index env)).2)
    (responses : next.responses id = service.responses id)
    (sent : next.sent id = service.sent id ++ (client.transmit response payload sends).1)
    : next.Delivered id := by
  have stepped : (service.reactor.step (.worker index env)).2
      = (service.reactor.setClient id (client.respond id response env.sent).1).setWorker index
        (client.respond id response env.sent).2 := by
    simp only [Reactor.step, Reactor.workerStep, here, record]
  have inner := sound.connections id
  have step := Reactor.connection_step sound.listed inner (.worker index env)
  obtain ⟨before, behind, split, placed⟩ := Reactor.connection_setBoth record here
  rw [Worker.stageOf, if_pos rfl, Option.toList_some, List.singleton_append] at split
  have found := Reactor.client_of_get record
  have alone := inner.answers_alone split rfl
  obtain ⟨done, payloads, hand, all, bytes, whole⟩ := delivered
  rw [Service.hand, split, alone] at hand
  refine ⟨done ++ [response], payloads ++ [payload], ?_,
    List.rel_append all (.cons isPayload .nil), ?_, fun clean => ?_⟩
  · rw [responses, hand, Service.hand, moved, stepped, placed]
    rcases client.respond_snd id response env.sent with closes | ⟨serves, _⟩
    · simp [closes, Worker.stageOf, alone, Stage.answer]
    · simp [serves, Worker.stageOf, alone, Stage.answer]
  · rw [sent, List.flatten_append]
    by_cases clean : (service.reactor.connection id).Clean
    · rw [whole clean]
      simpa using client.transmit_prefix response payload sends
    · have gone : client.closed = true ∨ client.fd < 0 := by
        by_contra opened
        rw [not_or, Bool.not_eq_true, not_lt, ← found] at opened
        refine clean (fun _ => ⟨opened.1, opened.2, fun closing => ?_⟩)
        -- another worker that closes the client would be active beside this one
        rw [split] at closing
        have beside : Stage.closing ∈ before ++ behind := by simpa using closing
        exact absurd (inner.alone split rfl beside) Bool.true_eq_false.mp
      rw [Client.transmit_closed gone, List.append_nil]
      exact bytes.trans (List.prefix_append _ _)
  · have cleanBefore := step.clean_back (moved ▸ clean)
    obtain ⟨isOpen, descriptor, _⟩ := cleanBefore (inner.born split)
    have serves : (client.respond id response env.sent).2 = .serving id := by
      rcases client.respond_snd id response env.sent with closes | ⟨serves, _⟩
      · rw [moved, stepped, placed, closes, Worker.stageOf, if_pos rfl] at clean
        exact absurd (by simp) (clean (inner.born split)).2.2
      · exact serves
    rw [sent, whole cleanBefore, Client.transmit_whole (found ▸ isOpen) (found ▸ descriptor)
      isPayload serves returned]
    simp

end MiniKv
