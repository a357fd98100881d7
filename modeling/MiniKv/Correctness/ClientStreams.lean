import MiniKv.Correctness.ClientDelivery

/-! What a client gets for what it sends, with the execution of a command and a sweep as one step:
its commands are the first lines it has sent, and it gets the responses to them in their order. A
worker has one response in its hand, sends it whole or closes the client, and nothing is sent to a
closed client.
-/

namespace MiniKv

variable {service : Service} {id : Nat}

/-- The server is where one worker would have taken it, and the pipeline holds the lines of what has
come from the client.
-/
structure Service.Kept (server : Server) (id : Nat) (service : Service) : Prop where
  sound : service.reactor.Sound
  serves : server.Serves service.served service.reactor.server
  hasRead : HasRead (service.buffers id) (service.received id) (service.pipeline id)
  delivered : service.Delivered id

section Moves

variable {server : Server} {next : Service} {turn : ReactorTurn} {new : List Served}

/-- A turn that reads nothing from the client keeps all but what is sent to it. -/
theorem Service.Kept.takes (kept : service.Kept server id)
    (takes : service.Takes next turn new) (reads : service.reactor.reads id turn = [])
    (buffers : next.buffers id = service.buffers id)
    (received : next.received id = service.received id) (delivered : next.Delivered id)
    : next.Kept server id := by
  have pipeline : next.pipeline id = service.pipeline id := by
    rw [takes.pipeline kept.sound, reads, List.append_nil]
  refine ⟨takes.reactor ▸ kept.sound.step turn, takes.served ▸ kept.serves.append takes.serves,
    ?_, delivered⟩
  rw [pipeline, received, buffers]
  exact kept.hasRead

/-- A turn of the event loop that reads from the client. -/
theorem Service.Kept.read (kept : service.Kept server id) {readiness : Readiness}
    (takes : service.Takes next (.loop readiness) []) {chunks : List (List UInt8)}
    {allocated : Nat → Bool}
    (reads : readClient (service.buffers id) chunks allocated
      = (service.reactor.reads id (.loop readiness), next.buffers id))
    (received : next.received id = service.received id ++ chunks.flatten)
    (sent : next.sent id = service.sent id)
    : next.Kept server id := by
  have pipeline := @Service.Takes.pipeline _ _ id _ _ takes kept.sound
  have responses : next.responses id = service.responses id := by
    rw [Service.responses, takes.served, List.append_nil, Service.responses]
  refine ⟨takes.reactor ▸ kept.sound.step _, takes.served ▸ kept.serves.append takes.serves, ?_,
    kept.delivered.aside kept.sound takes.reactor (fun _ _ _ => ReactorTurn.noConfusion)
      (fun _ _ _ => ReactorTurn.noConfusion) responses sent⟩
  have later := kept.hasRead.readClient chunks allocated
  simp only [reads, ← pipeline, ← received] at later
  exact later

theorem Service.Kept.loopStep (kept : service.Kept server id) (event : SocketEvent)
    : (service.loopStep event).Kept server id := by
  -- an event that is no data of the client
  have other : ∀ (next : Service) (readiness : Readiness),
      service.reactor.reads id (.loop readiness) = [] →
      next.reactor = (service.reactor.loopStep readiness).2 → next.served = service.served →
      next.buffers id = service.buffers id → next.received id = service.received id →
      next.sent = service.sent → next.Kept server id := by
    intro next readiness reads moved served buffers received sent
    exact kept.takes (.loop moved served) reads buffers received
      (@Service.Delivered.aside _ _ _ (.loop readiness) kept.delivered kept.sound moved
        (fun _ _ _ => ReactorTurn.noConfusion) (fun _ _ _ => ReactorTurn.noConfusion)
        (by rw [Service.responses, served]; rfl) (congrFun sent id))
  cases event with
  | timer => exact other _ .timer rfl rfl rfl rfl rfl rfl
  | connection fd allocated registered => exact other _ (.connection ..) rfl rfl rfl rfl rfl rfl
  | hangup fd => exact other _ (.hangup fd) rfl rfl rfl rfl rfl rfl
  | data fd chunks allocated =>
      simp only [Service.loopStep]
      cases readable : service.readable fd with
      | none => exact other _ (.data fd [] false) (by simp [Reactor.reads]) rfl rfl rfl rfl rfl
      | some owner =>
          obtain ⟨waiting, found⟩ := Option.ite_none_right_eq_some.mp readable
          simp only
          by_cases same : owner = id
          · subst same
            refine @Service.Kept.read _ _ _ _ kept (.data fd _ _) (.loop rfl rfl) chunks allocated
              ?_ (Function.update_self _ _ _) rfl
            simp [Reactor.reads, waiting, found]
          · refine other _ (.data fd _ _) ?_ rfl rfl (Function.update_of_ne (Ne.symm same) _ _)
              (Function.update_of_ne (Ne.symm same) _ _) rfl
            simp [Reactor.reads, found, same]

/-- A turn of a worker without a command or a response of the client. -/
theorem Service.Kept.worker (kept : service.Kept server id) {index : Nat} {env : WorkerEnv}
    {worker : Worker} (here : service.reactor.workers[index]? = some worker)
    (takes : service.Takes next (.worker index env) new)
    (executes : ∀ line, worker ≠ .executing id line)
    (responds : ∀ response, worker ≠ .responding id response)
    (responses : new.filterMap (Served.response id) = [])
    (buffers : next.buffers = service.buffers) (received : next.received = service.received)
    (sent : next.sent id = service.sent id)
    : next.Kept server id := by
  refine kept.takes takes rfl (congrFun buffers id) (congrFun received id)
    (kept.delivered.aside kept.sound takes.reactor ?_ ?_ ?_ sent)
  · rintro _ _ line ⟨⟩ found
    exact executes line (Option.some.inj (here.symm.trans found))
  · rintro _ _ response ⟨⟩ found
    exact responds response (Option.some.inj (here.symm.trans found))
  · rw [Service.responses, takes.served, List.filterMap_append, responses, List.append_nil,
      Service.responses]

theorem Service.Kept.workerStep (kept : service.Kept server id) (index : Nat)
    (input : WorkerInput)
    : (service.workerStep index input).Kept server id := by
  simp only [Service.workerStep]
  cases here : service.reactor.workers[index]? with
  | none =>
      have stays : ∀ env, (service.reactor.workerStep index env).2 = service.reactor := by
        intro env
        simp only [Reactor.workerStep, here]
      simp only [stays]
      exact kept
  | some worker =>
      cases worker with
      | idle | serving | closing | releasing =>
          exact kept.worker here (.worker (by simp [here]) (by simp [here]) rfl rfl)
            (fun _ => Worker.noConfusion) (fun _ => Worker.noConfusion) rfl rfl rfl rfl
      | sweeping =>
          have swept : ∀ env, service.reactor.step (.worker index env) = (none,
              { service.reactor with server := service.reactor.server.sweep env }.setWorker index
                .idle) := by
            intro env
            simp only [Reactor.step, Reactor.workerStep, here]
          refine @Service.Kept.worker _ _ _ _ [.sweep _] kept index _ _ here
            ⟨rfl, rfl, ?_, fun _ => by rw [swept]; rfl⟩
            (fun _ => Worker.noConfusion) (fun _ => Worker.noConfusion) rfl rfl rfl rfl
          exact (congrArg (fun stepped => stepped.2.server) (swept _)).symm
      | executing other line =>
          simp only
          cases record : service.reactor.clients[other]? with
          | none => exact kept
          | some client =>
              simp only
              cases executes : (protocolExecuteCommand service.reactor.server line
                  { input.command with clientFd := client.fd }).1 with
              | none => exact kept
              | some response =>
                  simp only
                  have stepped : service.reactor.step
                      (.worker index ⟨input.command, input.prng, true⟩)
                      = (some (.executed other line), { service.reactor with
                          server := (protocolExecuteCommand service.reactor.server line
                            { input.command with clientFd := client.fd }).2
                        }.setWorker index (.responding other response)) := by
                    simp only [Reactor.step, Reactor.workerStep, here, record, executes]
                  have alone := @Prod.ext _ _ _ (some response, _) executes rfl
                  by_cases same : other = id
                  · subst same
                    exact kept.takes (.executes stepped alone rfl rfl) rfl rfl rfl
                      (kept.delivered.executed kept.sound here (congrArg Prod.snd stepped) rfl
                        (by simp [Service.responses, Served.response]) rfl)
                  · exact kept.worker here (.executes stepped alone rfl rfl) (by simpa using same)
                      (fun _ => Worker.noConfusion) (by simp [Served.response, same]) rfl rfl rfl
      | responding other response =>
          simp only
          cases record : service.reactor.clients[other]? with
          | none => exact kept
          | some client =>
              simp only
              cases returned : (client.transmit response (response.sent (respBuf input))
                  input.sends).2 with
              | none => exact kept
              | some done =>
                  by_cases same : other = id
                  · subst same
                    exact kept.takes (.worker (by simp [here]) (by simp [here]) rfl rfl) rfl rfl rfl
                      (kept.delivered.answered kept.sound here record
                        ⟨respBuf input, by simp [respBuf], rfl⟩ returned rfl rfl
                        (Function.update_self _ _ _))
                  · exact kept.worker here (.worker (by simp [here]) (by simp [here]) rfl rfl)
                      (fun _ => Worker.noConfusion) (by simpa using fun other => absurd other same)
                      rfl rfl rfl (Function.update_of_ne (Ne.symm same) _ _)

end Moves

theorem Service.Kept.run (server : Server) (queueCapacity workerCount id : Nat)
    (turns : List ServiceTurn)
    : ((Service.start server queueCapacity workerCount).run turns).Kept server id := by
  have idle : ((Service.start server queueCapacity workerCount).reactor.connection id).stages
      = [] := by
    simp [Service.start, Reactor.start, Reactor.connection, Worker.stageOf]
  have start : (Service.start server queueCapacity workerCount).Kept server id := by
    have empty : (Service.start server queueCapacity workerCount).pipeline id = [] := by
      simp only [Service.pipeline, Connection.backlog, idle]
      rfl
    refine ⟨.start server queueCapacity workerCount, rfl, ⟨empty ▸ List.nil_prefix, ?_⟩,
      [], [], ?_, .nil, List.prefix_rfl, fun _ => rfl⟩
    · rintro buffer ⟨⟩
      exact ⟨empty, rfl⟩
    · rw [Service.hand, idle]
      rfl
  refine List.foldlRecOn turns Service.step start (fun service kept turn _ => ?_)
  cases turn with
  | loop event => exact kept.loopStep event
  | worker index input => exact kept.workerStep index input

/-- A client that is open and whose reads have not failed has got the responses to all its lines,
once nothing of it is in its queue or in the hands of the event loop and the workers.
-/
theorem service_answers_at_rest (server : Server) (queueCapacity workerCount : Nat)
    (turns : List ServiceTurn) (id : Nat) {client : Client}
    (record : ((Service.start server queueCapacity workerCount).run turns).reactor.clients[id]?
      = some client)
    (isOpen : 0 ≤ client.fd) (empty : client.cmdQueue = [])
    (reads : ((Service.start server queueCapacity workerCount).run turns).buffers id ≠ none)
    (waits : ((Service.start server queueCapacity workerCount).run turns).reactor.eventLoop
      = .waiting)
    (free : ∀ worker ∈ ((Service.start server queueCapacity workerCount).run turns).reactor.workers,
      worker.stageOf id = none)
    : let service := (Service.start server queueCapacity workerCount).run turns
      service.commands id = streamLines (service.received id)
      ∧ ∃ payloads, List.Forall₂ Response.Sends (service.responses id) payloads
        ∧ service.sent id = payloads.flatten := by
  intro service
  have kept := Service.Kept.run server queueCapacity workerCount id turns
  obtain ⟨buffer, held⟩ := Option.ne_none_iff_exists'.mp reads
  rw [← Reactor.client_of_get record] at isOpen empty
  have stages : (service.reactor.connection id).stages = [] := List.filterMap_eq_nil_iff.mpr free
  have pending : (service.reactor.connection id).pending = [] := empty
  constructor
  · have pipeline : service.pipeline id = service.commands id := by
      simp [Service.pipeline, Connection.backlog, stages, pending, Reactor.unread, service, waits]
    rw [← pipeline]
    exact (kept.hasRead.2 buffer held).1
  · obtain ⟨done, payloads, hand, sends, _, whole⟩ := kept.delivered
    rw [Service.hand, stages, List.filterMap_nil, List.append_nil] at hand
    refine ⟨payloads, hand ▸ sends, whole (fun born => ?_)⟩
    exact ⟨((kept.sound.connections id).opened born isOpen).2, isOpen, stages ▸ List.not_mem_nil⟩

/-- A client that sends one PING, in two pieces; the socket takes the response in two pieces. -/
def pingTurns : List ServiceTurn :=
  let worker : ServiceTurn := .worker 0 ⟨.at 1, 7, fun _ => 0, [.taken 2, .again, .taken 100]⟩
  [.loop (.connection 5 true true),
    .loop (.data 5 [[80, 73], [78, 71, cr, lf]] (fun _ => true)),
    .loop .timer, .loop .timer, worker, worker, worker, worker, worker, worker]

theorem service_answers_at_rest_ping
    : let service := (Service.start ⟨Store.fresh 1 0 0 7 [], ⟨.master, []⟩⟩ 1024 1).run pingTurns
      service.commands 0 = streamLines (service.received 0)
      ∧ ∃ payloads, List.Forall₂ Response.Sends (service.responses 0) payloads
        ∧ service.sent 0 = payloads.flatten := by
  refine @service_answers_at_rest ⟨Store.fresh 1 0 0 7 [], ⟨.master, []⟩⟩ 1024 1 pingTurns 0
    ⟨5, false, [], false, 1⟩ (by decide +kernel) (by decide +kernel) (by decide +kernel) ?_
    (by decide +kernel) (by decide +kernel)
  rw [← Option.isSome_iff_ne_none]
  decide +kernel

end MiniKv
