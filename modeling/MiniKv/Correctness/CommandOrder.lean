import MiniKv.Refinement.Connections

/-! The commands of a client are executed one at a time and in the order of their lines. The command
in the hand of a worker and those in the queue are what has been enqueued and not yet executed.
-/

namespace MiniKv

open MiniKv.Foundations.Places

variable {connection next : Connection} {sight : Option Sight} {before after : List Stage}
  {stage : Stage} {reactor : Reactor}

-- Lines

/-- The line of a client that an event enqueues. -/
def ClientEvent.enqueuedLine (id : Nat) : ClientEvent → Option (List UInt8)
  | .enqueued other line => if other = id then some line else none
  | _ => none

/-- The line of a client that an event has executed. -/
def ClientEvent.executedLine (id : Nat) : ClientEvent → Option (List UInt8)
  | .executed other line => if other = id then some line else none
  | _ => none

def enqueuedLines (id : Nat) (events : List (Option ClientEvent)) : List (List UInt8) :=
  events.filterMap (fun event => event.bind (ClientEvent.enqueuedLine id))

def executedLines (id : Nat) (events : List (Option ClientEvent)) : List (List UInt8) :=
  events.filterMap (fun event => event.bind (ClientEvent.executedLine id))

/-- The worker is in the loop of `server_worker_client_task` for the client. -/
def Worker.executes (id : Nat) (worker : Worker) : Bool :=
  (worker.stageOf id).any Stage.active

/-- The same lines as they are seen at the client. -/
def Sight.enqueuedLine : Sight → Option (List UInt8)
  | .received line _ => some line
  | _ => none

def Sight.executedLine : Sight → Option (List UInt8)
  | .executed line => some line
  | _ => none

theorem ClientEvent.sight_enqueuedLine (id : Nat) (full : Bool) (event : ClientEvent)
    : (event.sight id full).bind Sight.enqueuedLine = event.enqueuedLine id := by
  cases event <;> simp only [ClientEvent.sight, ClientEvent.enqueuedLine] <;> split <;> rfl

theorem ClientEvent.sight_executedLine (id : Nat) (full : Bool) (event : ClientEvent)
    : (event.sight id full).bind Sight.executedLine = event.executedLine id := by
  cases event <;> simp only [ClientEvent.sight, ClientEvent.executedLine] <;> split <;> rfl

-- One step

/-- The lines that have been enqueued and not yet executed. -/
def Connection.backlog (connection : Connection) : List (List UInt8) :=
  connection.stages.filterMap Stage.hand ++ connection.pending

theorem filterMap_hand_of_idle {stages : List Stage} (idle : stages.countP Stage.active = 0)
    : stages.filterMap Stage.hand = [] := by
  rw [List.filterMap_eq_nil_iff]
  intro stage member
  have inactive := List.countP_eq_zero.mp idle stage member
  cases stage with
  | executing line => exact absurd rfl inactive
  | _ => rfl

/-- Only the one active worker has a command in its hand. -/
theorem Connection.Sound.hands (sound : connection.Sound)
    (split : connection.stages = before ++ stage :: after) (active : stage.active = true)
    (new : Stage)
    : (before ++ new :: after).filterMap Stage.hand = new.hand.toList := by
  have single := sound.single
  have atMost := connection.inFlight.toNat_le
  simp only [Connection.tasks, split, List.countP_append, List.countP_cons, active, if_true]
    at single
  have front : before.filterMap Stage.hand = [] := filterMap_hand_of_idle (by omega)
  have back : after.filterMap Stage.hand = [] := filterMap_hand_of_idle (by omega)
  rw [filterMap_around, front, back, List.nil_append, List.append_nil]

/-- A worker without a command in its hand does not count. -/
theorem filterMap_hand_skip (before after : List Stage) {stage : Stage} (empty : stage.hand = none)
    : (before ++ stage :: after).filterMap Stage.hand = (before ++ after).filterMap Stage.hand := by
  rw [List.filterMap_append, List.filterMap_cons_none empty, ← List.filterMap_append]

theorem Connection.close_pending (connection : Connection)
    : connection.close.pending = connection.pending := by
  rw [Connection.close]
  split <;> rfl

/-- By the kind of step: a line comes in at the end of the backlog and goes out at its front. -/
theorem Connection.Sound.backlog (sound : connection.Sound) (step : connection.Step sight next)
    : connection.backlog ++ (sight.bind Sight.enqueuedLine).toList
      = (sight.bind Sight.executedLine).toList ++ next.backlog := by
  cases step with
  | still => exact List.append_nil _
  | accepted unborn fd =>
      obtain ⟨pending, _, _, stages⟩ := sound.unborn unborn
      simp [Connection.backlog, pending, stages]
  | @taken count before after waiting split =>
      have skip := filterMap_hand_skip before after (rfl : Stage.serving.hand = none)
      simp only [Connection.backlog, split, skip]
      exact List.append_nil _
  | popped split isOpen more =>
      simp only [Connection.backlog, split, sound.hands split rfl, more]
      exact List.append_nil _
  | @ended before after split finished =>
      have skip := filterMap_hand_skip before after (rfl : Stage.serving.hand = none)
      have skip' := filterMap_hand_skip before after (rfl : Stage.releasing.hand = none)
      simp only [Connection.backlog, split, skip, skip']
      exact List.append_nil _
  | executed split response =>
      simp only [Connection.backlog, split, sound.hands split rfl]
      exact List.append_nil _
  | @answered before after response split stage goesOn =>
      have empty : stage.hand = none := by
        rcases goesOn with rfl | ⟨rfl, _⟩ <;> rfl
      have skip := filterMap_hand_skip before after (rfl : (Stage.responding response).hand = none)
      simp only [Connection.backlog, split, skip, filterMap_hand_skip before after empty]
      exact List.append_nil _
  | @closedByWorker before after split =>
      have skip := filterMap_hand_skip before after (rfl : Stage.closing.hand = none)
      have skip' := filterMap_hand_skip before after (rfl : Stage.releasing.hand = none)
      simp only [Connection.backlog, split, skip, skip', Connection.close_pending]
      exact List.append_nil _
  | closedByLoop =>
      simp only [Connection.backlog, Connection.close_stages, Connection.close_pending]
      exact List.append_nil _
  | @released before after split =>
      have skip := filterMap_hand_skip before after (rfl : Stage.releasing.hand = none)
      simp only [Connection.backlog, split, skip]
      exact List.append_nil _
  | _ =>
      exact List.append_assoc _ _ _

-- Runs

/-- Along a run, what is enqueued behind the backlog is executed or stays in it, in order. -/
theorem Reactor.Sound.backlog (sound : reactor.Sound) (id : Nat) (turns : List ReactorTurn)
    : (reactor.connection id).backlog ++ enqueuedLines id (reactor.run turns).1
      = executedLines id (reactor.run turns).1
        ++ ((reactor.run turns).2.connection id).backlog := by
  refine @Foundations.Runs.run_conserves _ _ _ _ Reactor.step Reactor.Sound
    (fun reactor => (reactor.connection id).backlog) _ _ (fun _ turn inner => inner.step turn)
    (fun reactor turn inner => ?_) reactor sound turns
  have connected := inner.connections id
  have first := connected.backlog (Reactor.connection_step inner.listed connected turn)
  rw [Option.bind_assoc, Option.bind_assoc] at first
  simpa only [ClientEvent.sight_enqueuedLine, ClientEvent.sight_executedLine] using first

theorem Worker.countP_executes (id : Nat) (reactor : Reactor)
    : reactor.workers.countP (Worker.executes id)
      = (reactor.connection id).stages.countP Stage.active := by
  rw [Reactor.connection, List.countP_filterMap]
  apply List.countP_congr
  intro worker _
  cases shown : worker.stageOf id <;> simp [Worker.executes, shown]

/-- At most one worker executes commands of a client, and its executed commands are the first of its
enqueued lines.
-/
theorem commands_in_order (server : Server) (queueCapacity workerCount : Nat)
    (turns : List ReactorTurn) (id : Nat)
    : let ran := (Reactor.start server queueCapacity workerCount).run turns
      ran.2.workers.countP (Worker.executes id) ≤ 1
      ∧ executedLines id ran.1 <+: enqueuedLines id ran.1 := by
  have sound := Reactor.Sound.start server queueCapacity workerCount
  constructor
  · have single := ((sound.run turns).connections id).single
    have atMost := (((Reactor.start server queueCapacity workerCount).run turns).2.connection
      id).inFlight.toNat_le
    rw [Worker.countP_executes]
    rw [Connection.tasks] at single
    omega
  · have start : ((Reactor.start server queueCapacity workerCount).connection id).backlog = [] := by
      simp [Connection.backlog, Reactor.connection, Reactor.client, Reactor.start, Worker.stageOf]
    have run := sound.backlog id turns
    rw [start, List.nil_append] at run
    exact ⟨_, run.symm⟩

/-- The worker has executed the first of two lines. -/
example
    : let worker : ReactorTurn := .worker 0 ⟨.at 1, 7, true⟩
      let ran := (Reactor.start ⟨Store.fresh 1 0 0 7 [], ⟨.master, []⟩⟩ 1024 1).run
        [.loop (.connection 5 true true), .loop (.data 5 [Verb.ping.word, Verb.quit.word] false),
          .loop .timer, worker, .loop .timer, worker, worker]
      enqueuedLines 0 ran.1 = [Verb.ping.word, Verb.quit.word]
      ∧ executedLines 0 ran.1 = [Verb.ping.word] := by
  decide +kernel

end MiniKv
