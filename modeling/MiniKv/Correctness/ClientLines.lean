import MiniKv.Correctness.ClientLifetime
import MiniKv.Correctness.CommandOrder
import MiniKv.Correctness.RequestFraming
import MiniKv.Server.Service

/-! The commands of a client are the first lines it has sent: the buffer cuts them out, and the
event loop has some in its hands until it has enqueued them.
-/

namespace MiniKv

open MiniKv.Foundations

variable {reactor : Reactor}

-- Lines out of the buffer

namespace ClientBuffer

variable {buffer filled : ClientBuffer}

theorem fill_full (full : buffer.readLen = serverReadBufSize) (chunks : List (List UInt8))
    : buffer.fill chunks = none := by
  cases chunks <;> rw [fill, if_pos full]

/-- A `recv` loop that does not fail has read everything. -/
theorem fill_content {chunks : List (List UInt8)} (isFilled : buffer.fill chunks = some filled)
    : filled.content = buffer.content ++ chunks.flatten := by
  induction chunks generalizing buffer with
  | nil =>
      rw [fill] at isFilled
      split_ifs at isFilled
      obtain rfl := Option.some.inj isFilled
      exact (List.append_nil _).symm
  | cons chunk rest ih =>
      rw [fill] at isFilled
      split_ifs at isFilled
      have bounded := buffer.bounded
      by_cases fits : buffer.readLen + chunk.length ≤ serverReadBufSize
      · rw [ih isFilled, recv_content fits, List.flatten_cons, List.append_assoc]
      · have full : (buffer.recv chunk).readLen = serverReadBufSize := by
          simp only [recv, List.length_take]
          omega
        rw [fill_full full] at isFilled
        contradiction

/-- Whatever fails, the commands are the first lines, and all of them if nothing does. -/
theorem parse_lines (buffer : ClientBuffer) (allocated : Nat → Bool) (fuel nth : Nat)
    : let cut := Lines.cut lf buffer.content
      let parsed := buffer.parse allocated fuel nth
      parsed.1 <+: cut.1.map ClientCmd.ofLine
        ∧ ∀ after, parsed.2 = some after →
          parsed.1 = cut.1.map ClientCmd.ofLine ∧ after.content = cut.2 := by
  induction fuel generalizing buffer nth with
  | zero => exact ⟨List.nil_prefix, fun _ failed => by cases failed⟩
  | succ fuel ih =>
      intro cut parsed
      have parsed_eq : parsed = buffer.parse allocated (fuel + 1) nth := rfl
      by_cases complete : lf ∈ buffer.content
      · obtain ⟨line, rest, held, noLf⟩ := List.eq_append_cons_of_mem complete
        have later := ih (buffer.consume (line.length + 1)) (nth + 1)
        simp only [consume_content held] at later
        have cut_eq : cut = (line :: (Lines.cut lf rest).1, (Lines.cut lf rest).2) := by
          simp only [cut, held, Lines.cut_line noLf]
        simp only [parse, held, memchr_line noLf, List.take_left] at parsed_eq
        rw [cut_eq]
        split_ifs at parsed_eq <;> rw [parsed_eq]
        · exact ⟨List.nil_prefix, fun _ failed => by cases failed⟩
        · exact ⟨List.nil_prefix, fun _ failed => by cases failed⟩
        · refine ⟨List.cons_prefix_cons.mpr ⟨rfl, later.1⟩, fun after read => ?_⟩
          obtain ⟨commands, content⟩ := later.2 after read
          exact ⟨congrArg _ commands, content⟩
      · have cut_eq : cut = ([], buffer.content) := Lines.cut_torn complete
        simp only [parse, memchr_none complete] at parsed_eq
        rw [cut_eq, parsed_eq]
        refine ⟨List.nil_prefix, fun after read => ⟨rfl, ?_⟩⟩
        simp only at read
        split_ifs at read
        obtain rfl := Option.some.inj read
        rfl

end ClientBuffer

/-- The lines of a stream as commands get them. -/
def streamLines (stream : List UInt8) : List (List UInt8) :=
  (Lines.cut lf stream).1.map stripCr

theorem streamLines_append (front rest : List UInt8)
    : streamLines (front ++ rest)
      = streamLines front ++ streamLines ((Lines.cut lf front).2 ++ rest) := by
  simp only [streamLines, Lines.cut_append lf front rest, List.map_append]

/-- The lines are the first ones of the stream, and all of them while there is a buffer, which then
holds the rest.
-/
def HasRead (buffer : Option ClientBuffer) (stream : List UInt8) (lines : List (List UInt8))
    : Prop :=
  lines <+: streamLines stream ∧ ∀ held, buffer = some held →
    lines = streamLines stream ∧ held.content = (Lines.cut lf stream).2

theorem HasRead.readClient {buffer : Option ClientBuffer} {stream : List UInt8}
    {lines : List (List UInt8)} (hasRead : HasRead buffer stream lines)
    (chunks : List (List UInt8)) (allocated : Nat → Bool)
    : let read := readClient buffer chunks allocated
      HasRead read.2 (stream ++ chunks.flatten) (lines ++ read.1) := by
  have strips : ClientCmd.line ∘ ClientCmd.ofLine = stripCr := rfl
  rw [HasRead, streamLines_append, Lines.cut_append lf stream]
  cases buffer with
  | none =>
      refine ⟨?_, fun _ failed => by cases failed⟩
      rw [MiniKv.readClient, List.append_nil]
      exact hasRead.1.trans (List.prefix_append _ _)
  | some buffer =>
      obtain ⟨rfl, content⟩ := hasRead.2 buffer rfl
      simp only [MiniKv.readClient, ClientBuffer.handleRead]
      cases isFilled : buffer.fill chunks with
      | none => exact ⟨by simp, fun _ failed => by cases failed⟩
      | some filled =>
          have parsed := filled.parse_lines allocated (filled.readLen + 1) 0
          simp only [ClientBuffer.fill_content isFilled, content] at parsed
          have mapped := parsed.1.map ClientCmd.line
          rw [List.map_map, strips] at mapped
          refine ⟨(List.prefix_append_right_inj _).mpr mapped, fun after read => ?_⟩
          obtain ⟨commands, left⟩ := parsed.2 after read
          simp only [commands, List.map_map, strips]
          exact ⟨rfl, left⟩

-- Lines in the hands of the event loop

/-- The lines of a client that the event loop has read and not yet enqueued. -/
def Reactor.unread (reactor : Reactor) (id : Nat) : List (List UInt8) :=
  match reactor.eventLoop with
  | .reading other lines _ => if other = id ∧ id < reactor.clients.length then lines else []
  | _ => []

/-- The lines of a client that the event loop begins to read. -/
def Reactor.reads (reactor : Reactor) (id : Nat) : ReactorTurn → List (List UInt8)
  | .loop (.data fd lines _) =>
      if reactor.eventLoop = .waiting ∧ reactor.serverFindClient fd = some id then lines else []
  | _ => []

theorem Reactor.unread_react (listed : reactor.Listed) (waiting : reactor.eventLoop = .waiting)
    (readiness : Readiness) (id : Nat)
    : (reactor.react readiness).unread id = reactor.reads id (.loop readiness) := by
  cases readiness with
  | timer =>
      simp only [Reactor.react, Reactor.threadPoolSubmit, Reactor.reads]
      split <;> simp only [Reactor.unread, waiting]
  | connection fd allocated registered =>
      simp only [Reactor.react, Reactor.accept, Reactor.reads]
      split
      · simp only [Reactor.unread, waiting]
      · cases registered <;> simp [Reactor.unread, waiting]
  | hangup fd =>
      simp only [Reactor.react, Reactor.reads]
      split <;> simp only [Reactor.unread, Reactor.setLoop, waiting]
  | data fd lines fails =>
      simp only [Reactor.react, Reactor.reads, waiting, true_and]
      cases found : reactor.serverFindClient fd with
      | none => simp [Reactor.unread, waiting]
      | some other =>
          have known := listed.known other (Reactor.serverFindClient_linked found)
          by_cases same : other = id
          · simp [Reactor.unread, Reactor.setLoop, same, same ▸ known]
          · simp [Reactor.unread, Reactor.setLoop, same]

theorem Reactor.length_enqueue (reactor : Reactor) (id : Nat) (line : List UInt8)
    : (reactor.enqueue id line).2.clients.length = reactor.clients.length := by
  rw [Reactor.enqueue]
  split
  · rfl
  · simp only [Reactor.threadPoolSubmit]
    split
    · exact List.length_set
    · split <;> exact List.length_set

/-- What is read is enqueued line by line. -/
theorem Reactor.unread_step (listed : reactor.Listed) (turn : ReactorTurn) (id : Nat)
    : reactor.unread id ++ reactor.reads id turn
      = ((reactor.step turn).1.bind (ClientEvent.enqueuedLine id)).toList
        ++ (reactor.step turn).2.unread id := by
  cases turn with
  | worker index env =>
      obtain ⟨loop, length⟩ := reactor.workerStep_parts index env
      have silent : (reactor.workerStep index env).1.bind (ClientEvent.enqueuedLine id) = none := by
        rw [← funext (ClientEvent.sight_enqueuedLine id reactor.poolFull), ← Option.bind_assoc,
          Option.bind_eq_none_iff]
        intro sight seen
        cases Reactor.workerStep_shows seen <;> rfl
      rw [Reactor.step, silent, Reactor.unread, Reactor.unread, loop, length]
      exact List.append_nil _
  | loop readiness =>
      rw [Reactor.step, Reactor.loopStep]
      cases loop : reactor.eventLoop with
      | waiting =>
          rw [← reactor.unread_react listed loop]
          simp [Reactor.unread, loop]
      | reading other lines fails =>
          have idle : reactor.reads id (.loop readiness) = [] := by
            cases readiness <;> simp [Reactor.reads, loop]
          rw [idle, List.append_nil]
          cases lines with
          | nil => cases fails <;> simp [Reactor.unread, Reactor.setLoop, loop]
          | cons line rest =>
              simp only [Reactor.unread, Reactor.enqueue_eventLoop, Reactor.length_enqueue, loop,
                Reactor.setLoop]
              by_cases known : other < reactor.clients.length
              · simp only [Reactor.enqueue, List.getElem?_eq_getElem known, Option.bind_some,
                  ClientEvent.enqueuedLine]
                by_cases same : other = id
                · simp [same, same ▸ known]
                · simp [same]
              · have unborn : reactor.clients[other]? = none :=
                  List.getElem?_eq_none (Nat.le_of_not_lt known)
                have unread : ¬ (other = id ∧ id < reactor.clients.length) :=
                  fun both => known (both.1 ▸ both.2)
                simp [Reactor.enqueue, unborn, unread]
      | closing other =>
          have idle : reactor.reads id (.loop readiness) = [] := by
            cases readiness <;> simp [Reactor.reads, loop]
          have waits : ((reactor.setLoop .waiting).serverCloseClient other).eventLoop = .waiting :=
            ((reactor.setLoop .waiting).serverCloseClient_parts other).1
          simp [idle, Reactor.unread, loop, waits]

end MiniKv
