import MiniKv.Server.Sends

/-! What reaches a replica that is still attached. Nobody looks at how much of the header and of the
snapshot `send` took, and a broadcast only looks for an error, so the stream is framed exactly when
every call took all of its data.
-/

namespace MiniKv

-- Sessions

/-- A `send` call on the socket of a replica. -/
structure SendCall where
  data : List UInt8
  outcome : SendOutcome

/-- What the call puts on the way. -/
def SendCall.bytes (call : SendCall) : List UInt8 :=
  (send call.data call.outcome).2

/-- The call takes all of its data. -/
def SendCall.complete (call : SendCall) : Bool :=
  match call.outcome with
  | .accepted count => call.data.length ≤ count
  | .wouldBlock => false

/-- The calls for some data, one after another. -/
def sendCalls (outcomes : Nat → SendOutcome) : Nat → List (List UInt8) → List SendCall
  | _, [] => []
  | nth, data :: rest => ⟨data, outcomes nth⟩ :: sendCalls outcomes (nth + 1) rest

/-- A socket since its SYNC: the snapshot, the records that were broadcast, and the calls. -/
structure Session where
  file : List UInt8
  records : List (List UInt8)
  calls : List SendCall

/-- What the replica should receive. -/
def Session.framed (session : Session) : List UInt8 :=
  snapshotHeader session.file.length ++ session.file ++ session.records.flatten

/-- The session of a socket behind an event. -/
def OutboundEvent.advance (socketFd : Int) (session : Option Session)
    : OutboundEvent → Option Session
  | .sync other file outcomes _ =>
      if other = socketFd then
        some { file, records := [], calls := sendCalls outcomes 0 (syncData file) }
      else session
  | .broadcast data outcomes =>
      session.map (fun session =>
        { session with
          records := session.records ++ [data]
          calls := session.calls ++ [⟨data, outcomes socketFd⟩] })

/-- The last session of a socket. -/
def sessionOf (socketFd : Int) (events : List OutboundEvent) : Option Session :=
  events.foldl (OutboundEvent.advance socketFd) none

/-- A SYNC comes from a socket that is not a replica's already. -/
def Outbound.AdmitsAlong : Outbound → List OutboundEvent → Prop
  | _, [] => True
  | outbound, event :: rest =>
      (∀ socketFd file outcomes allocated, event = .sync socketFd file outcomes allocated →
        socketFd ∉ outbound.replication.replicas)
      ∧ Outbound.AdmitsAlong (outbound.step event).2 rest

-- Calls

theorem SendCall.bytes_length (call : SendCall) : call.bytes.length ≤ call.data.length := by
  rcases call with ⟨data, _ | _⟩
  · exact List.length_take_le' _ _
  · exact Nat.zero_le _

/-- A call with data delivers all of it exactly when it is complete. -/
theorem SendCall.bytes_eq_iff {call : SendCall} (nonempty : call.data ≠ [])
    : call.bytes = call.data ↔ call.complete = true := by
  rcases call with ⟨data, count | _⟩
  · simp [SendCall.bytes, send, SendCall.complete]
  · simpa [SendCall.bytes, send, SendCall.complete] using nonempty.symm

/-- Pieces that are no longer than what they stand for join to the whole only piece by piece. -/
theorem flatMap_bytes_eq_iff (calls : List SendCall)
    : calls.flatMap SendCall.bytes = calls.flatMap SendCall.data
      ↔ ∀ call ∈ calls, call.bytes = call.data := by
  have shorter : ∀ calls : List SendCall,
      (calls.flatMap SendCall.bytes).length ≤ (calls.flatMap SendCall.data).length := by
    intro calls
    induction calls with
    | nil => exact Nat.le_refl _
    | cons call rest ih =>
        simp only [List.flatMap_cons, List.length_append]
        exact Nat.add_le_add call.bytes_length ih
  refine ⟨fun same => ?_, fun each => List.flatMap_congr each⟩
  induction calls with
  | nil => simp
  | cons call rest ih =>
      simp only [List.flatMap_cons] at same
      have lengths := congrArg List.length same
      simp only [List.length_append] at lengths
      have head := call.bytes_length
      have tail := shorter rest
      obtain ⟨first, later⟩ := List.append_inj same (by omega)
      simp only [List.mem_cons, forall_eq_or_imp]
      exact ⟨first, ih later⟩

theorem sendAll_eq (outcomes : Nat → SendOutcome) (nth : Nat) (parts : List (List UInt8))
    : sendAll outcomes nth parts = (sendCalls outcomes nth parts).flatMap SendCall.bytes := by
  induction parts generalizing nth with
  | nil => rfl
  | cons data rest ih =>
      rw [sendAll, sendCalls, List.flatMap_cons, ih]
      rfl

theorem sendCalls_data (outcomes : Nat → SendOutcome) (nth : Nat) (parts : List (List UInt8))
    : (sendCalls outcomes nth parts).map SendCall.data = parts := by
  induction parts generalizing nth with
  | nil => rfl
  | cons data rest ih => rw [sendCalls, List.map_cons, ih]

theorem flatten_snapshotBlocks {fuel : Nat} {file : List UInt8} (enough : file.length ≤ fuel)
    : (snapshotBlocks fuel file).flatten = file := by
  induction fuel generalizing file with
  | zero => exact (List.eq_nil_of_length_eq_zero (Nat.le_zero.mp enough)).symm
  | succ fuel ih =>
      rw [snapshotBlocks]
      split
      · next empty => exact empty.symm
      · next nonempty =>
          have positive := List.length_pos_iff.mpr nonempty
          rw [List.flatten_cons, ih, List.take_append_drop]
          rw [List.length_drop, sendBufSize]
          omega

theorem snapshotBlocks_nonempty {fuel : Nat} {file block : List UInt8}
    (member : block ∈ snapshotBlocks fuel file)
    : block ≠ [] := by
  induction fuel generalizing file with
  | zero => simp [snapshotBlocks] at member
  | succ fuel ih =>
      rw [snapshotBlocks] at member
      split at member
      · simp at member
      · next nonempty =>
          rcases List.mem_cons.mp member with rfl | later
          · simpa [sendBufSize] using nonempty
          · exact ih later

theorem syncData_flatten (file : List UInt8)
    : (syncData file).flatten = snapshotHeader file.length ++ file := by
  rw [syncData, List.flatten_cons, flatten_snapshotBlocks (Nat.le_refl _)]

theorem syncData_nonempty {file data : List UInt8} (member : data ∈ syncData file)
    : data ≠ [] := by
  rcases List.mem_cons.mp member with rfl | block
  · simp [snapshotHeader]
  · exact snapshotBlocks_nonempty block

-- The broadcast

theorem send_negative_iff {data : List UInt8} {outcome : SendOutcome}
    : (send data outcome).1 < 0 ↔ outcome = .wouldBlock := by
  cases outcome with
  | accepted count => simp [send]
  | wouldBlock => simp [send]

/-- The walk unlinks the replicas that would block, and each replica in the list gets what its call
delivers.
-/
theorem broadcastLoop_spec (data : List UInt8) (outcomes : Int → SendOutcome) {replicas : List Int}
    (nodup : replicas.Nodup) (delivered : Int → List UInt8)
    : (broadcastLoop data outcomes replicas delivered).1
        = replicas.filter (fun socketFd => outcomes socketFd ≠ .wouldBlock)
      ∧ ∀ socketFd, (broadcastLoop data outcomes replicas delivered).2 socketFd
        = if socketFd ∈ replicas then delivered socketFd ++ (send data (outcomes socketFd)).2
          else delivered socketFd := by
  induction replicas generalizing delivered with
  | nil => simp [broadcastLoop]
  | cons first rest ih =>
      obtain ⟨notAgain, nodup⟩ := List.nodup_cons.mp nodup
      obtain ⟨kept, sent⟩ := ih nodup
        (Function.update delivered first (delivered first ++ (send data (outcomes first)).2))
      refine ⟨?_, fun socketFd => ?_⟩
      · rw [broadcastLoop, List.filter_cons]
        by_cases blocks : outcomes first = .wouldBlock
        · rw [if_pos (send_negative_iff.mpr blocks), kept]
          simp [blocks]
        · rw [if_neg (fun negative => blocks (send_negative_iff.mp negative)), kept]
          simp [blocks]
      · have walked : (broadcastLoop data outcomes (first :: rest) delivered).2
            = (broadcastLoop data outcomes rest (Function.update delivered first
                (delivered first ++ (send data (outcomes first)).2))).2 := by
          rw [broadcastLoop]
          split <;> rfl
        rw [walked, sent]
        by_cases same : socketFd = first
        · subst same
          simp [notAgain]
        · simp [same]

-- Runs

/-- A session tells what has been delivered. A call that delivers nothing has data or did not
block.
-/
structure Session.Describes (session : Session) (delivered : List UInt8) : Prop where
  delivers : delivered = session.calls.flatMap SendCall.bytes
  frames : session.calls.flatMap SendCall.data = session.framed
  sends : ∀ call ∈ session.calls, call.data ≠ [] ∨ call.outcome ≠ .wouldBlock

/-- While a socket is attached, its session describes it. -/
structure Outbound.Follows (outbound : Outbound) (socketFd : Int) (session : Option Session)
    : Prop where
  master : outbound.replication.mode = .master
  nodup : outbound.replication.replicas.Nodup
  described : socketFd ∈ outbound.replication.replicas →
    ∃ current, session = some current ∧ current.Describes (outbound.delivered socketFd)

theorem Session.describes_sync (file : List UInt8) (outcomes : Nat → SendOutcome)
    : Session.Describes { file, records := [], calls := sendCalls outcomes 0 (syncData file) }
        (sendAll outcomes 0 (syncData file)) := by
  have data := sendCalls_data outcomes 0 (syncData file)
  refine ⟨sendAll_eq outcomes 0 (syncData file), ?_, fun call member => .inl ?_⟩
  · rw [Session.framed, List.flatMap_def, data, syncData_flatten, List.flatten_nil,
      List.append_nil]
  · exact syncData_nonempty (data ▸ List.mem_map_of_mem member)

theorem Session.Describes.broadcast {session : Session} {delivered : List UInt8}
    (describes : session.Describes delivered) (data : List UInt8) {outcome : SendOutcome}
    (stays : outcome ≠ .wouldBlock)
    : Session.Describes
        { session with
          records := session.records ++ [data]
          calls := session.calls ++ [⟨data, outcome⟩] }
        (delivered ++ (send data outcome).2) := by
  refine ⟨?_, ?_, fun call member => ?_⟩
  · rw [describes.delivers, List.flatMap_append, List.flatMap_singleton, SendCall.bytes]
  · rw [List.flatMap_append, List.flatMap_singleton, describes.frames, Session.framed,
      Session.framed, List.flatten_append, List.flatten_singleton, ← List.append_assoc]
  · rcases List.mem_append.mp member with earlier | last
    · exact describes.sends call earlier
    · rw [List.mem_singleton.mp last]
      exact .inr stays

theorem Outbound.Follows.step {outbound : Outbound} {socketFd : Int} {session : Option Session}
    (follows : outbound.Follows socketFd session) {event : OutboundEvent}
    (admits : ∀ socketFd file outcomes allocated,
      event = .sync socketFd file outcomes allocated →
        socketFd ∉ outbound.replication.replicas)
    : (outbound.step event).2.Follows socketFd (event.advance socketFd session) := by
  have master := follows.master
  cases event with
  | sync other file outcomes allocated =>
      have fresh := admits other file outcomes allocated rfl
      have replicas : ∀ fd, fd ∈ (outbound.replication.addReplica other allocated).replicas →
          fd = other ∨ fd ∈ outbound.replication.replicas := by
        intro fd member
        rw [Replication.addReplica] at member
        split at member
        · exact List.mem_cons.mp member
        · exact .inr member
      simp only [Outbound.step, master, ne_eq, not_true_eq_false, if_false]
      refine ⟨?_, ?_, fun attached => ?_⟩
      · rw [Replication.addReplica]
        split <;> exact master
      · rw [Replication.addReplica]
        split
        · exact List.nodup_cons.mpr ⟨fresh, follows.nodup⟩
        · exact follows.nodup
      · rw [OutboundEvent.advance]
        by_cases same : other = socketFd
        · subst same
          simp only [if_true, Function.update_self]
          exact ⟨_, rfl, Session.describes_sync file outcomes⟩
        · simp only [if_neg same, Function.update_of_ne (Ne.symm same)]
          rcases replicas socketFd attached with isOther | already
          · exact absurd isOther.symm same
          · exact follows.described already
  | broadcast data outcomes =>
      obtain ⟨kept, sent⟩ := broadcastLoop_spec data outcomes follows.nodup outbound.delivered
      simp only [Outbound.step, master, ne_eq, not_true_eq_false, if_false]
      refine ⟨rfl, ?_, fun attached => ?_⟩
      · rw [kept]
        exact follows.nodup.filter _
      · rw [kept, List.mem_filter] at attached
        obtain ⟨current, isCurrent, describes⟩ := follows.described attached.1
        have stays : outcomes socketFd ≠ .wouldBlock := of_decide_eq_true attached.2
        refine ⟨_, by rw [OutboundEvent.advance, isCurrent, Option.map_some], ?_⟩
        simp only [sent, if_pos attached.1]
        exact describes.broadcast data stays

theorem Outbound.Follows.run {outbound : Outbound} {socketFd : Int} {session : Option Session}
    (follows : outbound.Follows socketFd session) {events : List OutboundEvent}
    (admits : outbound.AdmitsAlong events)
    : (outbound.run events).Follows socketFd
        (events.foldl (OutboundEvent.advance socketFd) session) := by
  induction events generalizing outbound session with
  | nil => exact follows
  | cons event rest ih => exact ih (follows.step admits.1) admits.2

/-- Whatever the calls for a replica take, what reaches a replica that is still in the list is the
header, the snapshot and the records that were broadcast exactly when every call since its SYNC
took all of its data.
-/
theorem framed_iff_complete {events : List OutboundEvent}
    (admits : Outbound.start.AdmitsAlong events) {socketFd : Int}
    (attached : socketFd ∈ (Outbound.start.run events).replication.replicas)
    : ∃ session, sessionOf socketFd events = some session
        ∧ ((Outbound.start.run events).delivered socketFd = session.framed
          ↔ ∀ call ∈ session.calls, call.complete = true) := by
  have start : Outbound.start.Follows socketFd none :=
    ⟨rfl, List.nodup_nil, fun attached => absurd attached List.not_mem_nil⟩
  obtain ⟨session, current, describes⟩ := (start.run admits).described attached
  refine ⟨session, current, ?_⟩
  rw [describes.delivers, ← describes.frames, flatMap_bytes_eq_iff]
  refine forall₂_congr fun call member => ?_
  rcases describes.sends call member with nonempty | stays
  · exact SendCall.bytes_eq_iff nonempty
  · rcases call with ⟨data, count | _⟩
    · simp [SendCall.bytes, send, SendCall.complete]
    · exact absurd rfl stays

/-- A SYNC of a snapshot of two bytes and one record, all sent completely. -/
theorem framed_iff_complete_whole
    : (Outbound.start.run
        [.sync 5 [1, 2] (fun _ => .accepted 4096) true,
          .broadcast [97, lf] (fun _ => .accepted 4096)]
        ).delivered 5
      = snapshotHeader 2 ++ [1, 2] ++ [97, lf] := by
  have admits : Outbound.start.AdmitsAlong
      [.sync 5 [1, 2] (fun _ => .accepted 4096) true,
        .broadcast [97, lf] (fun _ => .accepted 4096)] := by
    refine ⟨fun _ _ _ _ _ => List.not_mem_nil, fun socketFd file outcomes allocated isSync => ?_,
      trivial⟩
    cases isSync
  obtain ⟨session, isSession, framed⟩ := @framed_iff_complete _ admits 5 (by decide)
  obtain rfl := Option.some.inj isSession
  exact framed.mpr (by decide)

/-- The header is sent whole, of the snapshot of two bytes `send` takes one, and the replica stays
in the list: the byte behind it in the stream is the first of the record, where the second byte of
the snapshot belongs.
-/
theorem short_send_shifts_stream
    : let ended := Outbound.start.run
        [.sync 5 [1, 2] (fun nth => .accepted (if nth = 0 then 4096 else 1)) true,
          .broadcast [97, lf] (fun _ => .accepted 4096)]
      5 ∈ ended.replication.replicas ∧ ended.delivered 5 = snapshotHeader 2 ++ [1] ++ [97, lf] := by
  refine ⟨?_, ?_⟩ <;> decide

end MiniKv
