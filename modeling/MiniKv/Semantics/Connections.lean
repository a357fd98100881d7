import MiniKv.Server.Protocol

/-! One client of the server by itself: its lines, its references, and the tasks that the pool and
the workers have for it. The steps of the whole server are seen here as steps of each client.
-/

namespace MiniKv

/-- How far a worker has come with a task for the client. -/
inductive Stage where
  | serving
  | executing (line : List UInt8)
  | responding (response : Response)
  | closing
  | releasing
deriving DecidableEq

/-- The worker may still execute commands or close the client. -/
def Stage.active : Stage → Bool
  | .releasing => false
  | _ => true

/-- The command in the hand of the worker. -/
def Stage.hand : Stage → Option (List UInt8)
  | .executing line => some line
  | _ => none

/-- A client: whether it has been accepted, its record, whether it is linked, how many tasks for it
are queued, and the workers that have one.
-/
structure Connection where
  born : Bool
  fd : Int
  closed : Bool
  pending : List (List UInt8)
  inFlight : Bool
  refs : Int
  linked : Bool
  queued : Nat
  stages : List Stage

/-- What is seen of a step: a line comes in, while the pool is full or not; a line has been
executed; a response has been dealt with; a worker has given up its reference.
-/
inductive Sight where
  | received (line : List UInt8) (full : Bool)
  | executed (line : List UInt8)
  | answered (response : Response)
  | released
deriving DecidableEq

/-- A client without a descriptor is not closed again. -/
def Connection.close (connection : Connection) : Connection :=
  if connection.fd < 0 then connection
  else
    { connection with
      closed := true
      fd := -1
      refs := connection.refs - 1
      linked := false }

/-- What can happen to a client. -/
inductive Connection.Step (connection : Connection) : Option Sight → Connection → Prop where
  | still : Step connection none connection
  | accepted (unborn : connection.born = false) (fd : Nat)
      : Step connection none
          { connection with
            born := true
            fd
            closed := false
            pending := []
            inFlight := false
            refs := 1
            linked := true }
  | received (line : List UInt8) (full : Bool) (born : connection.born = true)
      (busy : connection.inFlight = true ∨ connection.closed = true)
      : Step connection (some (.received line full))
          { connection with pending := connection.pending ++ [line] }
  | refused (line : List UInt8) (born : connection.born = true)
      (free : connection.inFlight = false) (isOpen : connection.closed = false)
      : Step connection (some (.received line true))
          { connection with pending := connection.pending ++ [line] }
  | submitted (line : List UInt8) (born : connection.born = true)
      (free : connection.inFlight = false) (isOpen : connection.closed = false)
      : Step connection (some (.received line false))
          { connection with
            pending := connection.pending ++ [line]
            inFlight := true
            refs := connection.refs + 1
            queued := connection.queued + 1 }
  | taken {count : Nat} {before after : List Stage} (waiting : connection.queued = count + 1)
      (split : connection.stages = before ++ after)
      : Step connection none
          { connection with queued := count, stages := before ++ .serving :: after }
  | popped {before after : List Stage} {line : List UInt8} {rest : List (List UInt8)}
      (split : connection.stages = before ++ .serving :: after)
      (isOpen : connection.closed = false) (next : connection.pending = line :: rest)
      : Step connection none
          { connection with pending := rest, stages := before ++ .executing line :: after }
  | ended {before after : List Stage} (split : connection.stages = before ++ .serving :: after)
      (finished : connection.closed = true ∨ connection.pending = [])
      : Step connection none
          { connection with inFlight := false, stages := before ++ .releasing :: after }
  | executed {before after : List Stage} {line : List UInt8}
      (split : connection.stages = before ++ .executing line :: after) (response : Response)
      : Step connection (some (.executed line))
          { connection with stages := before ++ .responding response :: after }
  | answered {before after : List Stage} {response : Response}
      (split : connection.stages = before ++ .responding response :: after) (next : Stage)
      (goesOn : next = .closing ∨ next = .serving ∧ response.detach = false)
      : Step connection (some (.answered response))
          { connection with
            fd := if response.detach then -1 else connection.fd
            stages := before ++ next :: after }
  | closedByWorker {before after : List Stage}
      (split : connection.stages = before ++ .closing :: after)
      : Step connection none { connection.close with stages := before ++ .releasing :: after }
  | closedByLoop : Step connection none connection.close
  | released {before after : List Stage}
      (split : connection.stages = before ++ .releasing :: after)
      : Step connection (some .released)
          { connection with refs := connection.refs - 1, stages := before ++ after }

variable {connection next : Connection} {event : Option Sight}

-- The invariant

/-- The tasks that may still execute commands: queued ones, and those of active workers. -/
def Connection.tasks (connection : Connection) : Nat :=
  connection.queued + connection.stages.countP Stage.active

/-- There is at most one such task, none unless it is in flight, and one if it is while the client
is open; the references are those of the list, of the queued tasks and of the workers; a descriptor
is open while the client is linked.
-/
structure Connection.Sound (connection : Connection) : Prop where
  unborn : connection.born = false →
    connection.pending = [] ∧ connection.linked = false ∧ connection.queued = 0
      ∧ connection.stages = []
  single : connection.tasks ≤ connection.inFlight.toNat
  served : connection.inFlight = true → connection.closed = false → 0 ≤ connection.fd →
    0 < connection.tasks
  refs : connection.born = true →
    connection.refs = connection.linked.toNat + connection.queued + connection.stages.length
  opened : connection.born = true → 0 ≤ connection.fd →
    connection.linked = true ∧ connection.closed = false

theorem Connection.close_stages (connection : Connection)
    : connection.close.stages = connection.stages := by
  rw [Connection.close]
  split <;> rfl

theorem Connection.close_fd (connection : Connection)
    : connection.close.fd < 0 := by
  rw [Connection.close]
  split
  · next detached => exact detached
  · exact show (-1 : Int) < 0 by decide

theorem Connection.Sound.close (sound : connection.Sound) : connection.close.Sound := by
  have negative := connection.close_fd
  rw [Connection.close] at negative ⊢
  split
  · exact sound
  · next isOpen =>
      refine ⟨fun unborn => ?_, sound.single, fun _ isOpen => absurd isOpen Bool.true_eq_false.mp,
        fun born => ?_, fun _ positive => absurd positive (show ¬ (0 : Int) ≤ -1 by decide)⟩
      · obtain ⟨pending, _, queued, stages⟩ := sound.unborn unborn
        exact ⟨pending, rfl, queued, stages⟩
      · have refs := sound.refs born
        rw [(sound.opened born (not_lt.mp isOpen)).1] at refs
        simp only [Bool.toNat_true, Bool.toNat_false] at refs ⊢
        omega

/-- A client that a worker has a task for has been accepted. -/
theorem Connection.Sound.born (sound : connection.Sound) {before after : List Stage} {stage : Stage}
    (split : connection.stages = before ++ stage :: after)
    : connection.born = true := by
  by_contra unborn
  have none := (sound.unborn (Bool.eq_false_iff.mpr unborn)).2.2.2
  rw [split] at none
  simp at none

/-- A worker gets on and stays active, or inactive. -/
theorem Connection.Sound.restage (sound : connection.Sound) {before after : List Stage}
    {old new : Stage} (split : connection.stages = before ++ old :: after)
    (same : new.active = old.active) {fd : Int} (descriptor : 0 ≤ fd → 0 ≤ connection.fd)
    (pending : List (List UInt8))
    : Connection.Sound { connection with fd, pending, stages := before ++ new :: after } := by
  have born := sound.born split
  have tasks : connection.queued + (before ++ new :: after).countP Stage.active
      = connection.tasks := by
    simp only [Connection.tasks, split, List.countP_append, List.countP_cons, same]
  refine ⟨fun unborn => absurd (born.symm.trans unborn) Bool.true_eq_false.mp,
    tasks.trans_le sound.single, fun flag isOpen positive => ?_, fun _ => ?_,
    fun _ positive => sound.opened born (descriptor positive)⟩
  · exact (sound.served flag isOpen (descriptor positive)).trans_eq tasks.symm
  · have refs := sound.refs born
    simp only [split, List.length_append, List.length_cons] at refs ⊢
    exact refs

/-- The worker on the client leaves its loop. -/
theorem Connection.Sound.retire (sound : connection.Sound) {before after : List Stage} {old : Stage}
    (split : connection.stages = before ++ old :: after) (active : old.active = true)
    (inFlight : Bool) (left : inFlight = true → connection.fd < 0)
    : Connection.Sound
        { connection with inFlight, stages := before ++ .releasing :: after } := by
  have born := sound.born split
  refine ⟨fun unborn => absurd (born.symm.trans unborn) Bool.true_eq_false.mp, ?_,
    fun flag _ positive => absurd positive (not_le.mpr (left flag)), fun _ => ?_, sound.opened⟩
  · have single := sound.single
    have atMost := connection.inFlight.toNat_le
    have inactive : Stage.releasing.active = false := rfl
    simp only [Connection.tasks, split, List.countP_append, List.countP_cons, active, inactive,
      if_true, Bool.false_eq_true, if_false] at single ⊢
    omega
  · have refs := sound.refs born
    simp only [split, List.length_append, List.length_cons] at refs ⊢
    exact refs

/-- By the kind of step. -/
theorem Connection.Sound.step (sound : connection.Sound) (step : connection.Step event next)
    : next.Sound := by
  cases step with
  | still => exact sound
  | accepted unborn fd =>
      obtain ⟨_, _, queued, stages⟩ := sound.unborn unborn
      refine ⟨fun born => absurd born Bool.true_eq_false.mp, ?_,
        fun flag => absurd flag Bool.false_eq_true.mp, fun _ => ?_, fun _ _ => ⟨rfl, rfl⟩⟩
      · simp [Connection.tasks, queued, stages]
      · simp [queued, stages]
  | received line full born busy =>
      exact ⟨fun unborn => absurd (born.symm.trans unborn) Bool.true_eq_false.mp, sound.single,
        sound.served, sound.refs, sound.opened⟩
  | refused line born free isOpen =>
      exact ⟨fun unborn => absurd (born.symm.trans unborn) Bool.true_eq_false.mp, sound.single,
        sound.served, sound.refs, sound.opened⟩
  | submitted line born free isOpen =>
      have single := sound.single
      have refs := sound.refs born
      simp only [Connection.tasks, free, Bool.toNat_false] at single
      refine ⟨fun unborn => absurd (born.symm.trans unborn) Bool.true_eq_false.mp, ?_,
        fun _ _ _ => ?_, fun _ => ?_, sound.opened⟩
      · simp only [Connection.tasks, Bool.toNat_true]
        omega
      · simp only [Connection.tasks]
        omega
      · push_cast
        omega
  | @taken count before after waiting split =>
      have tasks : count + (before ++ .serving :: after).countP Stage.active
          = connection.tasks := by
        simp only [Connection.tasks, split, List.countP_append, List.countP_cons, Stage.active,
          if_true, waiting]
        omega
      refine ⟨fun unborn => ?_, tasks.trans_le sound.single, fun flag isOpen positive =>
        (sound.served flag isOpen positive).trans_eq tasks.symm, fun born => ?_, sound.opened⟩
      · have none := (sound.unborn unborn).2.2.1
        omega
      · have refs := sound.refs born
        simp only [split, waiting, List.length_append, List.length_cons] at refs ⊢
        push_cast at refs ⊢
        omega
  | popped split isOpen more => exact sound.restage split (by rfl) id _
  | ended split finished =>
      exact sound.retire split rfl false (fun flag => absurd flag Bool.false_eq_true.mp)
  | executed split response => exact sound.restage split (by rfl) id _
  | @answered before after response split stage goesOn =>
      refine sound.restage split ?_ ?_ _
      · rcases goesOn with rfl | ⟨rfl, _⟩ <;> rfl
      · split
        · intro positive
          exact absurd positive (show ¬ (0 : Int) ≤ -1 by decide)
        · exact id
  | closedByWorker split =>
      exact sound.close.retire (connection.close_stages.trans split) rfl _
        (fun _ => connection.close_fd)
  | closedByLoop => exact sound.close
  | @released before after split =>
      have born := sound.born split
      have tasks : connection.queued + (before ++ after).countP Stage.active
          = connection.tasks := by
        simp only [Connection.tasks, split, List.countP_append, List.countP_cons, Stage.active,
          Bool.false_eq_true, if_false, Nat.add_zero]
      refine ⟨fun unborn => absurd (born.symm.trans unborn) Bool.true_eq_false.mp,
        tasks.trans_le sound.single, fun flag isOpen positive =>
          (sound.served flag isOpen positive).trans_eq tasks.symm, fun _ => ?_, sound.opened⟩
      have refs := sound.refs born
      simp only [split, List.length_append, List.length_cons] at refs ⊢
      push_cast at refs ⊢
      omega

end MiniKv
