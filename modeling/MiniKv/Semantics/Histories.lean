import MiniKv.Semantics.Outcomes

/-! Histories of the logical machine: the map together with the records its calls left behind.
As long as no deadline passes, applying the records gives the map.
-/

namespace MiniKv

open MiniKv.Foundations.FiniteMaps

-- Maps without passed deadlines

/-- No deadline has passed at this time. -/
def LogicalMap.Unexpired (map : LogicalMap) (now : Int64) : Prop :=
  Each (fun binding => binding.isExpired now = false) map

namespace LogicalMap

variable {map : LogicalMap} {now later : Int64} {key : CString}

theorem Unexpired.empty (now : Int64) : LogicalMap.Unexpired ∅ now :=
  Each.empty

theorem Unexpired.expire (unexpired : map.Unexpired later) (before : now ≤ later)
    (key : CString)
    : LogicalMap.expire map now key = map := by
  cases found : map.lookup key with
  | none => exact expire_of_lookup_none now found
  | some binding =>
      exact expire_of_live found (Binding.isExpired_of_le before (unexpired key binding found))

theorem Unexpired.insert (unexpired : map.Unexpired now) {binding : Binding}
    (ahead : binding.isExpired now = false)
    : LogicalMap.Unexpired (map.insert key binding) now :=
  Each.insert unexpired ahead

/-- A new value keeps the deadline of the old one. -/
theorem Unexpired.rewrite (unexpired : map.Unexpired now) {old : Content} {expireAt : Int64}
    (found : map.lookup key = some ⟨old, expireAt⟩) (content : Content)
    : LogicalMap.Unexpired (map.insert key ⟨content, expireAt⟩) now :=
  unexpired.insert (unexpired key ⟨old, expireAt⟩ found)

theorem Unexpired.erase (unexpired : map.Unexpired now)
    : LogicalMap.Unexpired (map.erase key) now :=
  Each.erase unexpired

theorem Unexpired.setDeadline (unexpired : map.Unexpired now) {expireAt : Int64}
    (deadline : expireAt = 0 ∨ now < expireAt)
    : LogicalMap.Unexpired (LogicalMap.setDeadline map key expireAt) now := by
  rw [LogicalMap.setDeadline]
  cases map.lookup key with
  | none => exact unexpired
  | some binding => exact unexpired.insert (Binding.isExpired_of_deadline deadline)

end LogicalMap

-- Applying the records of one call

@[simp]
theorem applyRecords_nil (capacity : Nat) (now : Int64) (map : LogicalMap)
    : applyRecords capacity now [] map = map :=
  rfl

@[simp]
theorem applyRecords_cons (capacity : Nat) (now : Int64) (record : Record)
    (records : List Record) (map : LogicalMap)
    : applyRecords capacity now (record :: records) map
      = applyRecords capacity now records (record.apply capacity now map) :=
  rfl

@[simp]
theorem applyRecords_append (capacity : Nat) (now : Int64) (first second : List Record)
    (map : LogicalMap)
    : applyRecords capacity now (first ++ second) map
      = applyRecords capacity now second (applyRecords capacity now first map) :=
  List.foldl_append

/-- Applying what a call logged, or what it put in the buffer of a rewrite, to the map it met
gives the map it left; no deadline of that map has passed.
-/
structure Outcome.Replays (outcome : Outcome) (capacity : Nat) (now : Int64) (map : LogicalMap)
    : Prop where
  logged : applyRecords capacity now outcome.logged map = outcome.map
  buffered : applyRecords capacity now outcome.buffered map = outcome.map
  unexpired : outcome.map.Unexpired now

section

variable {map : LogicalMap} {capacity replayCapacity : Nat} {now later : Int64}

theorem Outcome.Replays.silent (unexpired : map.Unexpired later)
    (reply : Reply (Multiset CString))
    : (Outcome.silent reply map).Replays replayCapacity later map :=
  ⟨rfl, rfl, unexpired⟩

/-- Before any deadline passes, applying a record later repeats what it says was done. -/
theorem Record.apply_later {record : Record} (took : record.Took capacity now map)
    (unexpired : map.Unexpired later) (before : now ≤ later)
    (room : LogicalMap.full map capacity = false → LogicalMap.full map replayCapacity = false)
    : record.apply replayCapacity later map = record.apply capacity now map := by
  have live := unexpired.expire before
  have still := unexpired.expire (Int64.le_refl later)
  cases record with
  | set key value =>
      rcases took with ⟨absent, limit⟩ | ⟨old, expireAt, found⟩
      · simp only [Record.apply, LogicalMap.set, absent, limit, room limit]
      · simp only [Record.apply, LogicalMap.set, found]
  | lpush key value =>
      simp only [Record.Took, live] at took
      simp only [Record.apply, LogicalMap.lpush, live, still]
      rcases took with ⟨absent, limit⟩ | ⟨items, expireAt, found⟩
      · simp only [absent, limit, room limit]
      · simp only [found]
  | sadd key value =>
      simp only [Record.Took, live] at took
      simp only [Record.apply, LogicalMap.sadd, live, still]
      rcases took with ⟨absent, limit⟩ | ⟨members, expireAt, found, _⟩
      · simp only [absent, limit, room limit]
      · simp only [found]
  | rpop key => simp only [Record.apply, LogicalMap.rpop, live, still]
  | srem key value => simp only [Record.apply, LogicalMap.srem, live, still]
  | delete key | pexpireat key expireAt => rfl

theorem Record.apply_unexpired {record : Record} (took : record.Took capacity now map)
    (unexpired : map.Unexpired later) (before : now ≤ later)
    (ahead : ∀ key expireAt, record = .pexpireat key expireAt → expireAt = 0 ∨ later < expireAt)
    : LogicalMap.Unexpired (record.apply capacity now map) later := by
  have live := unexpired.expire before
  have created (key : CString) (content : Content) :
      LogicalMap.Unexpired (map.insert key ⟨content, 0⟩) later :=
    unexpired.insert (Binding.isExpired_of_deadline (.inl rfl))
  cases record with
  | set key value =>
      rcases took with ⟨absent, limit⟩ | ⟨old, expireAt, found⟩
      · simp only [Record.apply, LogicalMap.set, absent, limit, Bool.false_eq_true, if_false]
        exact created _ _
      · simp only [Record.apply, LogicalMap.set, found]
        exact unexpired.rewrite found _
  | delete key =>
      obtain ⟨binding, found⟩ := took
      simp only [Record.apply, LogicalMap.delete, found]
      exact unexpired.erase
  | lpush key value =>
      simp only [Record.Took, live] at took
      rcases took with ⟨absent, limit⟩ | ⟨items, expireAt, found⟩
      · simp only [Record.apply, LogicalMap.lpush, live, absent, limit, Bool.false_eq_true,
          if_false]
        exact created _ _
      · simp only [Record.apply, LogicalMap.lpush, live, found]
        exact unexpired.rewrite found _
  | sadd key value =>
      simp only [Record.Took, live] at took
      rcases took with ⟨absent, limit⟩ | ⟨members, expireAt, found, missing⟩
      · simp only [Record.apply, LogicalMap.sadd, live, absent, limit, Bool.false_eq_true, if_false]
        exact created _ _
      · simp only [Record.apply, LogicalMap.sadd, live, found, missing, if_false]
        exact unexpired.rewrite found _
  | rpop key =>
      obtain ⟨items, expireAt, value, found, last⟩ := took
      rw [live] at found
      simp only [Record.apply, LogicalMap.rpop, live, found, last]
      split
      · exact unexpired.erase
      · exact unexpired.rewrite found _
  | srem key value =>
      obtain ⟨members, expireAt, found, present⟩ := took
      rw [live] at found
      simp only [Record.apply, LogicalMap.srem, live, found, present, if_true]
      split
      · exact unexpired.erase
      · exact unexpired.rewrite found _
  | pexpireat key expireAt => exact unexpired.setDeadline (ahead key expireAt rfl)

/-- Before any deadline passes, replaying the records of an operation repeats its effect. A second
record of the buffer finds nothing to delete.
-/
theorem Op.outcome_replays (op : Op) (logging : Bool) (unexpired : map.Unexpired later)
    (before : now ≤ later)
    (room : LogicalMap.full map capacity = false → LogicalMap.full map replayCapacity = false)
    (deadlines : ∀ deadline, op.deadline now = some deadline →
      deadline = 0 ∨ later < deadline)
    : (op.outcome capacity logging now map).Replays replayCapacity later map := by
  cases op.outcome_leaves capacity logging now map with
  | silent logged buffered same =>
      have kept : (op.outcome capacity logging now map).map = map := by
        rcases same with same | ⟨key, same⟩
        · exact same
        · rw [same, unexpired.expire before]
      exact ⟨logged ▸ kept.symm, buffered ▸ kept.symm, kept.symm ▸ unexpired⟩
  | @recorded record asks took records applied =>
      have again := (record.apply_later took unexpired before room).trans applied.symm
      refine ⟨records.1 ▸ again, ?_, applied ▸ record.apply_unexpired took unexpired before ?_⟩
      · rcases records.2 with one | ⟨two, gone⟩
        · exact one ▸ again
        · rw [two, applyRecords_cons, again, applyRecords_cons, applyRecords_nil, Record.apply,
            LogicalMap.delete, gone]
          rfl
      · intro key expireAt same
        exact (asks.deadline key expireAt same).elim .inl (deadlines expireAt)

end

-- The values that records carry

/-- Every record a call leaves is valid and carries a value with a property, if any. -/
def Outcome.Carries (property : CString → Prop) (outcome : Outcome) : Prop :=
  (∀ record ∈ outcome.logged, record.Carries property)
    ∧ ∀ record ∈ outcome.buffered, record.Carries property

section

variable {property : CString → Prop} {map : LogicalMap}

theorem Outcome.carries_silent (reply : Reply (Multiset CString)) (map : LogicalMap)
    : (Outcome.silent reply map).Carries property :=
  ⟨by simp [Outcome.silent], by simp [Outcome.silent]⟩

/-- A record that carries no string besides its key. -/
theorem Record.carries_key (record : Record) (noValue : record.value = none)
    (key : ValidKey record.key)
    : record.Carries property :=
  ⟨⟨key, by simp [noValue]⟩, by simp [noValue]⟩

theorem Record.carries_value {record : Record} {value : CString}
    (has : record.value = some value) (key : ValidKey record.key) (valid : ValidValue value)
    (field : property value)
    : record.Carries property := by
  refine ⟨⟨key, fun other held => ?_⟩, fun other held => ?_⟩
  · obtain rfl := Option.some.inj (has.symm.trans held)
    exact valid
  · obtain rfl := Option.some.inj (has.symm.trans held)
    exact field

/-- The records of an operation carry the value it was given. -/
theorem Op.outcome_carries (op : Op) (valid : map.Valid)
    (fields : ∀ value, op.value = some value → property value) (capacity : Nat)
    (logging : Bool) (now : Int64)
    : (op.outcome capacity logging now map).Carries property := by
  cases op.outcome_leaves capacity logging now map with
  | silent logged buffered _ => exact ⟨by simp [logged], by simp [buffered]⟩
  | @recorded record asks _ records _ =>
      have carries : record.Carries property :=
        ⟨⟨asks.key valid, fun value held => (asks.value value held).2 valid⟩,
          fun value held => fields value (asks.value value held).1⟩
      have deletes : (Record.delete record.key).Carries property :=
        Record.carries_key _ rfl (asks.key valid)
      refine ⟨by simpa [records.1] using carries, ?_⟩
      rcases records.2 with one | ⟨two, _⟩
      · simpa [one] using carries
      · simpa [two] using ⟨carries, deletes⟩

end

-- Histories

/-- The logical map with the records that calls have logged and buffered so far. -/
structure History where
  map : LogicalMap
  logged : List Record
  buffered : List Record

/-- Nothing has been recorded yet. -/
def History.start (map : LogicalMap) : History :=
  { map, logged := [], buffered := [] }

/-- One call of the logical machine; maintenance is not part of it. -/
def History.step (capacity : Nat) (logging : Bool) (history : History) (call : Call)
    : Reply (Multiset CString) × History :=
  match call.action with
  | .op op =>
      let outcome := op.outcome capacity logging call.env.now history.map
      (outcome.reply,
        { map := outcome.map
          logged := history.logged ++ outcome.logged
          buffered := history.buffered ++ outcome.buffered })
  | .upkeep _ => (.done, history)

/-- The history of a run. -/
def History.run (capacity : Nat) (logging : Bool) (history : History) (calls : List Call)
    : History :=
  (Foundations.Runs.run (History.step capacity logging) history calls).2

/-- An operation without failures whose value argument, if it has one, has a property. -/
structure Call.Carries (property : CString → Prop) (call : Call) : Prop where
  operation : ∃ op, call.action = .op op ∧ ∀ value, op.value = some value → property value
  clean : call.env.Clean

theorem Call.carries_op {property : CString → Prop} {op : Op} {now : Int64} {prng : UInt32}
    : Call.Carries property ⟨.op op, .at now, prng⟩
      ↔ ∀ value, op.value = some value → property value := by
  refine ⟨?_, fun field => ⟨⟨op, rfl, field⟩, CallEnv.clean_at now⟩⟩
  intro carries
  obtain ⟨other, same, field⟩ := carries.operation
  obtain rfl := Action.op.inj same
  exact field

/-- An operation not after `later` whose deadline, if it sets one, is 0 or still ahead then. -/
structure Call.Timely (later : Int64) (call : Call) : Prop where
  before : call.env.now ≤ later
  deadline : ∀ op deadline, call.action = .op op →
    op.deadline call.env.now = some deadline → deadline = 0 ∨ later < deadline

theorem Call.timely_op {op : Op} {env : CallEnv} {later : Int64} {prng : UInt32}
    (before : env.now ≤ later)
    (ahead : ∀ deadline, op.deadline env.now = some deadline → deadline = 0 ∨ later < deadline)
    : Call.Timely later ⟨.op op, env, prng⟩ := by
  refine ⟨before, ?_⟩
  intro other deadline same
  obtain rfl := Action.op.inj same
  exact ahead deadline

/-- A call whose effect can be recovered from its record at the time `later`: nothing fails, a
line can hold its value, and its deadline is still ahead.
-/
structure Call.Recoverable (later : Int64) (call : Call) : Prop where
  carries : call.Carries CString.IsField
  timely : call.Timely later

theorem Call.recoverable_op {op : Op} {now later : Int64} {prng : UInt32}
    (field : ∀ value, op.value = some value → value.IsField) (before : now ≤ later)
    (ahead : ∀ deadline, op.deadline now = some deadline → deadline = 0 ∨ later < deadline)
    : Call.Recoverable later ⟨.op op, .at now, prng⟩ :=
  ⟨Call.carries_op.mpr field, Call.timely_op before ahead⟩

/-- Applying either list of records to the first map gives the last one. -/
structure History.Replays (history : History) (capacity : Nat) (now : Int64)
    (first : LogicalMap)
    : Prop where
  logged : applyRecords capacity now history.logged first = history.map
  buffered : applyRecords capacity now history.buffered first = history.map
  unexpired : history.map.Unexpired now

/-- One recoverable call extends both lists of records by what repeats its effect. -/
theorem History.Replays.step {history : History} {capacity replayCapacity : Nat}
    {later : Int64} {first : LogicalMap} {call : Call}
    (replays : history.Replays replayCapacity later first)
    (room : replayCapacity = capacity ∨ replayCapacity = 0) (logging : Bool)
    (recoverable : call.Recoverable later)
    : (History.step capacity logging history call).2.Replays replayCapacity later first := by
  obtain ⟨⟨⟨op, action, _⟩, _⟩, ⟨before, deadlines⟩⟩ := recoverable
  have looser : LogicalMap.full history.map capacity = false →
      LogicalMap.full history.map replayCapacity = false := by
    rcases room with rfl | rfl
    · exact id
    · exact fun _ => by simp [LogicalMap.full]
  have outcome := op.outcome_replays logging replays.unexpired before looser
    (fun deadline => deadlines op deadline action)
  simp only [History.step, action]
  refine ⟨?_, ?_, outcome.unexpired⟩
  · rw [applyRecords_append, replays.logged, outcome.logged]
  · rw [applyRecords_append, replays.buffered, outcome.buffered]

/-- Replaying the records of a whole run repeats it. -/
theorem History.run_replays {capacity replayCapacity : Nat} {later : Int64} {map : LogicalMap}
    (unexpired : map.Unexpired later) (room : replayCapacity = capacity ∨ replayCapacity = 0)
    (logging : Bool) {calls : List Call} (recoverable : ∀ call ∈ calls, call.Recoverable later)
    : (History.run capacity logging (.start map) calls).Replays replayCapacity later map :=
  @Foundations.Runs.run_invariant _ _ _ (History.step capacity logging)
    (fun call => call.Recoverable later)
    (fun history => history.Replays replayCapacity later map)
    (fun _ _ replays recoverable => replays.step room logging recoverable) _
    ⟨rfl, rfl, unexpired⟩ _ recoverable

end MiniKv
