import MiniKv.Invariants.Mutations
import MiniKv.Invariants.Server
import MiniKv.Refinement.Calls

/-! The replication stream. A record is broadcast inside `write_aof_record`: before the mutation in
`kv_set` and `kv_delete`, after it elsewhere, and except for deadlines only if a log is open.
-/

namespace MiniKv

variable {store : Store} {env : CallEnv} {op : Op}

/-- What `write_aof_record` broadcasts of a record: all of it or, if it is too long, nothing. -/
def publication (record : Record) : List (List UInt8) :=
  if record.bytes.length < aofRecordBufSize then [record.bytes] else []

theorem Aof.writeAofRecord_broadcasts (aof : Aof) (record : Record) (io : IoOutcome)
    : (aof.writeAofRecord record.bytes io).2.2.broadcasts
      = aof.broadcasts ++ publication record := by
  by_cases fits : record.bytes.length < aofRecordBufSize
  · simp only [Aof.writeAofRecord, publication, fits, if_true]
    cases opened : aof.fp <;> cases io <;> rfl
  · simp only [Aof.writeAofRecord, publication, fits, if_false, List.append_nil]
    cases opened : aof.fp <;> cases io <;> rfl

theorem Aof.rollbackAofRecord_broadcasts (aof : Aof) (pos : Option Nat)
    : (aof.rollbackAofRecord pos).broadcasts = aof.broadcasts := by
  simp only [Aof.rollbackAofRecord]
  split <;> rfl

/-- The records that the stream owes for a call, given its reply. -/
def Op.owed (op : Op) (now : Int64) (reply : Reply (List CString)) : List (List UInt8) :=
  if op.succeeded reply then ((op.record now).map Record.bytes).toList else []

/-- The record of the call is not too long for the buffer of `write_aof_record`. -/
def Op.RecordFits (op : Op) (now : Int64) : Prop :=
  ∀ record, op.record now = some record → record.bytes.length < aofRecordBufSize

/-- A string can be stored under the key: it holds a string, or is new and there is room. -/
def Table.Admits (table : Table) (key : CString) : Prop :=
  match table.lookup key with
  | some entry => ∃ old, entry.value = .string old
  | none => table.atCapacity = false

/-- The stream owes nothing else than what the call broadcasts. Every mutation without a deadline
needs an open log. A push, add or removal needs a record that fits, and a push a length that does.
`kv_set` and `kv_delete` broadcast before they apply, so a record that fits must be applied.
-/
def Op.Streams (op : Op) (store : Store) (env : CallEnv) : Prop :=
  match op with
  | .set (some key) (some value) => ValidKey key → ValidValue value →
      store.aof.fp ≠ none
        ∧ (op.RecordFits env.now →
          env.Clean ∧ store.table.maxMemoryBudget = 0 ∧ store.table.Admits key)
  | .delete (some key) => ValidKey key →
      store.aof.fp ≠ none ∧ env.Clean ∧ store.table.lookup key ≠ none
  | .lpush (some _) (some _) =>
      store.aof.fp ≠ none ∧ op.RecordFits env.now ∧ op.countFits store.table = true
  | .rpop (some _) => store.aof.fp ≠ none
  | .sadd (some _) (some _) => store.aof.fp ≠ none ∧ op.RecordFits env.now
  | .srem (some _) (some _) => store.aof.fp ≠ none ∧ op.RecordFits env.now
  | _ => True

-- One call

/-- A record without a value is never too long. -/
theorem Record.Valid.fits {record : Record} (valid : record.Valid) (noValue : record.value = none)
    : record.bytes.length < aofRecordBufSize := by
  have word : record.command.word.length ≤ 9 := by cases record.command <;> decide
  have key : record.key.bytes.length ≤ 256 := valid.key.bounded
  have argument : ∀ argument, record.argument = some argument → argument.length ≤ 66 := by
    intro argument has
    rcases Record.argument_cases has with ⟨value, held, _⟩ | ⟨deadline, rfl⟩
    · rw [noValue] at held
      contradiction
    · exact length_decimalInt deadline
  rw [Record.bytes_eq, Record.body, aofRecordBufSize]
  cases has : record.argument with
  | none =>
      simp only [List.length_append, List.length_cons, List.length_nil]
      omega
  | some argument' =>
      have short := argument argument' has
      simp only [List.length_append, List.length_cons, List.length_nil]
      omega

/-- What a call broadcasts, unless it undoes a record that fits or has no log for its own. -/
theorem Aof.Written.broadcasts {before after : Aof} {table : Table}
    {reply : Reply (List CString)} (written : before.Written op env table reply after)
    (opened : op.setsDeadline = false → before.fp ≠ none)
    (fits : op.succeeded reply = true → op.logsFirst = false → ∀ record : Record, record.Valid →
      op.record env.now = some record → record.bytes.length < aofRecordBufSize)
    (applied : op.succeeded reply = false → op.logsFirst = true → ¬ op.RecordFits env.now)
    : after.broadcasts = before.broadcasts ++ op.owed env.now reply := by
  cases written with
  | untouched failed => simp [Op.owed, failed]
  | @undone record stands first _ failed pos =>
      have long : ¬ record.bytes.length < aofRecordBufSize := by
        intro short
        refine applied failed first (fun other same => ?_)
        obtain rfl := Option.some.inj (stands.symm.trans same)
        exact short
      rw [Aof.rollbackAofRecord_broadcasts, Aof.writeAofRecord_broadcasts, publication,
        if_neg long]
      simp [Op.owed, failed]
  | @recorded record stands succeeded valid firstFits =>
      have short : record.bytes.length < aofRecordBufSize := by
        cases first : op.logsFirst with
        | false => exact fits succeeded first record valid stands
        | true =>
            refine firstFits first (opened ?_)
            cases op <;> first | rfl | contradiction
      have logged : before.logRecord op record env
          = (before.writeAofRecord record.bytes env.io).2.2 := by
        cases deadline : op.setsDeadline with
        | true => exact Aof.logRecord_deadline deadline before record env
        | false => exact Aof.logRecord_opened (opened deadline) op record env
      rw [(Aof.appendFragments_stream _ _ _ _).2.2, logged, Aof.writeAofRecord_broadcasts,
        publication, if_pos short]
      simp [Op.owed, succeeded, stands]

/-- A valid string that is admitted is stored when nothing fails and its record fits. -/
theorem kvSet_accepted (wf : store.table.WellFormed) {key value : CString}
    (validKey : ValidKey key) (validValue : ValidValue value) (clean : env.Clean)
    (unlimited : store.table.maxMemoryBudget = 0) (admits : store.table.Admits key)
    (fits : (Record.set key value).bytes.length < aofRecordBufSize)
    : (kvSet store (some key) (some value) env).1 = kvOk := by
  have isMatch := (kvSet_matches wf unlimited clean (some key) (some value)).reply
  have shown := wf.logical_lookup key
  have stored : (LogicalMap.set store.table.logical store.table.maxCapacity key value).reply
      = .status kvOk := by
    cases found : store.table.lookup key with
    | none =>
        simp only [Table.Admits, found] at admits
        rw [found, Option.map_none] at shown
        simp [LogicalMap.set, shown, wf.full_eq, admits, Outcome.recorded]
    | some entry =>
        simp only [Table.Admits, found] at admits
        obtain ⟨old, isString⟩ := admits
        rw [found, Option.map_some] at shown
        simp [LogicalMap.set, shown, Entry.binding, isString, Payload.content, Outcome.recorded]
  have enough : (Record.set key value).fits = true := decide_eq_true fits
  simp only [Op.call, Prod.map_fst, Op.outcome, validateKey_of_valid validKey,
    validateValue_of_valid validValue, enough, Bool.not_true, Bool.and_false,
    Bool.false_eq_true, if_false, stored] at isMatch
  exact Reply.status.inj isMatch

theorem kvDelete_accepted (wf : store.table.WellFormed) {key : CString} (validKey : ValidKey key)
    (clean : env.Clean) (bound : store.table.lookup key ≠ none)
    : (kvDelete store (some key) env).1 = kvOk := by
  have isMatch := (kvDelete_matches wf clean (some key)).reply
  obtain ⟨entry, found⟩ := Option.ne_none_iff_exists'.mp bound
  have shown := wf.logical_lookup key
  rw [found, Option.map_some] at shown
  simp only [Op.call, Prod.map_fst, Op.outcome, validateKey_of_valid validKey,
    LogicalMap.delete, shown, Outcome.recorded] at isMatch
  exact Reply.status.inj isMatch

theorem Mutation.call_broadcasts (mutation : Mutation)
    (opened : mutation.check = .ok () → store.aof.fp ≠ none)
    (accepted : mutation.check = .ok () → mutation.op.RecordFits env.now →
      (mutation.call env store).1 = kvOk)
    : (mutation.call env store).2.aof.broadcasts = store.aof.broadcasts
        ++ mutation.op.owed env.now (.status (mutation.call env store).1) := by
  cases checked : mutation.check with
  | error err =>
      rw [mutation.call_eq, checked]
      simp [Op.owed, mutation.op_failed (Mutation.check_error checked)]
  | ok _ =>
      refine (mutation.call_written env store).broadcasts (fun _ => opened checked) ?_ ?_
      · intro _ last
        cases mutation <;> contradiction
      · intro failed _ fits
        rw [accepted checked fits, mutation.op_succeeded] at failed
        contradiction

theorem Op.Streams.countFits (streams : op.Streams store env)
    : op.countFits store.table = true := by
  cases op with
  | lpush key value =>
      match key, value with
      | none, _ => rfl
      | some _, none => rfl
      | some _, some _ => exact streams.2.2
  | _ => rfl

/-- A call without a record writes nothing and did not take effect. -/
theorem Aof.Written.silent {before after : Aof} {table : Table} {reply : Reply (List CString)}
    (written : before.Written op env table reply after) (unrecorded : op.record env.now = none)
    : after = before ∧ op.succeeded reply = false := by
  cases written with
  | untouched failed => exact ⟨rfl, failed⟩
  | undone stands =>
      rw [unrecorded] at stands
      contradiction
  | recorded stands =>
      rw [unrecorded] at stands
      contradiction

/-- A call broadcasts what the stream owes. Without a record there is nothing to broadcast; with
one, all arguments are given.
-/
theorem Op.call_broadcasts (wf : store.table.WellFormed) (streams : op.Streams store env)
    : (op.call env store).2.aof.broadcasts
      = store.aof.broadcasts ++ op.owed env.now (op.call env store).1 := by
  have written := @Op.call_written store env op wf streams.countFits
  cases stands : op.record env.now with
  | none =>
      obtain ⟨same, failed⟩ := written.silent stands
      simp [same, Op.owed, failed]
  | some record =>
      have valueless : ∀ record : Record, record.value = none → ∀ other : Record, other.Valid →
          some record = some other → other.bytes.length < aofRecordBufSize :=
        fun record noValue other valid same =>
          valid.fits (Option.some.inj same ▸ noValue)
      unfold Op.record at stands
      split at stands
      · next key value =>
          obtain ⟨_, same, _, valid⟩ := (Mutation.set key value).op_record env.now
          obtain rfl := Option.some.inj same
          refine (Mutation.set key value).call_broadcasts
            (fun checked => (streams (valid checked).key ((valid checked).value value rfl)).1)
            (fun checked fits => ?_)
          have validKey := (valid checked).key
          have validValue := (valid checked).value value rfl
          obtain ⟨clean, unlimited, admits⟩ := (streams validKey validValue).2 fits
          exact kvSet_accepted wf validKey validValue clean unlimited admits (fits _ rfl)
      · next key =>
          obtain ⟨_, same, _, valid⟩ := (Mutation.delete key).op_record env.now
          obtain rfl := Option.some.inj same
          refine (Mutation.delete key).call_broadcasts
            (fun checked => (streams (valid checked).key).1) (fun checked _ => ?_)
          obtain ⟨_, clean, bound⟩ := streams (valid checked).key
          exact kvDelete_accepted wf (valid checked).key clean bound
      · next key value =>
          exact written.broadcasts (fun _ => streams.1) (fun _ _ record _ => streams.2.1 record)
            (fun _ first => absurd first Bool.false_ne_true)
      · next key =>
          exact written.broadcasts (fun _ => streams) (fun _ _ => valueless _ rfl)
            (fun _ first => absurd first Bool.false_ne_true)
      · next key value =>
          exact written.broadcasts (fun _ => streams.1) (fun _ _ record _ => streams.2 record)
            (fun _ first => absurd first Bool.false_ne_true)
      · next key value =>
          exact written.broadcasts (fun _ => streams.1) (fun _ _ record _ => streams.2 record)
            (fun _ first => absurd first Bool.false_ne_true)
      all_goals first
        | exact written.broadcasts (fun other => absurd other (Ne.symm Bool.false_ne_true))
            (fun _ _ => valueless _ rfl) (fun _ first => absurd first Bool.false_ne_true)
        | contradiction

-- Runs

theorem Upkeep.call_broadcasts (upkeep : Upkeep) (env : CallEnv) (store : Store)
    : (upkeep.call env store).2.aof.broadcasts = store.aof.broadcasts := by
  cases upkeep with
  | bgrewriteaof pid =>
      simp only [Upkeep.call, Prod.map_snd, id_eq, kvBgrewriteaof]
      split_ifs <;> rfl
  | mergeAofRewrite childPid outcome =>
      simp only [Upkeep.call, Prod.map_snd, id_eq, kvMergeAofRewrite]
      split_ifs
      · rfl
      · rfl
      · cases outcome <;> rfl
  | _ => rfl

/-- What the stream owes for a call; nothing for the upkeep of the store. -/
def Call.owed (call : Call) (reply : Reply (List CString)) : List (List UInt8) :=
  match call.action with
  | .op op => op.owed call.env.now reply
  | .upkeep _ => []

/-- Every operation along a run meets a store from which it streams. -/
def Store.StreamsAlong : Store → List Call → Prop
  | _, [] => True
  | store, call :: rest =>
      (∀ op, call.action = .op op → op.Streams store call.env)
        ∧ Store.StreamsAlong (store.step call).2 rest

theorem Store.step_broadcasts (wf : store.table.WellFormed) {call : Call}
    (streams : ∀ op, call.action = .op op → op.Streams store call.env)
    : (store.step call).2.aof.broadcasts
      = store.aof.broadcasts ++ call.owed (store.step call).1 := by
  let drawn : Store := { store with table := { store.table with prng := call.prng } }
  have drawnWf : drawn.table.WellFormed := wf.congr rfl rfl rfl
  cases action : call.action with
  | op op =>
      have drawnStreams : op.Streams drawn call.env := streams op action
      have broadcasts := Op.call_broadcasts drawnWf drawnStreams
      simp only [Store.step, Call.owed, action]
      exact broadcasts
  | upkeep upkeep =>
      have broadcasts := upkeep.call_broadcasts call.env drawn
      simp only [Store.step, Call.owed, action, List.append_nil]
      exact broadcasts

/-- Along every run of calls that stream, the records broadcast are those of the calls that took
effect, in order.
Witness: each call adds what the stream owes for it, by induction on the run.
-/
theorem stream_carries_successes (wf : store.table.WellFormed) {calls : List Call}
    (streams : store.StreamsAlong calls)
    : (store.run calls).2.aof.broadcasts
      = store.aof.broadcasts
        ++ (calls.zip (store.run calls).1).flatMap
          (fun answered => answered.1.owed answered.2) := by
  induction calls generalizing store with
  | nil => simp [Store.run, Foundations.Runs.run]
  | cons call rest ih =>
      have later := ih (Store.step_wellFormed wf call) streams.2
      rw [Store.step_broadcasts wf streams.1, List.append_assoc] at later
      exact later

/-- On a store with a log, a string is set, a list is filled and emptied, and the string deleted. -/
theorem stream_carries_successes_logged
    : ∃ (start : Store) (calls : List Call),
        kvInitFull 2 0 0 (some ⟨[97], by decide⟩) [] 7 (.at 0) (fun _ => .at 0) = .ok start
        ∧ calls.map Call.action
          = [.op (.set (some ⟨[107], by decide⟩) (some ⟨[118], by decide⟩)),
            .op (.lpush (some ⟨[108], by decide⟩) (some ⟨[120], by decide⟩)),
            .op (.rpop (some ⟨[108], by decide⟩)), .op (.delete (some ⟨[107], by decide⟩))]
        ∧ start.StreamsAlong calls
        ∧ (start.run calls).2.aof.broadcasts
          = start.aof.broadcasts
            ++ (calls.zip (start.run calls).1).flatMap
              (fun answered => answered.1.owed answered.2) := by
  let calls : List Call :=
    [⟨.op (.set (some ⟨[107], by decide⟩) (some ⟨[118], by decide⟩)), .at 1, 0⟩,
      ⟨.op (.lpush (some ⟨[108], by decide⟩) (some ⟨[120], by decide⟩)), .at 2, 0⟩,
      ⟨.op (.rpop (some ⟨[108], by decide⟩)), .at 3, 0⟩,
      ⟨.op (.delete (some ⟨[107], by decide⟩)), .at 4, 0⟩]
  obtain ⟨start, opened, streams⟩ : ∃ start : Store,
      kvInitFull 2 0 0 (some ⟨[97], by decide⟩) [] 7 (.at 0) (fun _ => .at 0) = .ok start
        ∧ start.StreamsAlong calls := by
    refine ⟨_, rfl, ?_, ?_, ?_, ?_, trivial⟩
    · rintro _ ⟨⟩ _ _
      exact ⟨by decide +kernel, fun _ => ⟨CallEnv.clean_at 1, rfl,
        show Table.atCapacity _ = false by decide +kernel⟩⟩
    · rintro _ ⟨⟩
      refine ⟨by decide +kernel, ?_, by decide +kernel⟩
      rintro _ ⟨⟩
      decide +kernel
    · rintro _ ⟨⟩
      exact show Aof.fp _ ≠ none by decide +kernel
    · rintro _ ⟨⟩ _
      exact ⟨by decide +kernel, CallEnv.clean_at 4, by decide +kernel⟩
  exact ⟨start, calls, opened, rfl, streams,
    stream_carries_successes (kvInitFull_keeps opened).wellFormed streams⟩

/-- Without a log a stored string is not broadcast; with one, the deletion of a missing key is. -/
theorem stream_misses_and_invents
    : ∃ (unlogged logged : Store),
        kvInitFull 2 0 0 none [] 7 (.at 0) (fun _ => .at 0) = .ok unlogged
        ∧ kvInitFull 2 0 0 (some ⟨[97], by decide⟩) [] 7 (.at 0) (fun _ => .at 0) = .ok logged
        ∧ (let stored := unlogged.step
            ⟨.op (.set (some ⟨[107], by decide⟩) (some ⟨[118], by decide⟩)), .at 1, 0⟩
          stored.1 = .status kvOk ∧ stored.2.aof.broadcasts = [])
        ∧ (let missed := logged.step ⟨.op (.delete (some ⟨[107], by decide⟩)), .at 1, 0⟩
          missed.1 = .status kvErrNotFound
          ∧ missed.2.aof.broadcasts = [(Record.delete ⟨[107], by decide⟩).bytes]) := by
  refine ⟨_, _, rfl, rfl, ?_, ?_⟩
  · decide +kernel
  · decide +kernel

end MiniKv
