import MiniKv.Correctness.TornLog
import MiniKv.Refinement.ReplicaStream

/-! One record, two interpreters: the dispatch of `replica_thread_main` knows SET and DELETE and
takes a value up to the LF, `replay_aof_log` knows every command and strips a CR in front of the LF
as well.
-/

namespace MiniKv

variable {record : Record} {store : Store} {env : CallEnv}

-- Each interpreter as an application of a record

theorem replicaApplyLine_passed (passed : record.isReplicated = false)
    : replicaApplyLine store record.body env = store := by
  cases record <;> first | contradiction | rfl

/-- The replica applies the record as it was written, or passes it over. -/
theorem applyLines_record (oneLine : record.OneLine)
    : applyLines env record.bytes.length store record.bytes
      = (if record.isReplicated = true then applyRecord store record env else store, []) := by
  have line : nextLine record.bytes = some (record.body, []) := by
    rw [Record.bytes_eq]
    exact nextLine_line oneLine.noLf_body oneLine.noNul_body []
  obtain ⟨fuel, enough⟩ : ∃ fuel, record.bytes.length = fuel + 1 := by
    rw [Record.bytes_eq, List.length_append]
    exact ⟨_, rfl⟩
  have nothing (after : Store) : applyLines env fuel after [] = (after, []) := by
    cases fuel <;> rfl
  rw [enough, applyLines, line]
  simp only [nothing]
  cases replicated : record.isReplicated with
  | true => rw [replicaApplyLine_body oneLine replicated, if_pos rfl]
  | false => rw [replicaApplyLine_passed replicated, if_neg Bool.false_ne_true]

/-- The replay applies the record that its line parses to. -/
theorem replayAofLog_record (oneLine : record.OneLine) (envs : Nat → CallEnv)
    : replayAofLog store record.bytes envs = applyRecord store record.stripped (envs 0) := by
  have lines := @readLines_encode [record] (by simpa using oneLine) [] List.not_mem_nil (by decide)
  have single : encode [record] = record.bytes := by simp [encode]
  simp only [single, List.append_nil, List.map_cons, List.map_nil, if_true] at lines
  rw [replayAofLog, lines, replayLines, replayLine, oneLine.parseLine_bytes, replayLines]

-- Where they agree

/-- Both interpreters give the same logical map for the line of a record. -/
def Record.AppliedAlike (record : Record) (store : Store) (env : CallEnv) : Prop :=
  (applyLines env record.bytes.length store record.bytes).1.table.logical
    = (replayAofLog store record.bytes (fun _ => env)).table.logical

/-- SET does nothing: the key has a list or a set, or is new and the store is full. -/
def LogicalMap.refusesSet (map : LogicalMap) (capacity : Nat) (key : CString) : Prop :=
  match map.lookup key with
  | none => LogicalMap.full map capacity = true
  | some ⟨.string _, _⟩ => False
  | some _ => True

/-- The records that make no difference to the interpreters at a map: a DELETE, a SET that loses
nothing to the stripping or does nothing, and a record of any other kind that does nothing.
-/
def Record.Indifferent (record : Record) (capacity : Nat) (now : Int64) (map : LogicalMap)
    : Prop :=
  match record with
  | .set key value => value.bytes.getLast? ≠ some cr ∨ LogicalMap.refusesSet map capacity key
  | .delete _ => True
  | record => record.stripped.Redundant capacity now map

/-- Setting a key to two values gives the same map only when they are the same or SET does
nothing.
-/
theorem set_map_eq_iff (map : LogicalMap) (capacity : Nat) (key value other : CString)
    : (LogicalMap.set map capacity key value).map = (LogicalMap.set map capacity key other).map
      ↔ other = value ∨ LogicalMap.refusesSet map capacity key := by
  have inserted : ∀ binding binding' : Binding,
      map.insert key binding = map.insert key binding' → binding = binding' := by
    intro binding binding' same
    have lookups := congrArg (Finmap.lookup key) same
    rwa [Finmap.lookup_insert, Finmap.lookup_insert, Option.some.injEq] at lookups
  simp only [LogicalMap.set, LogicalMap.refusesSet]
  cases found : map.lookup key with
  | none =>
      cases limit : LogicalMap.full map capacity with
      | true => simp [Outcome.silent]
      | false =>
          simp only [Outcome.recorded, Bool.false_eq_true, if_false, or_false]
          refine ⟨fun same => ?_, fun same => by rw [same]⟩
          simpa using (inserted _ _ same).symm
  | some binding =>
      obtain ⟨content, expireAt⟩ := binding
      cases content with
      | string old =>
          simp only [Outcome.recorded, or_false]
          refine ⟨fun same => ?_, fun same => by rw [same]⟩
          simpa using (inserted _ _ same).symm
      | _ => simp [Outcome.silent]

/-- At a store without memory pressure the interpreters agree exactly on the records that make no
difference to them.
-/
theorem Record.OneLine.appliedAlike_iff (oneLine : record.OneLine) (sound : store.Sound)
    (clean : env.Clean)
    : record.AppliedAlike store env
      ↔ record.Indifferent store.table.maxCapacity env.now store.table.logical := by
  have replayed := (applyRecord_becomes sound.wellFormed sound.unlimited clean
    oneLine.stripped.valid).logical
  have applied := (applyRecord_becomes sound.wellFormed sound.unlimited clean
    oneLine.valid).logical
  rw [Record.AppliedAlike, applyLines_record oneLine, replayAofLog_record oneLine, replayed]
  cases record with
  | set key value =>
      have isSet : (Record.set key value).isReplicated = true := rfl
      rw [if_pos isSet, applied, Record.Indifferent,
        ← CString.stripped_eq_self_iff (oneLine.field value rfl)]
      exact set_map_eq_iff _ _ _ _ _
  | delete key =>
      have isDelete : (Record.delete key).isReplicated = true := rfl
      rw [if_pos isDelete, applied]
      exact iff_of_true rfl trivial
  | lpush key value | rpop key | sadd key value | srem key value | pexpireat key deadline =>
      rw [if_neg (by exact Bool.false_ne_true), eq_comm]
      exact Record.apply_eq_self_iff _ _ _ _

-- Stores that tell the interpreters apart

/-- A store with the map that some records make of the empty one. -/
theorem exists_store_of_records {records : List Record}
    (readable : ∀ record ∈ records, record.Readable)
    : ∃ store : Store, store.Sound ∧ store.table.maxCapacity = 0
        ∧ store.table.logical = applyRecords 0 0 records ∅ := by
  have becomes := @replayAofLog_encode (Store.fresh 1 0 0 7 [])
    (Store.fresh_wellFormed (by decide) 0 0 7 []) rfl 0 records readable
  rw [Store.fresh_logical] at becomes
  exact ⟨_, ⟨becomes.wellFormed, becomes.maxMemoryBudget⟩, becomes.maxCapacity, becomes.logical⟩

/-- The records that bind the key of a record in such a way that the record has an effect. -/
def Record.prelude : Record → List Record
  | .set _ _ | .delete _ | .lpush _ _ | .sadd _ _ => []
  | .rpop key => [.lpush key ⟨[], List.not_mem_nil⟩]
  | .srem key value => [.sadd key value.stripped]
  | .pexpireat key expireAtMs =>
      [.set key ⟨[], List.not_mem_nil⟩, .pexpireat key (if expireAtMs = 0 then 1 else 0)]

theorem Record.OneLine.prelude_readable (oneLine : record.OneLine)
    : ∀ other ∈ record.prelude, other.Readable := by
  have emptyValid : ValidValue ⟨[], List.not_mem_nil⟩ := Nat.zero_le _
  have emptyField : CString.IsField ⟨[], List.not_mem_nil⟩ := ⟨List.not_mem_nil, by simp⟩
  have validKey := oneLine.valid.key
  cases record with
  | set key value | delete key | lpush key value | sadd key value => simp [Record.prelude]
  | rpop key =>
      simp only [Record.prelude, List.mem_singleton, forall_eq]
      exact ⟨⟨validKey, by rintro _ ⟨⟩; exact emptyValid⟩, by rintro _ ⟨⟩; exact emptyField⟩
  | srem key value =>
      simp only [Record.prelude, List.mem_singleton, forall_eq]
      have stripped := oneLine.stripped
      exact ⟨⟨validKey, stripped.valid.value⟩, stripped.field⟩
  | pexpireat key deadline =>
      simp only [Record.prelude, List.mem_cons, List.not_mem_nil, or_false, forall_eq_or_imp,
        forall_eq]
      exact ⟨⟨⟨validKey, by rintro _ ⟨⟩; exact emptyValid⟩, by rintro _ ⟨⟩; exact emptyField⟩,
        ⟨.of_key validKey rfl, by rintro _ ⟨⟩⟩⟩

theorem not_refusesSet_empty (key : CString) : ¬ LogicalMap.refusesSet ∅ 0 key := by
  simp [LogicalMap.refusesSet, LogicalMap.full_zero]

/-- Behind its prelude, every record but a DELETE and a SET that loses nothing tells the
interpreters apart.
-/
theorem Record.OneLine.not_indifferent (oneLine : record.OneLine)
    (apart : ¬ (record.isReplicated = true ∧ record.Readable))
    : ¬ record.Indifferent 0 0 (applyRecords 0 0 record.prelude ∅) := by
  cases record with
  | set key value =>
      rintro (field | refused)
      · refine apart ⟨rfl, oneLine.valid, ?_⟩
        rintro _ ⟨⟩
        exact ⟨oneLine.field value rfl, field⟩
      · exact not_refusesSet_empty key refused
  | delete key => exact absurd ⟨rfl, oneLine.valid, by rintro _ ⟨⟩⟩ apart
  | lpush key value | sadd key value =>
      simp [Record.Indifferent, Record.stripped, Record.Redundant, Record.prelude, applyRecords,
        LogicalMap.full_zero]
  | rpop key =>
      simp [Record.Indifferent, Record.stripped, Record.Redundant, Record.prelude, applyRecords,
        Record.apply, LogicalMap.lpush, LogicalMap.expire, LogicalMap.full_zero, Outcome.recorded,
        Binding.isExpired]
  | srem key value =>
      simp [Record.Indifferent, Record.stripped, Record.Redundant, Record.prelude, applyRecords,
        Record.apply, LogicalMap.sadd, LogicalMap.expire, LogicalMap.full_zero, Outcome.recorded,
        Binding.isExpired]
  | pexpireat key deadline =>
      have other : (if deadline = 0 then 1 else 0 : Int64) ≠ deadline := by
        split_ifs with zero
        · rw [zero]
          decide
        · exact Ne.symm zero
      simpa [Record.Indifferent, Record.stripped, Record.Redundant, Record.prelude, applyRecords,
        Record.apply, LogicalMap.set, LogicalMap.setDeadline, LogicalMap.full_zero,
        Outcome.recorded] using other

/-- The interpreters agree about the line of a record at every store exactly when it is a SET or a
DELETE and its value does not end in CR; at a store without memory pressure they also agree where
the record, as the replay reads it, does nothing.
-/
theorem replica_agrees_iff (oneLine : record.OneLine)
    : ((∀ store env, record.AppliedAlike store env)
        ↔ record.isReplicated = true ∧ record.Readable)
      ∧ ∀ store env, Store.Sound store → CallEnv.Clean env →
        (record.AppliedAlike store env
          ↔ record.Indifferent store.table.maxCapacity env.now store.table.logical) := by
  refine ⟨⟨fun agree => ?_, fun alike store env => ?_⟩,
    fun store env sound clean => oneLine.appliedAlike_iff sound clean⟩
  · by_contra apart
    obtain ⟨store, sound, capacity, logical⟩ := exists_store_of_records oneLine.prelude_readable
    have indifferent := (oneLine.appliedAlike_iff sound (CallEnv.clean_at 0)).mp
      (agree store (.at 0))
    rw [capacity, logical] at indifferent
    exact oneLine.not_indifferent apart indifferent
  · rw [Record.AppliedAlike, applyLines_record oneLine, replayAofLog_record oneLine,
      if_pos alike.1, oneLine.readable_iff.mp alike.2]

/-- Setting `k` to `a` on an empty store: both interpreters bind it. -/
theorem replica_agrees_iff_set
    : let record : Record := .set ⟨[107], by decide⟩ ⟨[97], by decide⟩
      record.AppliedAlike (Store.fresh 1 0 0 7 []) (.at 0)
        ∧ (replayAofLog (Store.fresh 1 0 0 7 []) record.bytes (fun _ => .at 0)
            ).table.logical.lookup ⟨[107], by decide⟩
          = some ⟨.string ⟨[97], by decide⟩, 0⟩ := by
  have readable : (Record.set ⟨[107], by decide⟩ ⟨[97], by decide⟩).Readable := by
    have noSpace : ∀ byte ∈ [107], isSpace byte = false := by
      intro byte member
      rw [List.mem_singleton.mp member]
      decide
    refine ⟨⟨⟨List.cons_ne_nil _ _, Nat.le_of_ble_eq_true rfl, noSpace⟩, ?_⟩, ?_⟩
    · rintro _ ⟨⟩
      exact Nat.le_of_ble_eq_true rfl
    · rintro _ ⟨⟩
      decide
  refine ⟨(replica_agrees_iff readable.oneLine).1.mpr ⟨rfl, readable⟩ _ _, ?_⟩
  decide +kernel

/-- Two lines on an empty store. LPUSH of `a` to `k`: the replay makes a list, the replica nothing.
SET of `k` to `a` and a CR: the replay loses the CR, the replica keeps it.
-/
theorem replica_diverges
    : let key : CString := ⟨[107], by decide⟩
      let pushed : Record := .lpush key ⟨[97], by decide⟩
      let set : Record := .set key ⟨[97, cr], by decide⟩
      let empty := Store.fresh 1 0 0 7 []
      (replayAofLog empty pushed.bytes (fun _ => .at 0)).table.logical.lookup key
          = some ⟨.list [⟨[97], by decide⟩], 0⟩
        ∧ (applyLines (.at 0) pushed.bytes.length empty pushed.bytes).1.table.logical.lookup key
          = none
        ∧ (replayAofLog empty set.bytes (fun _ => .at 0)).table.logical.lookup key
          = some ⟨.string ⟨[97], by decide⟩, 0⟩
        ∧ (applyLines (.at 0) set.bytes.length empty set.bytes).1.table.logical.lookup key
          = some ⟨.string ⟨[97, cr], by decide⟩, 0⟩ := by
  refine ⟨?_, ?_, ?_, ?_⟩ <;> decide +kernel

end MiniKv
