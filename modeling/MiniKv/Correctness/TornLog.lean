import MiniKv.Correctness.Recovery
import MiniKv.Semantics.Drift

/-! Logs that a crash cut off. `fgets` returns the torn last line like any other, so what is left
of a record is applied whenever it still parses.
-/

namespace MiniKv

open MiniKv.Foundations.FiniteMaps

-- Cutting a log

/-- The records that lie wholly, with their LF, within the first `cut` bytes of a log. -/
def wholeRecords : List Record → Nat → List Record
  | [], _ => []
  | record :: rest, cut =>
      if record.bytes.length ≤ cut then
        record :: wholeRecords rest (cut - record.bytes.length)
      else []

/-- What the first `cut` bytes of a log hold of the record behind the whole ones. -/
def tornTail : List Record → Nat → List UInt8
  | [], _ => []
  | record :: rest, cut =>
      if record.bytes.length ≤ cut then tornTail rest (cut - record.bytes.length)
      else record.bytes.take cut

theorem take_encode (records : List Record) (cut : Nat)
    : (encode records).take cut
      = encode (wholeRecords records cut) ++ tornTail records cut := by
  induction records generalizing cut with
  | nil => simp [encode, wholeRecords, tornTail]
  | cons record rest ih =>
      rw [encode, List.flatMap_cons, ← encode, List.take_append, ih, wholeRecords, tornTail]
      by_cases whole : record.bytes.length ≤ cut
      · rw [if_pos whole, if_pos whole, List.take_of_length_le whole, encode, encode,
          List.flatMap_cons, List.append_assoc]
      · rw [if_neg whole, if_neg whole]
        have none : cut - record.bytes.length = 0 := by omega
        have nothing : encode (wholeRecords rest 0) ++ tornTail rest 0 = [] := by
          rw [← ih, List.take_zero]
        rw [none, nothing, List.append_nil]
        rfl

theorem wholeRecords_begins (records : List Record) (cut : Nat)
    : wholeRecords records cut <+: records := by
  induction records generalizing cut with
  | nil => exact List.nil_prefix
  | cons record rest ih =>
      rw [wholeRecords]
      split
      · exact List.cons_prefix_cons.mpr ⟨rfl, ih _⟩
      · exact List.nil_prefix

/-- A torn tail has lost its LF and is shorter than a line. -/
theorem tornTail_line {records : List Record} (oneLine : ∀ record ∈ records, record.OneLine)
    (cut : Nat)
    : lf ∉ tornTail records cut ∧ (tornTail records cut).length < replayLineRoom := by
  induction records generalizing cut with
  | nil => simp [tornTail, replayLineRoom]
  | cons record rest ih =>
      rw [tornTail]
      split
      · exact ih (fun other member => oneLine other (List.mem_cons_of_mem _ member)) _
      · next torn =>
          have isLine := oneLine record List.mem_cons_self
          rw [Record.bytes_eq, List.length_append, List.length_singleton] at torn
          have short := isLine.length_body
          rw [Record.bytes_eq, List.take_append_of_le_length (by omega)]
          refine ⟨fun member => isLine.noLf_body (List.mem_of_mem_take member), ?_⟩
          rw [List.length_take]
          omega

-- Records without effect

/-- Applying the record leaves the map as it is: it repeats what is there, removes what is not
there, or does not fit the value, the type or the capacity it meets.
-/
def Record.Redundant (record : Record) (capacity : Nat) (now : Int64) (map : LogicalMap)
    : Prop :=
  match record with
  | .set key value =>
      match map.lookup key with
      | none => LogicalMap.full map capacity = true
      | some ⟨.string old, _⟩ => old = value
      | some _ => True
  | .delete key => map.lookup key = none
  | .lpush key _ =>
      match map.lookup key with
      | none => LogicalMap.full map capacity = true
      | some binding =>
          binding.isExpired now = false ∧ ∀ items, binding.content ≠ .list items
  | .rpop key =>
      match map.lookup key with
      | none => True
      | some binding =>
          binding.isExpired now = false ∧ ∀ items, binding.content = .list items → items = []
  | .sadd key value =>
      match map.lookup key with
      | none => LogicalMap.full map capacity = true
      | some binding =>
          binding.isExpired now = false
            ∧ ∀ members, binding.content = .set members → value ∈ members
  | .srem key value =>
      match map.lookup key with
      | none => True
      | some binding =>
          binding.isExpired now = false
            ∧ ∀ members, binding.content = .set members → value ∉ members
  | .pexpireat key expireAtMs =>
      ∀ binding, map.lookup key = some binding → binding.expireAt = expireAtMs

section

variable {map : LogicalMap} {key : CString} {binding : Binding}

theorem insert_eq_self_iff : map.insert key binding = map ↔ map.lookup key = some binding := by
  refine ⟨fun same => ?_, insert_of_lookup_some⟩
  rw [← same, Finmap.lookup_insert]

theorem erase_eq_self_iff : map.erase key = map ↔ map.lookup key = none := by
  refine ⟨fun same => ?_, erase_of_lookup_none⟩
  rw [← same, Finmap.lookup_erase]

theorem Binding.expireAt_ne_zero {now : Int64} (expired : binding.isExpired now = true)
    : binding.expireAt ≠ 0 := by
  intro zero
  simp [Binding.isExpired, zero] at expired

/-- A record that removes an expired binding has an effect, also when it binds the key again. -/
theorem ne_of_expired {now : Int64} {after : LogicalMap}
    (found : map.lookup key = some binding) (expired : binding.isExpired now = true)
    (fresh : ∀ other, after.lookup key = some other → other.expireAt = 0)
    : after ≠ map := by
  rintro rfl
  exact Binding.expireAt_ne_zero expired (fresh binding found)

theorem lookup_erase_fresh (other : Binding) (bound : (map.erase key).lookup key = some other)
    : other.expireAt = 0 := by
  simp [Finmap.lookup_erase] at bound

theorem lookup_insert_fresh {content : Content} (other : Binding)
    (bound : (map.insert key ⟨content, 0⟩).lookup key = some other)
    : other.expireAt = 0 := by
  rw [Finmap.lookup_insert] at bound
  exact Option.some.inj bound ▸ rfl

variable (capacity : Nat) (now : Int64) (value : CString)

theorem set_eq_self_iff
    : (LogicalMap.set map capacity key value).map = map
      ↔ (Record.set key value).Redundant capacity now map := by
  simp only [LogicalMap.set, Record.Redundant]
  cases found : map.lookup key with
  | none =>
      cases limit : LogicalMap.full map capacity with
      | true => simp [Outcome.silent]
      | false => simp [Outcome.recorded, insert_eq_self_iff, found]
  | some binding =>
      obtain ⟨content, expireAt⟩ := binding
      cases content with
      | string old => simp [Outcome.recorded, insert_eq_self_iff, found]
      | _ => simp [Outcome.silent]

theorem delete_eq_self_iff
    : (LogicalMap.delete map key).map = map
      ↔ (Record.delete key).Redundant capacity now map := by
  simp only [LogicalMap.delete, Record.Redundant]
  cases found : map.lookup key with
  | none => simp [Outcome.silent]
  | some binding => simp [Outcome.recorded, erase_eq_self_iff, found]

theorem lpush_eq_self_iff
    : (LogicalMap.lpush map capacity now key value).map = map
      ↔ (Record.lpush key value).Redundant capacity now map := by
  simp only [LogicalMap.lpush, Record.Redundant]
  rcases LogicalMap.expire_cases map now key with
    ⟨found, same⟩ | ⟨binding, found, expired, gone⟩ | ⟨⟨content, expireAt⟩, found, live, same⟩
  · rw [same, found]
    cases limit : LogicalMap.full map capacity with
    | true => simp [Outcome.silent]
    | false => simp [Outcome.recorded, insert_eq_self_iff, found]
  · simp only [gone, Finmap.lookup_erase, found, expired, Bool.true_eq_false, false_and, iff_false]
    split
    · exact ne_of_expired found expired lookup_erase_fresh
    · exact ne_of_expired found expired lookup_insert_fresh
  · rw [same, found]
    cases content with
    | list items => simp [Outcome.recorded, insert_eq_self_iff, found]
    | _ => simp [Outcome.silent, live]

theorem rpop_eq_self_iff
    : (LogicalMap.rpop map now key).map = map
      ↔ (Record.rpop key).Redundant capacity now map := by
  simp only [LogicalMap.rpop, Record.Redundant]
  rcases LogicalMap.expire_cases map now key with
    ⟨found, same⟩ | ⟨binding, found, expired, gone⟩ | ⟨⟨content, expireAt⟩, found, live, same⟩
  · rw [same, found]
    simp [Outcome.silent]
  · simp only [gone, Finmap.lookup_erase, found, expired, Bool.true_eq_false, false_and, iff_false]
    exact ne_of_expired found expired lookup_erase_fresh
  · rw [same, found]
    cases content with
    | list items =>
        simp only [live, true_and]
        cases last : items.getLast? with
        | none =>
            have empty := List.getLast?_eq_none_iff.mp last
            simp [Outcome.silent, empty]
        | some popped =>
            have nonempty : items ≠ [] := by
              rintro rfl
              simp at last
            have shorter : items.dropLast ≠ items := by
              intro same
              have lengths := congrArg List.length same
              rw [List.length_dropLast] at lengths
              have positive := List.length_pos_iff.mpr nonempty
              omega
            simp only
            split
            · simp [erase_eq_self_iff, found, nonempty]
            · simp [Outcome.recorded, insert_eq_self_iff, found, nonempty, Ne.symm shorter]
    | _ => simp [Outcome.silent, live]

theorem sadd_eq_self_iff
    : (LogicalMap.sadd map capacity now key value).map = map
      ↔ (Record.sadd key value).Redundant capacity now map := by
  simp only [LogicalMap.sadd, Record.Redundant]
  rcases LogicalMap.expire_cases map now key with
    ⟨found, same⟩ | ⟨binding, found, expired, gone⟩ | ⟨⟨content, expireAt⟩, found, live, same⟩
  · rw [same, found]
    cases limit : LogicalMap.full map capacity with
    | true => simp [Outcome.silent]
    | false => simp [Outcome.recorded, insert_eq_self_iff, found]
  · simp only [gone, Finmap.lookup_erase, found, expired, Bool.true_eq_false, false_and, iff_false]
    split
    · exact ne_of_expired found expired lookup_erase_fresh
    · exact ne_of_expired found expired lookup_insert_fresh
  · rw [same, found]
    cases content with
    | set members =>
        by_cases present : value ∈ members
        · simp [Outcome.silent, live, present]
        · have grown : insert value members ≠ members :=
            fun same => present (Finset.insert_eq_self.mp same)
          simp [Outcome.recorded, insert_eq_self_iff, found, present, live, Ne.symm grown]
    | _ => simp [Outcome.silent, live]

theorem srem_eq_self_iff
    : (LogicalMap.srem map now key value).map = map
      ↔ (Record.srem key value).Redundant capacity now map := by
  simp only [LogicalMap.srem, Record.Redundant]
  rcases LogicalMap.expire_cases map now key with
    ⟨found, same⟩ | ⟨binding, found, expired, gone⟩ | ⟨⟨content, expireAt⟩, found, live, same⟩
  · rw [same, found]
    simp [Outcome.silent]
  · simp only [gone, Finmap.lookup_erase, found, expired, Bool.true_eq_false, false_and, iff_false]
    exact ne_of_expired found expired lookup_erase_fresh
  · rw [same, found]
    cases content with
    | set members =>
        by_cases present : value ∈ members
        · have shrunk : members.erase value ≠ members :=
            fun same => Finset.erase_eq_self.mp same present
          simp only [present, if_true]
          split
          · simp [erase_eq_self_iff, found, present]
          · simp [Outcome.recorded, insert_eq_self_iff, found, present, Ne.symm shrunk]
        · simp [Outcome.silent, live, present]
    | _ => simp [Outcome.silent, live]

theorem setDeadline_eq_self_iff (expireAtMs : Int64)
    : LogicalMap.setDeadline map key expireAtMs = map
      ↔ (Record.pexpireat key expireAtMs).Redundant capacity now map := by
  simp only [LogicalMap.setDeadline, Record.Redundant]
  cases found : map.lookup key with
  | none => simp
  | some binding =>
      obtain ⟨content, expireAt⟩ := binding
      simp [insert_eq_self_iff, found]

end

/-- A record has no effect exactly when it is redundant. -/
theorem Record.apply_eq_self_iff (record : Record) (capacity : Nat) (now : Int64)
    (map : LogicalMap)
    : record.apply capacity now map = map ↔ record.Redundant capacity now map := by
  cases record with
  | set key value => exact set_eq_self_iff capacity now value
  | delete key => exact delete_eq_self_iff capacity now
  | lpush key value => exact lpush_eq_self_iff capacity now value
  | rpop key => exact rpop_eq_self_iff capacity now
  | sadd key value => exact sadd_eq_self_iff capacity now value
  | srem key value => exact srem_eq_self_iff capacity now value
  | pexpireat key expireAtMs => exact setDeadline_eq_self_iff capacity now expireAtMs

-- Recovery from a cut log

/-- The records that a run from an empty store with a log writes. -/
def recordsOfRun (maxCapacity : Nat) (calls : List Call) : List Record :=
  (History.run maxCapacity true (.start ∅) calls).written

theorem Store.Blank.log_of_run {start : Store} {maxCapacity : Nat} {property : CString → Prop}
    (blank : start.Blank maxCapacity) {calls : List Call}
    (carries : ∀ call ∈ calls, call.Carries property)
    : (start.run calls).2.aof.log = encode (recordsOfRun maxCapacity calls) := by
  have log := blank.log_of_tracks (Store.run_tracks blank.wellFormed blank.unlimited carries)
  rwa [blank.maxCapacity, blank.atStart, Option.isSome_some, blank.logical] at log

/-- Replaying the log of a run up to any byte gives the map of the records that are whole
exactly when what is left of the next record does not parse or is redundant there.
-/
theorem replay_tornLog_iff {bucketCount replayBuckets : Nat} (positive : 0 < bucketCount)
    (replayPositive : 0 < replayBuckets) (maxCapacity replayCapacity : Nat) (path : CString)
    (prng replayPrng : UInt32) {env : CallEnv} (clean : env.Clean) (lineEnvs : Nat → CallEnv)
    (replayTime : Int64) (calls : List Call)
    (oneLine : ∀ call ∈ calls, call.Carries (fun value => lf ∉ value.bytes)) (cut : Nat)
    : ∃ start, kvInitFull bucketCount maxCapacity 0 (some path) [] prng env lineEnvs = .ok start
        ∧ (start.run calls).2.aof.log = encode (recordsOfRun maxCapacity calls)
        ∧ (recoveredMap replayBuckets replayCapacity replayPrng replayTime
              ((start.run calls).2.aof.log.take cut)
            = recoveredMap replayBuckets replayCapacity replayPrng replayTime
                (encode (wholeRecords (recordsOfRun maxCapacity calls) cut))
          ↔ ∀ record, parseLine (tornTail (recordsOfRun maxCapacity calls) cut) = some record →
              record.Redundant replayCapacity replayTime
                (recoveredMap replayBuckets replayCapacity replayPrng replayTime
                  (encode (wholeRecords (recordsOfRun maxCapacity calls) cut)))) := by
  obtain ⟨start, opened, blank⟩ :=
    kvInitFull_blank positive maxCapacity path prng clean lineEnvs
  have tracks := Store.run_tracks blank.wellFormed blank.unlimited oneLine
  rw [blank.maxCapacity, blank.atStart, Option.isSome_some, blank.logical] at tracks
  have log := blank.log_of_run oneLine
  refine ⟨start, opened, log, ?_⟩
  have written : ∀ record ∈ recordsOfRun maxCapacity calls, record.OneLine :=
    fun record member => tracks.logged record (List.mem_of_mem_filter member)
  obtain ⟨noLf, short⟩ := tornTail_line written cut
  rw [log, take_encode, recoveredMap_torn replayPositive replayCapacity replayPrng replayTime
    (fun record member => written record ((wholeRecords_begins _ cut).subset member)) noLf short]
  cases parsed : parseLine (tornTail (recordsOfRun maxCapacity calls) cut) with
  | none => simp
  | some record => simp [Record.apply_eq_self_iff]

/-- A log cut inside a command word: nothing is left that parses. -/
theorem replay_tornLog_iff_word
    : ∃ start, kvInitFull 1 0 0 (some ⟨[97], by decide⟩) [] 7 (.at 0) (fun _ => .at 0)
          = .ok start
        ∧ recoveredMap 1 0 7 9
            ((start.run
              [⟨.op (.set (some ⟨[107], by decide⟩) (some ⟨[97, 98], by decide⟩)), .at 1, 0⟩]
              ).2.aof.log.take 2)
          = recoveredMap 1 0 7 9 [] := by
  obtain ⟨start, opened, _, torn⟩ := replay_tornLog_iff (by decide : 0 < 1) (by decide : 0 < 1)
    0 0 ⟨[97], by decide⟩ 7 7 (CallEnv.clean_at 0) (fun _ => .at 0) 9
    [⟨.op (.set (some ⟨[107], by decide⟩) (some ⟨[97, 98], by decide⟩)), .at 1, 0⟩]
    (by simp [Call.carries_op, Op.value, lf]) 2
  have whole : encode (wholeRecords (recordsOfRun 0
      [⟨.op (.set (some ⟨[107], by decide⟩) (some ⟨[97, 98], by decide⟩)), .at 1, 0⟩]) 2)
      = [] := by decide
  have unparsed : parseLine (tornTail (recordsOfRun 0
      [⟨.op (.set (some ⟨[107], by decide⟩) (some ⟨[97, 98], by decide⟩)), .at 1, 0⟩]) 2)
      = none := by decide
  rw [whole] at torn
  exact ⟨start, opened, torn.mpr (by simp [unparsed])⟩

/-- A log of one record that sets `k` to `ab`, cut off within the value: the key that no
whole record binds is bound to half of the value.
-/
theorem replay_binds_torn_value
    : ∃ start, kvInitFull 1 0 0 (some ⟨[97], by decide⟩) [] 7 (.at 0) (fun _ => .at 0)
          = .ok start
        ∧ wholeRecords (recordsOfRun 0
            [⟨.op (.set (some ⟨[107], by decide⟩) (some ⟨[97, 98], by decide⟩)), .at 1, 0⟩]) 7
          = []
        ∧ (recoveredMap 1 0 7 9
            ((start.run
              [⟨.op (.set (some ⟨[107], by decide⟩) (some ⟨[97, 98], by decide⟩)), .at 1, 0⟩]
              ).2.aof.log.take 7)).lookup ⟨[107], by decide⟩
          = some ⟨.string ⟨[97], by decide⟩, 0⟩
        ∧ (recoveredMap 1 0 7 9 []).lookup ⟨[107], by decide⟩ = none := by
  refine ⟨_, rfl, ?_, ?_, ?_⟩
  · decide
  · decide +kernel
  · decide

-- The map of the whole records

/-- One call adds at most one record. -/
theorem History.step_logged (capacity : Nat) (history : History) (call : Call)
    : ∃ more, (History.step capacity true history call).2.logged = history.logged ++ more
        ∧ more.length ≤ 1 := by
  simp only [History.step]
  split
  · next op _ =>
      refine ⟨_, rfl, ?_⟩
      rcases @Op.outcome_accounted history.map capacity call.env.now op true with
        ⟨nothing, _⟩ | ⟨record, logged, _⟩
      · simp [nothing]
      · simp [logged]
  · exact ⟨[], by simp, by simp⟩

theorem History.run_logged (capacity : Nat) (history : History) (calls : List Call)
    : history.logged <+: (History.run capacity true history calls).logged := by
  refine @Foundations.Runs.run_invariant _ _ _ (History.step capacity true) (fun _ => True)
    (fun later => history.logged <+: later.logged) ?_ history (List.prefix_refl _) calls
    (fun _ _ => trivial)
  intro later call held _
  obtain ⟨more, stepped, _⟩ := History.step_logged capacity later call
  rw [stepped]
  exact held.trans (List.prefix_append _ _)

/-- Every beginning of the records of a run is what a beginning of the run logs, by induction on the
calls.
-/
theorem History.run_logged_begins {capacity : Nat} {calls : List Call} {history : History}
    {records : List Record} (held : history.logged <+: records)
    (part : records <+: (History.run capacity true history calls).logged)
    : ∃ early, early <+: calls ∧ (History.run capacity true history early).logged = records := by
  induction calls generalizing history with
  | nil => exact ⟨[], List.nil_prefix, held.eq_of_length_le part.length_le⟩
  | cons call rest ih =>
      obtain ⟨more, stepped, short⟩ := History.step_logged capacity history call
      have later := History.run_logged capacity (History.step capacity true history call).2 rest
      by_cases reached :
          (History.step capacity true history call).2.logged.length ≤ records.length
      · obtain ⟨early, beginning, logged⟩ :=
          ih (List.prefix_of_prefix_length_le later part reached) part
        exact ⟨call :: early, List.cons_prefix_cons.mpr ⟨rfl, beginning⟩, logged⟩
      · rw [stepped, List.length_append] at reached
        exact ⟨[], List.nil_prefix, held.eq_of_length_le (by omega)⟩

/-- When a run is recoverable, the map of the records that a cut leaves whole is the live map after
some of the calls.
-/
theorem Store.Blank.recovers_whole {start : Store} {maxCapacity replayBuckets : Nat}
    (blank : start.Blank maxCapacity) (replayPositive : 0 < replayBuckets) (replayPrng : UInt32)
    {replayTime : Int64} {calls : List Call}
    (recoverable : ∀ call ∈ calls, call.Recoverable replayTime)
    (fit : ∀ record ∈ (History.run maxCapacity true (.start ∅) calls).logged,
      record.fits = true)
    (cut : Nat)
    : ∃ early, early <+: calls
        ∧ recoveredMap replayBuckets maxCapacity replayPrng replayTime
            (encode (wholeRecords (recordsOfRun maxCapacity calls) cut))
          = (start.run early).2.table.logical := by
  let whole := wholeRecords (recordsOfRun maxCapacity calls) cut
  have part : whole <+: (History.run maxCapacity true (.start ∅) calls).logged := by
    rw [← History.written_of_fits fit]
    exact wholeRecords_begins _ cut
  obtain ⟨early, beginning, logged⟩ := @History.run_logged_begins maxCapacity calls (.start ∅) whole
    List.nil_prefix part
  have earlyRecoverable : ∀ call ∈ early, call.Recoverable replayTime :=
    fun call member => recoverable call (beginning.subset member)
  have earlyFit : ∀ record ∈ (History.run maxCapacity true (.start ∅) early).logged,
      record.fits = true :=
    fun record member => fit record (part.subset (logged ▸ member))
  have log := blank.log_of_run (fun call member => (earlyRecoverable call member).carries)
  rw [recordsOfRun, History.written_of_fits earlyFit, logged] at log
  refine ⟨early, beginning, ?_⟩
  rw [← blank.recovers replayPositive replayPrng earlyRecoverable earlyFit, log]

end MiniKv
