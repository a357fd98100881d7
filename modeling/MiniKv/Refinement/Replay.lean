import MiniKv.Refinement.Calls
import MiniKv.Persistence.Codec

/-! Replaying a log into a store is applying its records to the logical map. -/

namespace MiniKv

variable {store : Store} {env : CallEnv}

/-- Replaying one valid record on the store is applying it to the logical map.
Witness: the operation behind each record matches the logical machine.
-/
theorem applyRecord_becomes (wf : store.table.WellFormed)
    (unlimited : store.table.maxMemoryBudget = 0) (clean : env.Clean) {record : Record}
    (valid : record.Valid)
    : store.table.Becomes (applyRecord store record env).table
        (record.apply store.table.maxCapacity env.now store.table.logical) := by
  cases record with
  | set key value =>
      have validKey : ValidKey key := valid.key
      simp only [applyRecord, Record.apply]
      rcases kvSetInternal_cases wf unlimited clean validKey (valid.value value rfl) with
        ⟨after, map, applied, becomes, outcome⟩ | ⟨err, failed, applied, outcome⟩
      · rw [applied, outcome]
        exact becomes
      · rw [applied, outcome]
        exact .refl wf
  | delete key =>
      have validKey : ValidKey key := valid.key
      simp only [applyRecord, Record.apply]
      rcases kvDeleteInternal_cases wf validKey env 0 with
        ⟨after, applied, becomes, outcome⟩ | ⟨applied, outcome⟩
      · rw [applied, outcome]
        exact becomes
      · rw [applied, outcome]
        exact .refl wf
  | lpush key value =>
      have validKey : ValidKey key := valid.key
      have becomes := (kvLpush_matches wf unlimited clean (some key) (some value)).table
      rw [Op.outcome, validateKey_of_valid validKey,
        validateValue_of_valid (valid.value value rfl)] at becomes
      exact becomes
  | rpop key => exact (kvRpop_matches wf clean (some key)).table
  | sadd key value =>
      have validKey : ValidKey key := valid.key
      have becomes := (kvSadd_matches wf unlimited clean (some key) (some value)).table
      rw [Op.outcome, validateKey_of_valid validKey,
        validateValue_of_valid (valid.value value rfl)] at becomes
      exact becomes
  | srem key value => exact (kvSrem_matches wf clean (some key) (some value)).table
  | pexpireat key expireAtMs => exact wf.setDeadline key expireAtMs

/-- Replaying lines applies the records that parse, by induction on the lines. -/
theorem replayLines_becomes (wf : store.table.WellFormed)
    (unlimited : store.table.maxMemoryBudget = 0) (now : Int64) (lines : List (List UInt8))
    (nth : Nat)
    : store.table.Becomes (replayLines (fun _ => .at now) lines nth store).table
        (applyRecords store.table.maxCapacity now (lines.filterMap parseLine)
          store.table.logical) := by
  induction lines generalizing store nth with
  | nil => exact .refl wf
  | cons line rest ih =>
      rw [replayLines]
      cases parsed : parseLine line with
      | none =>
          rw [List.filterMap_cons_none parsed, replayLine, parsed]
          exact ih wf unlimited (nth + 1)
      | some record =>
          rw [List.filterMap_cons_some parsed, replayLine, parsed]
          have first := applyRecord_becomes wf unlimited (CallEnv.clean_at now)
            (parseLine_valid parsed)
          have later := @ih (applyRecord store record (.at now)) first.wellFormed
            (first.maxMemoryBudget.trans unlimited) (nth + 1)
          rw [first.maxCapacity, first.logical] at later
          exact first.trans later

/-- Replaying lines and, when the last one was torn, whatever the torn line parses to. -/
theorem replayAofLog_torn (wf : store.table.WellFormed)
    (unlimited : store.table.maxMemoryBudget = 0) (now : Int64) {records : List Record}
    (oneLine : ∀ record ∈ records, record.OneLine) {torn : List UInt8} (noLf : lf ∉ torn)
    (fits : torn.length < replayLineRoom)
    : store.table.Becomes
        (replayAofLog store (encode records ++ torn) (fun _ => .at now)).table
        (applyRecords store.table.maxCapacity now
          ((records.map Record.bytes).filterMap parseLine ++ (parseLine torn).toList)
          store.table.logical) := by
  have lines : (readLines (encode records ++ torn)).filterMap parseLine
      = (records.map Record.bytes).filterMap parseLine ++ (parseLine torn).toList := by
    rw [readLines_encode oneLine noLf fits, List.filterMap_append]
    by_cases empty : torn = []
    · subst empty
      rfl
    · rw [if_neg empty]
      cases parsed : parseLine torn with
      | none => simp [parsed]
      | some record => simp [parsed]
  have becomes := replayLines_becomes wf unlimited now
    (readLines (encode records ++ torn)) 0
  rwa [lines] at becomes

/-- Replaying whole lines. -/
theorem replayAofLog_lines (wf : store.table.WellFormed)
    (unlimited : store.table.maxMemoryBudget = 0) (now : Int64) {records : List Record}
    (oneLine : ∀ record ∈ records, record.OneLine)
    : store.table.Becomes (replayAofLog store (encode records) (fun _ => .at now)).table
        (applyRecords store.table.maxCapacity now
          ((records.map Record.bytes).filterMap parseLine) store.table.logical) := by
  have becomes := @replayAofLog_torn store wf unlimited now records oneLine []
    List.not_mem_nil (by decide)
  have nothing : (parseLine []).toList = [] := rfl
  rwa [List.append_nil, nothing, List.append_nil] at becomes

/-- Replaying records that can be read back applies them. -/
theorem replayAofLog_encode (wf : store.table.WellFormed)
    (unlimited : store.table.maxMemoryBudget = 0) (now : Int64) {records : List Record}
    (readable : ∀ record ∈ records, record.Readable)
    : store.table.Becomes (replayAofLog store (encode records) (fun _ => .at now)).table
        (applyRecords store.table.maxCapacity now records store.table.logical) := by
  have whole : (records.map Record.bytes).filterMap parseLine = records := by
    rw [List.filterMap_map, List.filterMap_congr (g := some) (fun record member => ?_),
      List.filterMap_some]
    exact (readable record member).parseLine_bytes
  have becomes := replayAofLog_lines wf unlimited now
    (fun record member => (readable record member).oneLine)
  rwa [whole] at becomes

/-- The logical map that a fresh store has after replaying a file. -/
def recoveredMap (bucketCount maxCapacity : Nat) (prng : UInt32) (now : Int64)
    (file : List UInt8)
    : LogicalMap :=
  (replayAofLog (Store.fresh bucketCount maxCapacity 0 prng []) file
    (fun _ => .at now)).table.logical

theorem recoveredMap_encode {bucketCount : Nat} (positive : 0 < bucketCount)
    (maxCapacity : Nat) (prng : UInt32) (now : Int64) {records : List Record}
    (readable : ∀ record ∈ records, record.Readable)
    : recoveredMap bucketCount maxCapacity prng now (encode records)
      = applyRecords maxCapacity now records ∅ := by
  have becomes := @replayAofLog_encode (Store.fresh bucketCount maxCapacity 0 prng [])
    (Store.fresh_wellFormed positive maxCapacity 0 prng []) rfl now records readable
  rw [recoveredMap, becomes.logical, Store.fresh_logical]
  rfl

/-- A torn line is applied to the map of the whole lines before it. -/
theorem recoveredMap_torn {bucketCount : Nat} (positive : 0 < bucketCount)
    (maxCapacity : Nat) (prng : UInt32) (now : Int64) {records : List Record}
    (oneLine : ∀ record ∈ records, record.OneLine) {torn : List UInt8} (noLf : lf ∉ torn)
    (fits : torn.length < replayLineRoom)
    : recoveredMap bucketCount maxCapacity prng now (encode records ++ torn)
      = applyRecords maxCapacity now (parseLine torn).toList
          (recoveredMap bucketCount maxCapacity prng now (encode records)) := by
  let fresh := Store.fresh bucketCount maxCapacity 0 prng []
  have wf : fresh.table.WellFormed := Store.fresh_wellFormed positive maxCapacity 0 prng []
  have whole := replayAofLog_lines wf rfl now oneLine
  have cut := replayAofLog_torn wf rfl now oneLine noLf fits
  rw [recoveredMap, recoveredMap, whole.logical, cut.logical, applyRecords, List.foldl_append]
  rfl

end MiniKv
