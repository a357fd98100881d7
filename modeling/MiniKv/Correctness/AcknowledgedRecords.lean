import MiniKv.Invariants.Mutations
import MiniKv.Invariants.Reachable

/-! Which calls that report success have their record in the log file. `kv_set` and `kv_delete` look
at the status of `write_aof_record` before they go on; the other operations ignore it.
-/

namespace MiniKv

variable {store : Store} {env : CallEnv} {op : Op}

-- One write

/-- All bytes of a record of this length reach the file, whatever is reported. -/
def IoOutcome.completes : IoOutcome → Nat → Bool
  | .ok, _ => true
  | .refused, _ => false
  | .failed written, length => length ≤ written

/-- A record is in the file exactly when it fits the buffer it is formatted in and all of it is
written.
-/
theorem Aof.writeAofRecord_log_iff {aof : Aof} (opened : aof.fp ≠ none) {record : List UInt8}
    (nonempty : record ≠ []) (io : IoOutcome)
    : (aof.writeAofRecord record io).2.2.log = aof.log ++ record
      ↔ record.length < aofRecordBufSize ∧ io.completes record.length = true := by
  obtain ⟨pos, position⟩ := Option.ne_none_iff_exists'.mp opened
  have absent : aof.log ≠ aof.log ++ record := fun same => nonempty (by simpa using same)
  by_cases fits : record.length < aofRecordBufSize
  · cases io with
    | refused => simp [Aof.writeAofRecord, fits, position, IoOutcome.completes, nonempty]
    | _ => simp [Aof.writeAofRecord, fits, position, IoOutcome.completes]
  · cases io <;> simp [Aof.writeAofRecord, fits, position, nonempty]

-- Calls that report success

/-- A `kv_set` or `kv_delete` that returns `KV_OK` has met no write error. -/
theorem Mutation.call_ok_io (mutation : Mutation) (opened : store.aof.fp ≠ none)
    (ok : (mutation.call env store).1 = kvOk)
    : env.io = .ok := by
  have prepared := mutation.prepare_aof env store
  rw [mutation.call_eq] at ok
  cases checked : mutation.check with
  | error err =>
      rw [checked] at ok
      exact absurd ok (Mutation.check_error checked)
  | ok _ =>
      rw [checked, mutation.append_opened env (prepared ▸ opened), prepared] at ok
      by_cases written : (store.aof.writeAofRecord mutation.record env.io).1 = kvOk
      · exact Aof.writeAofRecord_ok opened written
      · simp only [if_pos written] at ok
        exact absurd ok written

theorem Op.call_first_io {record : Record} (stands : op.record env.now = some record)
    (first : op.logsFirst = true) (opened : store.aof.fp ≠ none)
    (succeeded : op.succeeded (op.call env store).1 = true)
    : env.io = .ok := by
  cases op with
  | set key value =>
      cases key with
      | none => simp [Op.record] at stands
      | some key =>
          cases value with
          | none => simp [Op.record] at stands
          | some value =>
              exact (Mutation.set key value).call_ok_io opened (of_decide_eq_true succeeded)
  | delete key =>
      cases key with
      | none => simp [Op.record] at stands
      | some key => exact (Mutation.delete key).call_ok_io opened (of_decide_eq_true succeeded)
  | _ => contradiction

/-- What a call that reports success leaves in the file. -/
structure Op.Acknowledged (op : Op) (env : CallEnv) (store : Store) (record : Record) : Prop where
  stands : op.record env.now = some record
  valid : record.Valid
  fits : op.logsFirst = true → store.aof.fp ≠ none → record.bytes.length < aofRecordBufSize
  written : (op.call env store).2.aof
    = (store.aof.logRecord op record env).appendFragments env (op.appends env.now store.table) 0

theorem Aof.Written.recorded_of_succeeded
    (written : store.aof.Written op env store.table (op.call env store).1
      (op.call env store).2.aof)
    (succeeded : op.succeeded (op.call env store).1 = true)
    : ∃ record, op.Acknowledged env store record := by
  generalize after : (op.call env store).2.aof = file at written
  cases written with
  | untouched failed => exact absurd (failed.symm.trans succeeded) Bool.false_ne_true
  | undone _ _ _ failed => exact absurd (failed.symm.trans succeeded) Bool.false_ne_true
  | recorded stands _ valid fits => exact ⟨_, stands, valid, fits, after⟩

theorem Table.lpush_failed_negative {table : Table} {key value : CString} {status : Int}
    (failed : (table.lpush key value env).1 = .failed status)
    : status < 0 := by
  simp only [Table.lpush] at failed
  split at failed
  · next refused => exact Linking.failed.inj failed ▸ Table.openContainer_error refused
  · rcases Table.linkNode_cases _ key (sizeofListNode + value.length + 1)
        (pushFrontPayload value) env with
      ⟨code, negative, starved⟩ | freed | ⟨_, _, _, _, _, linked⟩
    · exact Linking.failed.inj (starved.symm.trans failed) ▸ negative
    · exact absurd (freed.symm.trans failed) (by simp)
    · exact absurd (linked.symm.trans failed) (by simp)

/-- A push that reports success has linked its node, however long the list is. -/
theorem kvLpush_recorded {key value : Option CString}
    (succeeded : (Op.lpush key value).succeeded ((Op.lpush key value).call env store).1 = true)
    : ∃ record, (Op.lpush key value).Acknowledged env store record := by
  cases key with
  | none => exact absurd succeeded Bool.false_ne_true
  | some key =>
      cases value with
      | none => exact absurd succeeded Bool.false_ne_true
      | some value =>
          have notNegative : ∀ {code : Int}, code < 0 →
              ((Op.lpush (some key) (some value)).call env store).1 ≠ .status code := by
            intro code negative replied
            rw [replied] at succeeded
            have positive : 0 < code := of_decide_eq_true succeeded
            omega
          rcases validate_cases key value with
            ⟨err, negative, _, refused | ⟨accepted, refused⟩⟩
              | ⟨validKey, validValue, accepted, acceptedValue⟩
          · exact absurd (by simp [Op.call, kvLpush, refused, Reply.ofResult])
              (notNegative negative)
          · exact absurd (by simp [Op.call, kvLpush, accepted, refused, Reply.ofResult])
              (notNegative negative)
          · cases linking : (store.table.lpush key value env).1 with
            | failed status =>
                exact absurd (by simp [Op.call, kvLpush, accepted, acceptedValue, linking,
                  Linking.reply, Reply.ofResult])
                  (notNegative (Table.lpush_failed_negative linking))
            | undefined =>
                have replied : ((Op.lpush (some key) (some value)).call env store).1
                    = .undefined := by
                  simp [Op.call, kvLpush, accepted, acceptedValue, linking, Linking.reply,
                    Reply.ofResult]
                rw [replied] at succeeded
                exact absurd succeeded Bool.false_ne_true
            | linked length =>
                refine ⟨.lpush key value, rfl,
                  ⟨validKey, fun _ held => Option.some.inj held ▸ validValue⟩,
                  fun first => absurd first Bool.false_ne_true, ?_⟩
                rw [← Aof.logAfter_eq rfl]
                simp only [Op.call, Prod.map, kvLpush, accepted, acceptedValue, linking]
                rfl

theorem Op.call_recorded (wf : store.table.WellFormed)
    (succeeded : op.succeeded (op.call env store).1 = true)
    : ∃ record, op.Acknowledged env store record := by
  cases op with
  | lpush key value => exact kvLpush_recorded succeeded
  | _ => exact (Op.call_written _ wf rfl).recorded_of_succeeded succeeded

/-- A call that reports success on a store with a log has appended its record exactly when it is
`kv_set` or `kv_delete`, or the record fits the formatting buffer and all of it was written.
-/
theorem acknowledged_record_logged_iff (wf : store.table.WellFormed)
    (opened : store.aof.fp ≠ none) (succeeded : op.succeeded (op.call env store).1 = true)
    : ∃ record, op.record env.now = some record ∧ record.Valid
        ∧ ((op.call env store).2.aof.log = store.aof.log ++ record.bytes
          ↔ op.logsFirst = true
            ∨ record.bytes.length < aofRecordBufSize
              ∧ env.io.completes record.bytes.length = true) := by
  obtain ⟨record, stands, valid, fits, written⟩ := Op.call_recorded wf succeeded
  have nonempty : record.bytes ≠ [] := by simp [Record.bytes_eq]
  refine ⟨record, stands, valid, ?_⟩
  rw [written, (Aof.appendFragments_stream _ _ _ _).2.1, Aof.logRecord_opened opened,
    Aof.writeAofRecord_log_iff opened nonempty]
  refine ⟨.inr, ?_⟩
  rintro (first | whole)
  · rw [Op.call_first_io stands first opened succeeded]
    exact ⟨fits first opened, rfl⟩
  · exact whole

/-- A push to a list whose write succeeds. -/
theorem acknowledged_record_logged_iff_push
    : ∃ start, kvInitFull 1 0 0 (some ⟨[102], by decide⟩) [] 7 (.at 0) (fun _ => .at 0) = .ok start
        ∧ ((Op.lpush (some ⟨[107], by decide⟩) (some ⟨[97], by decide⟩)).call (.at 0) start
            ).2.aof.log
          = start.aof.log ++ (Record.lpush ⟨[107], by decide⟩ ⟨[97], by decide⟩).bytes := by
  obtain ⟨start, isStart, opened, succeeded⟩ : ∃ start,
      kvInitFull 1 0 0 (some ⟨[102], by decide⟩) [] 7 (.at 0) (fun _ => .at 0) = .ok start
        ∧ start.aof.fp ≠ none
        ∧ (Op.lpush (some ⟨[107], by decide⟩) (some ⟨[97], by decide⟩)).succeeded
            ((Op.lpush (some ⟨[107], by decide⟩) (some ⟨[97], by decide⟩)).call (.at 0) start).1
          = true := by
    refine ⟨_, rfl, ?_, ?_⟩ <;> decide +kernel
  obtain ⟨record, stands, _, appended⟩ :=
    acknowledged_record_logged_iff (kvInitFull_keeps isStart).wellFormed opened succeeded
  obtain rfl := Option.some.inj stands
  exact ⟨start, isStart, appended.mpr (.inr ⟨by decide, rfl⟩)⟩

/-- With the write refused, a push returns the new length 1 and the log stays empty. -/
theorem acknowledged_push_not_logged
    : ∃ start, kvInitFull 1 0 0 (some ⟨[102], by decide⟩) [] 7 (.at 0) (fun _ => .at 0) = .ok start
        ∧ ((Op.lpush (some ⟨[107], by decide⟩) (some ⟨[97], by decide⟩)).call
            { CallEnv.at 0 with io := .refused } start).1 = .status 1
        ∧ ((Op.lpush (some ⟨[107], by decide⟩) (some ⟨[97], by decide⟩)).call
            { CallEnv.at 0 with io := .refused } start).2.aof.log = [] := by
  refine ⟨_, rfl, ?_, ?_⟩ <;> decide +kernel

end MiniKv
