import MiniKv.Invariants.Files
import MiniKv.Invariants.Reachable
import MiniKv.Refinement.Logs

/-! Undoing a log record. `kv_set` and `kv_delete` write their record first and cut the file back
to the position the stream reported before when the mutation is rejected. A stream that was
opened in append mode reports position zero until its first write.
-/

namespace MiniKv

/-- The codes with which a valid mutation that reached the log is rejected. -/
def rejections : List Int :=
  [kvErrNotFound, kvErrWrongType, kvErrCapacityFull, kvErrBudgetExceeded]

theorem rejections_ne {code : Int} (rejected : code ∈ rejections)
    : code ≠ kvOk ∧ code ≠ kvErrIo ∧ code ≠ kvErrInvalidParam := by
  revert code
  decide

/-- Argument checks have codes of their own. -/
theorem argumentErrors_not_rejections {err : Int} (refused : err ∈ argumentErrors)
    : err ∉ rejections := by
  revert err
  decide

variable {store : Store} {env : CallEnv}

/-- A rejected mutation without a log touches no file; with one, it cuts the file to where the
stream stood.
-/
def Aof.CutBack (before after : Aof) : Prop :=
  (before.fp = none ∧ after.log = before.log)
    ∨ ∃ pos record, before.fp = some pos ∧ after.log = ftruncate (before.log ++ record) pos

/-- Writing a record and rolling it back. -/
theorem Aof.cutBack_rollback {aof : Aof} {record : List UInt8} {pos : Nat}
    (opened : aof.fp = some pos) (written : (aof.writeAofRecord record .ok).1 = kvOk)
    : aof.CutBack
        ((aof.writeAofRecord record .ok).2.2.rollbackAofRecord
          (aof.writeAofRecord record .ok).2.1) := by
  rcases aof.writeAofRecord_cases record with
    ⟨missing, broadcasts, shape⟩ | ⟨other, broadcasts, same, fits, shape⟩
      | ⟨other, same, long, shape⟩
  · simp [missing] at opened
  · rw [shape]
    exact .inr ⟨other, record, same, rfl⟩
  · rw [shape] at written
    simp [kvErrIo, kvOk] at written

theorem kvSet_cutBack (clean : env.Clean) {key value : Option CString}
    (rejected : (kvSet store key value env).1 ∈ rejections)
    : store.aof.CutBack (kvSet store key value env).2.aof := by
  have codes := rejections_ne rejected
  simp only [kvSet] at rejected codes ⊢
  cases checkedKey : validateKey key with
  | error err =>
      simp only [checkedKey] at rejected
      exact absurd rejected
        (argumentErrors_not_rejections (validateKey_error checkedKey))
  | ok validKey =>
      cases checkedValue : validateValue value with
      | error err =>
          simp only [checkedKey, checkedValue] at rejected
          exact absurd rejected
            (argumentErrors_not_rejections (validateValue_error checkedValue))
      | ok validValue =>
          simp only [checkedKey, checkedValue, clean.2] at codes ⊢
          cases opened : store.aof.fp with
          | none =>
              simp only [opened, if_true] at codes ⊢
              exact .inl ⟨opened, congrArg Aof.log (kvSetInternal_failed codes.1)⟩
          | some pos =>
              simp only [opened, reduceCtorEq, if_false] at codes ⊢
              by_cases written : (store.aof.writeAofRecord
                  (formatRecord .set validKey.bytes (some validValue.bytes)) .ok).1 = kvOk
              · simp only [written, ne_eq, not_true_eq_false, if_false] at codes ⊢
                split
                · next failed =>
                    simp only [kvSetInternal_failed failed]
                    exact Aof.cutBack_rollback opened written
                · next succeeded =>
                    simp [succeeded] at codes
              · simp only [ne_eq, written, not_false_eq_true, if_true] at codes
                rw [Aof.writeAofRecord_status] at written codes
                split at written
                · next long => simp [long] at codes
                · exact absurd rfl written

theorem kvDelete_cutBack (clean : env.Clean) {key : Option CString}
    (rejected : (kvDelete store key env).1 ∈ rejections)
    : store.aof.CutBack (kvDelete store key env).2.aof := by
  have codes := rejections_ne rejected
  simp only [kvDelete] at codes ⊢
  cases checkedKey : validateKey key with
  | error err => simp [checkedKey] at codes
  | ok validKey =>
      simp only [checkedKey, clean.2] at codes ⊢
      cases opened : store.aof.fp with
      | none =>
          simp only [opened, if_true] at codes ⊢
          exact .inl ⟨opened, congrArg Aof.log (kvDeleteInternal_failed codes.1)⟩
      | some pos =>
          simp only [opened, reduceCtorEq, if_false] at codes ⊢
          by_cases written : (store.aof.writeAofRecord
              (formatRecord .delete validKey.bytes none) .ok).1 = kvOk
          · simp only [written, ne_eq, not_true_eq_false, if_false] at codes ⊢
            split
            · next failed =>
                simp only [kvDeleteInternal_failed failed]
                exact Aof.cutBack_rollback opened written
            · next succeeded =>
                simp [succeeded] at codes
          · simp only [ne_eq, written, not_false_eq_true, if_true] at codes
            rw [Aof.writeAofRecord_status] at written codes
            split at written
            · next long => simp [long] at codes
            · exact absurd rfl written

theorem length_ftruncate (file : List UInt8) (length : Nat)
    : (ftruncate file length).length = length := by
  simp [ftruncate]
  omega

/-- Cutting back restores the file exactly when the stream stood at its end. -/
theorem Aof.CutBack.log_eq_iff {before after : Aof} (cut : before.CutBack after)
    : after.log = before.log ↔ before.fp = none ∨ before.fp = some before.log.length := by
  rcases cut with ⟨missing, same⟩ | ⟨pos, record, opened, truncated⟩
  · simp [missing, same]
  · rw [truncated, opened]
    simp only [reduceCtorEq, Option.some.injEq, false_or]
    refine ⟨fun same => ?_, ?_⟩
    · have lengths := congrArg List.length same
      rwa [length_ftruncate] at lengths
    · rintro rfl
      simp [ftruncate]

/-- A stream stands at the end of its file, or nothing was written to it since it was opened. -/
def Aof.Known (aof : Aof) : Prop :=
  aof.fp = none ∨ aof.fp = some 0 ∨ aof.fp = some aof.log.length

theorem Aof.Known.congr {aof other : Aof} (known : aof.Known) (fp : other.fp = aof.fp)
    (log : other.log = aof.log)
    : other.Known := by
  rwa [Aof.Known, fp, log]

/-- A write leaves the stream where it was or at the end, also when it fails. -/
theorem Aof.Known.writeAofRecord {aof : Aof} (known : aof.Known) (record : List UInt8)
    (io : IoOutcome)
    : (aof.writeAofRecord record io).2.2.Known := by
  have atEnd : ∀ written : List UInt8, ∀ broadcasts : List (List UInt8),
      Aof.Known { aof with
        log := aof.log ++ written
        fp := some (aof.log.length + written.length)
        broadcasts } := by
    intro written broadcasts
    exact .inr (.inr (by simp))
  simp only [Aof.writeAofRecord]
  by_cases fits : record.length < aofRecordBufSize
  · simp only [fits, if_true]
    split
    · exact known.congr rfl rfl
    · split
      · exact known.congr rfl rfl
      · exact atEnd record _
      · exact atEnd (record.take _) _
  · simp only [fits, if_false]
    split
    · exact known
    · split <;> exact known

theorem Aof.Known.rollback {aof : Aof} (known : aof.Known) (pos : Option Nat)
    : (aof.rollbackAofRecord pos).Known := by
  cases opened : aof.fp with
  | none => simpa only [Aof.rollbackAofRecord, opened] using known
  | some old =>
      cases pos with
      | none => simpa only [Aof.rollbackAofRecord, opened] using known
      | some pos =>
          simp only [Aof.rollbackAofRecord, opened]
          exact .inr (.inr (by simp only [length_ftruncate]))

theorem Aof.known_stable : Aof.Stable Aof.Known where
  append aof data allocated known :=
    known.congr (aof.appendAofRewriteBuffer_stream data allocated).1
      (aof.appendAofRewriteBuffer_stream data allocated).2.1
  write _ record io known := known.writeAofRecord record io
  rollback _ pos known := known.rollback pos

theorem Upkeep.call_known (upkeep : Upkeep) (known : store.aof.Known)
    : (upkeep.call env store).2.aof.Known := by
  cases upkeep with
  | discardAofRewrite => exact known.congr rfl rfl
  | bgrewriteaof pid =>
      simp only [Upkeep.call, Prod.map_snd, id_eq, kvBgrewriteaof]
      split_ifs
      · exact known
      · exact known
      all_goals exact known.congr rfl rfl
  | mergeAofRewrite childPid outcome =>
      simp only [Upkeep.call, Prod.map_snd, id_eq, kvMergeAofRewrite]
      split_ifs
      · exact known
      · exact known
      · cases outcome with
        | ok => exact .inr (.inl rfl)
        | openFailed => exact known.congr rfl rfl
        | writeFailed written => exact known.congr rfl rfl
        | flushFailed written => exact .inr (.inl rfl)
        | renameFailed => exact .inl rfl
        | reopenFailed => exact .inl rfl
  | _ => exact known

/-- Whatever is called on a store that was opened, and whatever fails, the stream stands at the
end of the file or was not written to since it was opened.
-/
theorem Store.run_known {bucketCount maxCapacity maxMemoryBudget : Nat}
    {path : Option CString} {log : List UInt8} {prng : UInt32} {lineEnvs : Nat → CallEnv}
    {start : Store}
    (opened : kvInitFull bucketCount maxCapacity maxMemoryBudget path log prng env lineEnvs
      = .ok start)
    (calls : List Call)
    : (start.run calls).2.aof.Known := by
  have first : start.aof.Known := by
    obtain ⟨_, ⟨_, rfl⟩ | ⟨name, _, rfl⟩⟩ := kvInitFull_ok opened
    · exact .inl rfl
    · exact .inr (.inl rfl)
  refine @Foundations.Runs.run_invariant _ _ _ Store.step (fun _ => True)
    (fun store => store.aof.Known) ?_ start first calls (fun _ _ => trivial)
  intro store call known _
  simp only [Store.step]
  split
  · next op _ => exact op.call_stable Aof.known_stable known
  · next upkeep _ => exact upkeep.call_known known

/-- At every point of every run from `kv_init_full` on any log, a `kv_set` or `kv_delete` that is
rejected leaves the file as it was exactly when it does not meet a non-empty file through a
stream that still reports position zero.
-/
theorem run_rejected_keeps_log_iff {bucketCount maxCapacity maxMemoryBudget : Nat}
    {path : Option CString} {log : List UInt8} {prng : UInt32} {lineEnvs : Nat → CallEnv}
    {start : Store}
    (opened : kvInitFull bucketCount maxCapacity maxMemoryBudget path log prng env lineEnvs
      = .ok start)
    (calls : List Call) {call : Call} (clean : call.env.Clean) {op : Op}
    (action : call.action = .op op)
    (mutation : (∃ key value, op = .set key value) ∨ ∃ key, op = .delete key) {code : Int}
    (rejected : code ∈ rejections)
    (reply : ((start.run calls).2.step call).1 = .status code)
    : ((start.run calls).2.step call).2.aof.log = (start.run calls).2.aof.log
      ↔ ((start.run calls).2.aof.fp = some 0 → (start.run calls).2.aof.log = []) := by
  have known := Store.run_known opened calls
  generalize (start.run calls).2 = store at known reply ⊢
  have cut : store.aof.CutBack (store.step call).2.aof := by
    simp only [Store.step, action] at reply ⊢
    rcases mutation with ⟨key, value, rfl⟩ | ⟨key, rfl⟩
    · exact @kvSet_cutBack ⟨_, store.aof⟩ call.env clean key value
        (Reply.status.inj reply ▸ rejected)
    · exact @kvDelete_cutBack ⟨_, store.aof⟩ call.env clean key
        (Reply.status.inj reply ▸ rejected)
  rw [cut.log_eq_iff]
  rcases known with none | zero | atEnd
  · simp [none]
  · simp [zero, eq_comm]
  · simp [atEnd]

/-- Deleting a missing key from a store that has written a record since it was opened. -/
theorem run_rejected_keeps_log_iff_written
    : ∃ start, kvInitFull 1 0 0 (some ⟨[97], by decide⟩) [] 7 (.at 0) (fun _ => .at 0)
          = .ok start
        ∧ (((start.run
              [⟨.op (.set (some ⟨[107], by decide⟩) (some ⟨[97], by decide⟩)), .at 1, 0⟩]).2.step
            ⟨.op (.delete (some ⟨[106], by decide⟩)), .at 2, 0⟩).2.aof.log
          = (start.run
              [⟨.op (.set (some ⟨[107], by decide⟩) (some ⟨[97], by decide⟩)), .at 1, 0⟩]
              ).2.aof.log) := by
  refine ⟨_, rfl, ?_⟩
  refine (@run_rejected_keeps_log_iff (.at 0) 1 0 0 (some ⟨[97], by decide⟩) [] 7
    (fun _ => .at 0) _ rfl
    [⟨.op (.set (some ⟨[107], by decide⟩) (some ⟨[97], by decide⟩)), .at 1, 0⟩]
    ⟨.op (.delete (some ⟨[106], by decide⟩)), .at 2, 0⟩ (CallEnv.clean_at 2) _ rfl
    (.inr ⟨_, rfl⟩) kvErrNotFound (by decide) ?_).mpr ?_
  · decide +kernel
  · decide +kernel

/-- A store that was reopened on the log of one record: deleting a missing key erases the log. -/
theorem rejected_delete_erases_log
    : ∃ start, kvInitFull 1 0 0 (some ⟨[97], by decide⟩)
            (Record.set ⟨[107], by decide⟩ ⟨[97], by decide⟩).bytes 7 (.at 0) (fun _ => .at 0)
          = .ok start
        ∧ start.aof.log = (Record.set ⟨[107], by decide⟩ ⟨[97], by decide⟩).bytes
        ∧ (start.step ⟨.op (.delete (some ⟨[106], by decide⟩)), .at 2, 0⟩).1
          = .status kvErrNotFound
        ∧ (start.step ⟨.op (.delete (some ⟨[106], by decide⟩)), .at 2, 0⟩).2.aof.log = [] := by
  refine ⟨_, rfl, ?_, ?_, ?_⟩
  · decide +kernel
  · decide +kernel
  · decide +kernel

end MiniKv
