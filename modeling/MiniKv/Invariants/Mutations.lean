import MiniKv.Invariants.Files
import MiniKv.Invariants.Operations
import MiniKv.Persistence.Codec
import MiniKv.Store.Threads

/-! What a call leaves in the append-only file, said once for all operations: nothing, a record that
was written and undone, or the record of a mutation that took effect.
-/

namespace MiniKv

open MiniKv.Foundations.Decimal
open MiniKv.Foundations.DoublyLinked

variable {table : Table} {store : Store} {env : CallEnv} {key value : CString}

/-- The length of the list after a push is still an `int`. -/
def Op.countFits (table : Table) : Op → Bool
  | .lpush (some key) (some _) =>
      match table.lookup key with
      | some { value := .list links, .. } => links.count + 1 < 2 ^ 31
      | _ => true
  | _ => true

/-- The operations that write their record also without an open log. -/
def Op.setsDeadline : Op → Bool
  | .pexpireat _ _ | .expire _ _ | .pexpire _ _ | .persist _ => true
  | _ => false

/-- The operations that write their record before they change the table. -/
def Op.logsFirst : Op → Bool
  | .set _ _ | .delete _ => true
  | _ => false

/-- The file once the record of a mutation is written, and before the rewrite buffer is. -/
def Aof.logRecord (aof : Aof) (op : Op) (record : Record) (env : CallEnv) : Aof :=
  if aof.fp = none ∧ op.setsDeadline = false then aof
  else (aof.writeAofRecord record.bytes env.io).2.2

/-- What a call that met `table` and the file `before` did to that file. A record that is written
first and was too long for the log ends the call.
-/
inductive Aof.Written (before : Aof) (op : Op) (env : CallEnv) (table : Table)
    (reply : Reply (List CString)) : Aof → Prop where
  | untouched (failed : op.succeeded reply = false) : Written before op env table reply before
  | undone {record : Record} (stands : op.record env.now = some record)
      (first : op.logsFirst = true) (opened : before.fp ≠ none)
      (failed : op.succeeded reply = false) (pos : Option Nat)
      : Written before op env table reply
          ((before.writeAofRecord record.bytes env.io).2.2.rollbackAofRecord pos)
  | recorded {record : Record} (stands : op.record env.now = some record)
      (succeeded : op.succeeded reply = true) (valid : record.Valid)
      (fits : op.logsFirst = true → before.fp ≠ none → record.bytes.length < aofRecordBufSize)
      : Written before op env table reply
          ((before.logRecord op record env).appendFragments env (op.appends env.now table) 0)

-- Pushing and adding

theorem toCInt_pos {count : Nat} (positive : 0 < count) (fits : count < 2 ^ 31)
    : 0 < toCInt count := by
  unfold toCInt
  rw [Int.bmod_def]
  have small : (count : Int) % ((2 ^ 32 : Nat) : Int) = count := by
    apply Int.emod_eq_of_lt
    · exact Int.natCast_nonneg count
    · norm_num
      omega
  rw [small]
  split
  · omega
  · next large =>
      norm_num at large
      omega

/-- Linking a node fails with a negative code, meets a freed container, or returns what `link`
returns for the container that is there.
-/
theorem Table.linkNode_cases (table : Table) (key : CString) (bytes : Nat)
    (link : Payload → Option (Payload × Int)) (env : CallEnv)
    : (∃ status, status < 0 ∧ (table.linkNode key bytes link env).1 = .failed status)
      ∨ (table.linkNode key bytes link env).1 = .undefined
      ∨ ∃ entry payload result, (table.makeRoom bytes).2.lookup key = some entry
          ∧ link entry.value = some (payload, result)
          ∧ (table.linkNode key bytes link env).1 = .linked result := by
  simp only [Table.linkNode]
  split
  · exact .inl ⟨_, by decide, rfl⟩
  · split
    · exact .inl ⟨_, by decide, rfl⟩
    · split
      · next payload result linked =>
          obtain ⟨entry, found, makes⟩ := Option.bind_eq_some_iff.mp linked
          exact .inr (.inr ⟨entry, payload, result, found, makes, rfl⟩)
      · exact .inr (.inl rfl)

theorem Table.WellFormed.lpush_cases (wf : table.WellFormed) (validKey : ValidKey key)
    (fits : (Op.lpush (some key) (some value)).countFits table = true)
    : (∃ status, status < 0 ∧ (table.lpush key value env).1 = .failed status)
      ∨ (table.lpush key value env).1 = .undefined
      ∨ ∃ length, 0 < length ∧ (table.lpush key value env).1 = .linked length := by
  have path := wf.openList validKey env
  simp only [Table.lpush]
  split
  · next err failed => exact .inl ⟨err, Table.openContainer_error failed, rfl⟩
  · next opened =>
      rcases Table.linkNode_cases _ key (sizeofListNode + value.length + 1)
          (pushFrontPayload value) env with
        failed | freed | ⟨entry, payload, length, found, links, linked⟩
      · exact .inl failed
      · exact .inr (.inl freed)
      · refine .inr (.inr ⟨length, ?_, linked⟩)
        have present := (Table.makeRoom_removals _ _).lookup (path.keeps wf).wellFormed found
        have origin := wf.openContainer_value validKey
          (show (Payload.list DList.empty).WellFormed from listWellFormed_empty) opened present
        cases shown : entry.value with
        | list list =>
            rw [shown] at links origin
            obtain ⟨_, rfl⟩ := Prod.mk.inj (Option.some.inj links)
            refine toCInt_pos (Nat.succ_pos list.count) ?_
            rcases origin with fresh | ⟨old, held, same⟩
            · rw [Payload.list.inj fresh]
              exact show 1 < 2 ^ 31 by decide
            · obtain ⟨_, _, _, _⟩ := old
              obtain rfl := same
              simp only [Op.countFits, held, decide_eq_true_eq] at fits
              exact fits
        | _ => simp [shown, pushFrontPayload] at links

theorem Table.sadd_cases (table : Table) (key value : CString) (env : CallEnv)
    : (∃ status, status ≤ 0 ∧ (table.sadd key value env).1 = .failed status)
      ∨ (table.sadd key value env).1 = .undefined
      ∨ (table.sadd key value env).1 = .linked 1 := by
  simp only [Table.sadd]
  split
  · next err failed => exact .inl ⟨err, (Table.openContainer_error failed).le, rfl⟩
  · split
    · split
      · exact .inl ⟨0, le_rfl, rfl⟩
      · rcases Table.linkNode_cases _ key (sizeofSetNode + value.length + 1)
            (addPayload value) env with
          ⟨status, negative, failed⟩ | freed | ⟨entry, payload, result, _, links, linked⟩
        · exact .inl ⟨status, negative.le, failed⟩
        · exact .inr (.inl freed)
        · cases shown : entry.value with
          | set chains =>
              rw [shown] at links
              obtain ⟨_, rfl⟩ := Prod.mk.inj (Option.some.inj links)
              exact .inr (.inr linked)
          | _ => simp [shown, addPayload] at links
    · exact .inr (.inl rfl)

-- The operations, one by one

theorem Aof.logRecord_closed {aof : Aof} {op : Op} (closed : aof.fp = none)
    (other : op.setsDeadline = false) (record : Record) (env : CallEnv)
    : aof.logRecord op record env = aof := by
  rw [Aof.logRecord, if_pos ⟨closed, other⟩]

theorem Aof.logRecord_opened {aof : Aof} (opened : aof.fp ≠ none) (op : Op) (record : Record)
    (env : CallEnv)
    : aof.logRecord op record env = (aof.writeAofRecord record.bytes env.io).2.2 := by
  rw [Aof.logRecord, if_neg (fun closed => opened closed.1)]

theorem Aof.logRecord_deadline {op : Op} (deadline : op.setsDeadline = true) (aof : Aof)
    (record : Record) (env : CallEnv)
    : aof.logRecord op record env = (aof.writeAofRecord record.bytes env.io).2.2 := by
  rw [Aof.logRecord, if_neg (by simp [deadline])]

/-- Logging after the fact is what the operations without a deadline do. -/
theorem Aof.logAfter_eq {op : Op} (other : op.setsDeadline = false) (aof : Aof)
    (record : Record) (env : CallEnv)
    : aof.logAfter record.bytes env = aof.logRecord op record env := by
  simp [Aof.logAfter, Aof.logRecord, other]

theorem Mutation.prepare_aof (mutation : Mutation) (env : CallEnv) (store : Store)
    : (mutation.prepare env store).aof = store.aof := by
  cases mutation <;> rfl

theorem Mutation.apply_stream (mutation : Mutation) (env : CallEnv) (store : Store)
    : (mutation.apply env store).2.aof.fp = store.aof.fp
      ∧ (mutation.apply env store).2.aof.log = store.aof.log
      ∧ (mutation.apply env store).2.aof.broadcasts = store.aof.broadcasts := by
  cases mutation with
  | set key value => exact kvSetInternal_stream store (some key) (some value) env
  | delete key => exact kvDeleteInternal_stream store (some key) env 0

theorem Mutation.check_error {mutation : Mutation} {err : Int}
    (refused : mutation.check = .error err)
    : err ≠ kvOk := by
  have named : err ∈ argumentErrors := by
    cases mutation with
    | set key value =>
        simp only [Mutation.check] at refused
        split at refused
        · next failed =>
            obtain rfl := Except.error.inj refused
            exact validateKey_error failed
        · cases checked : validateValue (some value) with
          | ok _ => simp [checked, Except.map] at refused
          | error other =>
              simp only [checked, Except.map, Except.error.injEq] at refused
              exact refused ▸ validateValue_error checked
    | delete key =>
        simp only [Mutation.check] at refused
        split at refused
        · obtain rfl := Except.error.inj refused
          decide
        · contradiction
  intro same
  rw [same] at named
  exact absurd named (by decide)

/-- The mutation as an operation. -/
def Mutation.op : Mutation → Op
  | .set key value => .set (some key) (some value)
  | .delete key => .delete (some key)

theorem Mutation.op_failed {code : Int} (failed : code ≠ kvOk) (mutation : Mutation)
    : mutation.op.succeeded (.status code) = false := by
  cases mutation <;> exact decide_eq_false failed

theorem Mutation.op_succeeded (mutation : Mutation)
    : mutation.op.succeeded (.status kvOk) = true := by
  cases mutation <;> rfl

theorem Mutation.op_record (mutation : Mutation) (now : Int64)
    : ∃ record, mutation.op.record now = some record ∧ record.bytes = mutation.record
        ∧ (mutation.check = .ok () → record.Valid) := by
  cases mutation with
  | set key value =>
      refine ⟨_, rfl, rfl, fun checked => ?_⟩
      rcases validate_cases key value with
        ⟨err, _, _, refused | ⟨accepted, refused⟩⟩ | ⟨validKey, validValue, _⟩
      · simp [Mutation.check, refused] at checked
      · simp [Mutation.check, accepted, refused, Except.map] at checked
      · exact ⟨validKey, fun _ held => Option.some.inj held ▸ validValue⟩
  | delete key =>
      refine ⟨_, rfl, rfl, fun checked => ?_⟩
      cases accepted : validateKey (some key) with
      | error err => simp [Mutation.check, accepted] at checked
      | ok valid =>
          obtain ⟨same, validKey⟩ := validateKey_eq_ok.mp accepted
          obtain rfl := Option.some.inj same
          exact .of_key validKey rfl

theorem Aof.writeAofRecord_fits {aof : Aof} {record : List UInt8} {io : IoOutcome}
    (opened : aof.fp ≠ none) (written : (aof.writeAofRecord record io).1 = kvOk)
    : record.length < aofRecordBufSize := by
  by_contra long
  obtain ⟨pos, position⟩ := Option.ne_none_iff_exists'.mp opened
  simp only [Aof.writeAofRecord, long, if_false, position] at written
  cases io <;> exact absurd written (show kvErrIo ≠ kvOk by decide)

theorem Aof.writeAofRecord_ok {aof : Aof} (opened : aof.fp ≠ none) {record : List UInt8}
    {io : IoOutcome} (written : (aof.writeAofRecord record io).1 = kvOk)
    : io = .ok := by
  obtain ⟨pos, position⟩ := Option.ne_none_iff_exists'.mp opened
  by_cases fits : record.length < aofRecordBufSize
  · cases io with
    | ok => rfl
    | _ => simp [Aof.writeAofRecord, fits, position, kvErrIo, kvOk] at written
  · exact absurd (Aof.writeAofRecord_fits opened written) fits

/-- A mutation that failed leaves the file alone; one that took effect appends its record to the
rewrite buffer.
-/
theorem Mutation.apply_aof (mutation : Mutation) (env : CallEnv) (store : Store) (table : Table)
    : ((mutation.apply env store).1 ≠ kvOk ∧ (mutation.apply env store).2.aof = store.aof)
      ∨ (mutation.apply env store).1 = kvOk
        ∧ (mutation.apply env store).2.aof
          = store.aof.appendFragments env (mutation.op.appends env.now table) 0 := by
  cases mutation with
  | set key value =>
      rcases kvSetInternal_aof store (some key) (some value) env with
        failed | ⟨ok, _, _, sameKey, sameValue, appended⟩
      · exact .inl failed
      · obtain rfl := Option.some.inj sameKey
        obtain rfl := Option.some.inj sameValue
        exact .inr ⟨ok, appended⟩
  | delete key =>
      rcases kvDeleteInternal_aof store (some key) env 0 with
        failed | ⟨ok, _, sameKey, appended⟩
      · exact .inl failed
      · obtain rfl := Option.some.inj sameKey
        exact .inr ⟨ok, appended⟩

/-- `kv_set` and `kv_delete` write their record first when a log is open, and undo it unless the
mutation took effect.
-/
theorem Mutation.call_written (mutation : Mutation) (env : CallEnv) (store : Store)
    : store.aof.Written mutation.op env store.table (.status (mutation.call env store).1)
        (mutation.call env store).2.aof := by
  obtain ⟨record, stands, bytes, valid⟩ := mutation.op_record env.now
  have other : mutation.op.setsDeadline = false := by cases mutation <;> rfl
  have first : mutation.op.logsFirst = true := by cases mutation <;> rfl
  have prepared := mutation.prepare_aof env store
  have undone := fun {code : Int} (failed : code ≠ kvOk) (opened : store.aof.fp ≠ none) =>
    @Aof.Written.undone store.aof mutation.op env store.table (.status code) record stands first
      opened (mutation.op_failed failed)
  have recorded := @Aof.Written.recorded store.aof mutation.op env store.table (.status kvOk)
    record stands mutation.op_succeeded
  rw [mutation.call_eq]
  cases checked : mutation.check with
  | error err => exact .untouched (mutation.op_failed (Mutation.check_error checked))
  | ok _ =>
      simp only
      by_cases closed : store.aof.fp = none
      · rw [mutation.append_closed env (prepared ▸ closed), if_neg (not_not_intro rfl)]
        have applied := mutation.apply_stream env (mutation.prepare env store)
        rw [if_pos (.inr (applied.1.trans (prepared ▸ closed)))]
        rcases mutation.apply_aof env (mutation.prepare env store) store.table with
          ⟨failed, same⟩ | ⟨ok, appended⟩
        · rw [same, prepared]
          exact .untouched (mutation.op_failed failed)
        · have done := recorded (valid checked) (fun _ opened => absurd closed opened)
          rw [Aof.logRecord_closed closed other] at done
          rwa [appended, ok, prepared]
      · rw [mutation.append_opened env (prepared ▸ closed), prepared]
        simp only
        split
        · next failed =>
            have done := undone failed closed none
            rwa [bytes, Aof.rollbackAofRecord_none] at done
        · next logged =>
            rcases mutation.apply_aof env { (mutation.prepare env store) with
                aof := (store.aof.writeAofRecord mutation.record env.io).2.2 } store.table with
              ⟨failed, same⟩ | ⟨ok, appended⟩
            · rw [← Store.rollback_cases, if_pos failed]
              simp only [Store.rollback, same]
              exact bytes ▸ undone failed closed _
            · have fits := Aof.writeAofRecord_fits closed (not_not.mp logged)
              have done := recorded (valid checked) (fun _ _ => bytes ▸ fits)
              rw [Aof.logRecord_opened closed, bytes] at done
              rwa [if_pos (.inl ok), appended, ok]

theorem kvSet_written (store : Store) (key value : Option CString) (env : CallEnv)
    : store.aof.Written (.set key value) env store.table (.status (kvSet store key value env).1)
        (kvSet store key value env).2.aof := by
  match key, value with
  | none, _ => exact .untouched rfl
  | some key, none =>
      simp only [kvSet]
      split
      · next refused =>
          exact .untouched (decide_eq_false
            (argumentErrors_negative (validateKey_error refused)).ne)
      · exact .untouched rfl
  | some key, some value => exact (Mutation.set key value).call_written env store

theorem kvDelete_written (store : Store) (key : Option CString) (env : CallEnv)
    : store.aof.Written (.delete key) env store.table (.status (kvDelete store key env).1)
        (kvDelete store key env).2.aof := by
  match key with
  | none => exact .untouched rfl
  | some key => exact (Mutation.delete key).call_written env store

theorem kvLpush_written (wf : store.table.WellFormed) (key value : Option CString)
    (fits : (Op.lpush key value).countFits store.table = true)
    : store.aof.Written (.lpush key value) env store.table
        (.ofResult (kvLpush store key value env).1) (kvLpush store key value env).2.aof := by
  match key, value with
  | none, _ => exact .untouched rfl
  | some key, none => exact .untouched rfl
  | some key, some value =>
      have failing : ∀ {code : Int}, code < 0 →
          (Op.lpush (some key) (some value)).succeeded (.status code) = false :=
        fun negative => decide_eq_false (by omega)
      rcases validate_cases key value with
        ⟨err, negative, _, refused | ⟨accepted, refused⟩⟩
          | ⟨validKey, validValue, accepted, acceptedValue⟩
      · simp only [kvLpush, refused]
        exact .untouched (failing negative)
      · simp only [kvLpush, accepted, refused]
        exact .untouched (failing negative)
      · simp only [kvLpush, accepted, acceptedValue]
        rcases @Table.WellFormed.lpush_cases _ env _ value wf validKey fits with
          ⟨status, negative, failed⟩ | freed | ⟨length, positive, linked⟩
        · simp only [failed]
          exact .untouched (failing negative)
        · simp only [freed]
          exact .untouched rfl
        · simp only [linked]
          have done := @Aof.Written.recorded store.aof (.lpush (some key) (some value)) env
            store.table (.status length) (.lpush key value) rfl (decide_eq_true positive)
            ⟨validKey, fun _ held => Option.some.inj held ▸ validValue⟩
            (fun first => absurd first Bool.false_ne_true)
          rwa [← Aof.logAfter_eq rfl] at done

theorem kvSadd_written (store : Store) (key value : Option CString) (env : CallEnv)
    : store.aof.Written (.sadd key value) env store.table
        (.ofResult (kvSadd store key value env).1) (kvSadd store key value env).2.aof := by
  match key, value with
  | none, _ => exact .untouched rfl
  | some key, none => exact .untouched rfl
  | some key, some value =>
      have failing : ∀ {code : Int}, code ≤ 0 →
          (Op.sadd (some key) (some value)).succeeded (.status code) = false :=
        fun negative => decide_eq_false (by omega)
      rcases validate_cases key value with
        ⟨err, negative, _, refused | ⟨accepted, refused⟩⟩
          | ⟨validKey, validValue, accepted, acceptedValue⟩
      · simp only [kvSadd, refused]
        exact .untouched (failing negative.le)
      · simp only [kvSadd, accepted, refused]
        exact .untouched (failing negative.le)
      · simp only [kvSadd, accepted, acceptedValue]
        rcases store.table.sadd_cases key value env with
          ⟨status, negative, failed⟩ | freed | linked
        · simp only [failed]
          exact .untouched (failing negative)
        · simp only [freed]
          exact .untouched rfl
        · simp only [linked]
          have done := @Aof.Written.recorded store.aof (.sadd (some key) (some value)) env
            store.table (.status 1) (.sadd key value) rfl rfl
            ⟨validKey, fun _ held => Option.some.inj held ▸ validValue⟩
            (fun first => absurd first Bool.false_ne_true)
          rwa [← Aof.logAfter_eq rfl] at done

theorem kvDeleteInternal_found {entry : Entry} (validKey : ValidKey key)
    (found : store.table.lookup key = some entry) (nth : Nat)
    : (kvDeleteInternal store (some key) env nth).1 = kvOk
      ∧ (kvDeleteInternal store (some key) env nth).2.aof
        = store.aof.appendFragments env (keyFragments .delete key) nth := by
  have checked := validateKey_of_valid validKey
  cases met : store.table.seekEntry key with
  | none =>
      rw [Table.seekEntry_none.mp met] at found
      contradiction
  | some cursor => simp [kvDeleteInternal, checked, Table.deleteEntry, met]

theorem Op.rpop_emptied {entry : Entry} {links : KvList} (found : table.lookup key = some entry)
    (shown : entry.value = .list links)
    : (Op.rpop (some key)).emptied table = if links.count = 1 then some key else none := by
  obtain ⟨_, _, _, _⟩ := entry
  obtain rfl := shown
  simp only [Op.emptied, found]

theorem Op.srem_emptied {entry : Entry} {chains : KvSet} (found : table.lookup key = some entry)
    (shown : entry.value = .set chains) (value : Option CString)
    : (Op.srem (some key) value).emptied table = if chains.count = 1 then some key else none := by
  obtain ⟨_, _, _, _⟩ := entry
  obtain rfl := shown
  simp only [Op.emptied, found]

theorem kvRpop_written (wf : store.table.WellFormed) (key : Option CString)
    : store.aof.Written (.rpop key) env store.table
        (.popped (kvRpop store key env).1.1 (kvRpop store key env).1.2)
        (kvRpop store key env).2.aof := by
  match key with
  | none => exact .untouched rfl
  | some key =>
      have looked := ((store.table.find_quiet key env.now).keeps wf).wellFormed
      simp only [kvRpop]
      split
      · exact .untouched rfl
      · next entry found =>
          have there := Table.lookup_of_findEntry found
          have stays := (wf.findEntry key env.now).2.trans found
          split
          · next links shown =>
              split
              · exact .untouched rfl
              · next value rest popped =>
                  have fewer := DList.popBack_count popped
                  have emptied := Op.rpop_emptied there shown
                  have done := @Aof.Written.recorded store.aof (.rpop (some key)) env
                    store.table (.popped kvOk (some value)) (.rpop key) rfl rfl
                    (.of_key (wf.key_of_lookup there) rfl)
                    (fun first => absurd first Bool.false_ne_true)
                  rw [← Aof.logAfter_eq rfl, Op.appends, emptied] at done
                  split
                  · exact .untouched rfl
                  · next some =>
                      split
                      · exact .untouched rfl
                      · split
                        · next last =>
                            have left := looked.lookup_modifyEntry stays
                              (fun entry => { entry with value := .list rest }) (fun _ => rfl)
                            rw [if_pos (by omega), Option.map_some, Option.getD_some,
                              Aof.appendFragments_append] at done
                            rw [(kvDeleteInternal_found (wf.key_of_lookup there) ?found 3).2]
                            case found => exact left
                            exact done
                        · next more =>
                            rw [if_neg (by omega)] at done
                            exact done
          · exact .untouched rfl

theorem kvSrem_written (wf : store.table.WellFormed) (key value : Option CString)
    : store.aof.Written (.srem key value) env store.table (.status (kvSrem store key value env).1)
        (kvSrem store key value env).2.aof := by
  match key, value with
  | none, _ => exact .untouched rfl
  | some key, none => exact .untouched rfl
  | some key, some value =>
      have looked := ((store.table.find_quiet key env.now).keeps wf).wellFormed
      simp only [kvSrem]
      split
      · exact .untouched rfl
      · next entry found =>
          have there := Table.lookup_of_findEntry found
          have stays := (wf.findEntry key env.now).2.trans found
          split
          · next chains shown =>
              have emptied := Op.srem_emptied there shown (some value)
              have bounded := wf.value_of_lookup there
              rw [shown] at bounded
              split
              · exact .untouched rfl
              · next some =>
                  have fewer : (chains.remove value).count = chains.count - 1 := rfl
                  split
                  · next contained =>
                    have present := (KvSet.WellFormed.contains_iff bounded).mp contained
                    have done := @Aof.Written.recorded store.aof (.srem (.some key) (.some value))
                      env store.table (.status 1) (.srem key value) rfl rfl
                      ⟨wf.key_of_lookup there,
                        fun _ held => Option.some.inj held ▸ bounded.bounded value present⟩
                      (fun first => absurd first Bool.false_ne_true)
                    rw [← Aof.logAfter_eq rfl, Op.appends, emptied] at done
                    split
                    · next last =>
                        have left := looked.lookup_modifyEntry stays
                          (fun entry => { entry with value := .set (chains.remove value) })
                          (fun _ => rfl)
                        rw [if_pos (by omega), Option.map_some, Option.getD_some,
                          Aof.appendFragments_append] at done
                        rw [(kvDeleteInternal_found (wf.key_of_lookup there) ?found 5).2]
                        case found => exact left
                        exact done
                    · next more =>
                        rw [if_neg (by omega)] at done
                        exact done
                  · exact .untouched rfl
          · exact .untouched rfl

theorem kvPexpireat_written {op : Op} {key : Option CString} {unixMs : Int64}
    (wf : store.table.WellFormed) (deadline : op.setsDeadline = true)
    (last : op.logsFirst = false)
    (stands : op.record env.now = key.map (fun key => .pexpireat key unixMs))
    (succeeds : ∀ code, op.succeeded (.status code) = decide (code = 1))
    (appends : ∀ key', key = some key' → op.appends env.now store.table
      = valueFragments .pexpireat key' (decimalInt unixMs.toInt))
    : store.aof.Written op env store.table (.status (kvPexpireat store key unixMs env).1)
        (kvPexpireat store key unixMs env).2.aof := by
  match key with
  | none => exact .untouched (succeeds _)
  | some key =>
      simp only [kvPexpireat]
      split
      · exact .untouched (succeeds _)
      · next found =>
          have done := @Aof.Written.recorded store.aof op env store.table (.status 1)
            (.pexpireat key unixMs) stands (succeeds 1)
            (.of_key (wf.key_of_lookup (Table.lookup_of_findEntry found)) rfl)
            (fun first => absurd first (by simp [last]))
          rwa [Aof.logRecord_deadline deadline, appends key rfl] at done

theorem kvPersist_written (wf : store.table.WellFormed) (key : Option CString)
    : store.aof.Written (.persist key) env store.table (.status (kvPersist store key env).1)
        (kvPersist store key env).2.aof := by
  match key with
  | none => exact .untouched rfl
  | some key =>
      simp only [kvPersist]
      split
      · exact .untouched rfl
      · next found =>
          split
          · exact .untouched rfl
          · have done := @Aof.Written.recorded store.aof (.persist (some key)) env store.table
              (.status 1) (.pexpireat key 0) rfl rfl
              (.of_key (wf.key_of_lookup (Table.lookup_of_findEntry found)) rfl)
              (fun first => absurd first Bool.false_ne_true)
            rwa [Aof.logRecord_deadline rfl] at done

/-- What any operation leaves in the append-only file, whatever fails. -/
theorem Op.call_written (op : Op) (wf : store.table.WellFormed)
    (fits : op.countFits store.table = true)
    : store.aof.Written op env store.table (op.call env store).1 (op.call env store).2.aof := by
  cases op with
  | set key value => exact kvSet_written store key value env
  | delete key => exact kvDelete_written store key env
  | lpush key value => exact kvLpush_written wf key value fits
  | rpop key => exact kvRpop_written wf key
  | sadd key value => exact kvSadd_written store key value env
  | srem key value => exact kvSrem_written wf key value
  | persist key => exact kvPersist_written wf key
  | pexpireat key unixMs =>
      refine kvPexpireat_written wf rfl rfl ?_ (fun _ => rfl) ?_
      · cases key <;> rfl
      · rintro key rfl
        rfl
  | expire key seconds =>
      refine kvPexpireat_written wf rfl rfl ?_ (fun _ => rfl) ?_
      · cases key <;> rfl
      · rintro key rfl
        rfl
  | pexpire key milliseconds =>
      refine kvPexpireat_written wf rfl rfl ?_ (fun _ => rfl) ?_
      · cases key <;> rfl
      · rintro key rfl
        rfl
  | _ =>
      rw [Op.call_aof rfl]
      exact .untouched rfl

end MiniKv
