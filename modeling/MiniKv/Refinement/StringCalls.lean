import MiniKv.Invariants.Reachable
import MiniKv.Refinement.Logs

/-! What it means that a call refines the logical machine: it answers as the machine does, turns the
logical map into the machine's, and leaves the machine's records. The calls on strings do.
-/

namespace MiniKv

open MiniKv.Foundations.ChainedTable
open MiniKv.Foundations.DoublyLinked
open MiniKv.Foundations.FiniteMaps

/-- Members of a set compare without their order. -/
def Reply.view : Reply (List CString) → Reply (Multiset CString) :=
  Reply.map (fun members => (members : Multiset CString))

/-- The bytes an open log gets for records; those that are too long are missing. -/
def encodeLogged (records : List Record) : List UInt8 :=
  records.flatMap (fun record => loggedBytes record.bytes)

/-- A call's result against the outcome of the logical machine. -/
structure Store.Matches (store : Store) (result : Reply (List CString) × Store)
    (outcome : Outcome)
    : Prop where
  reply : result.1.view = outcome.reply
  table : store.table.Becomes result.2.table outcome.map
  aof : store.aof.Extends result.2.aof (encodeLogged outcome.logged) (encode outcome.buffered)

/-- A call answers, changes the table and leaves records as the logical machine says. -/
def Op.Refines (op : Op) (store : Store) (env : CallEnv) : Prop :=
  store.Matches (op.call env store)
    (op.outcome store.table.maxCapacity store.aof.fp.isSome env.now store.table.logical)

variable {store : Store} {table : Table} {env : CallEnv}

theorem Store.Matches.silent {reply : Reply (List CString)} {after : Table}
    {answer : Reply (Multiset CString)} {map : LogicalMap} (same : reply.view = answer)
    (becomes : store.table.Becomes after map)
    : store.Matches (reply, { store with table := after }) (.silent answer map) :=
  ⟨same, becomes, .refl _⟩

theorem Store.Matches.unchanged {reply : Reply (List CString)}
    {answer : Reply (Multiset CString)} (same : reply.view = answer)
    (wf : store.table.WellFormed)
    : store.Matches (reply, store) (.silent answer store.table.logical) :=
  ⟨same, .refl wf, .refl _⟩

theorem Store.Matches.recorded {reply : Reply (List CString)} {after : Table} {aof : Aof}
    {answer : Reply (Multiset CString)} {map : LogicalMap} {record : Record}
    (same : reply.view = answer) (becomes : store.table.Becomes after map)
    (files : store.aof.Extends aof (loggedBytes record.bytes) record.bytes)
    : store.Matches (reply, { table := after, aof }) (.recorded answer map record) := by
  refine ⟨same, becomes, ?_⟩
  simpa [encodeLogged, encode, Outcome.recorded] using files

/-- Without a stream the log gets nothing, whatever the records are. -/
theorem Aof.Extends.of_closed {before after : Aof} {logged other buffered : List UInt8}
    (becomes : before.Extends after logged buffered) (missing : before.fp = none)
    : before.Extends after other buffered :=
  { becomes with log := by simp [missing] }

/-- The buffer gets a record with a value in fragments. -/
theorem extends_valueFragments (clean : env.Clean) (aof : Aof) (command : Command)
    (key : CString) (value : List UInt8) (nth : Nat)
    : aof.Extends (aof.appendFragments env (valueFragments command key value) nth) []
        (formatRecord command key.bytes (some value)) := by
  have appended := Aof.extends_appendFragments clean aof (valueFragments command key value) nth
  rwa [valueFragments_flatten] at appended

theorem extends_keyFragments (clean : env.Clean) (aof : Aof) (command : Command)
    (key : CString) (nth : Nat)
    : aof.Extends (aof.appendFragments env (keyFragments command key) nth) []
        (formatRecord command key.bytes none) := by
  have appended := Aof.extends_appendFragments clean aof (keyFragments command key) nth
  rwa [keyFragments_flatten] at appended

/-- A record in the log and then in the buffer. -/
theorem Aof.Extends.andBuffered {first second third : Aof} {logged buffered : List UInt8}
    (early : first.Extends second logged []) (late : second.Extends third [] buffered)
    : first.Extends third logged buffered := by
  have both := early.trans late
  rwa [List.append_nil, List.nil_append] at both

/-- A lookup, seen from the table and from the logical map. -/
theorem Table.WellFormed.find_cases (wf : table.WellFormed) (key : CString) (now : Int64)
    : ∃ result after,
        table.findEntryUnlocked key now = (result, after)
        ∧ table.Becomes after (LogicalMap.expire table.logical now key)
        ∧ after.lookup key = result
        ∧ (LogicalMap.expire table.logical now key).lookup key = result.map Entry.binding := by
  obtain ⟨becomes, same⟩ := wf.findEntry key now
  refine ⟨(table.findEntryUnlocked key now).1, (table.findEntryUnlocked key now).2, rfl, becomes,
    same, ?_⟩
  rw [← becomes.logical, becomes.wellFormed.logical_lookup, same]

theorem Table.Becomes.touched {after : Table} {map : LogicalMap} (becomes : table.Becomes after map)
    {key : CString} {entry : Entry} (found : after.lookup key = some entry)
    : table.Becomes (after.touch key) map :=
  (becomes.trans (becomes.wellFormed.touch found)).cast becomes.logical

-- Strings

/-- Writing a string to the table succeeds or fails as the logical map says. -/
theorem Table.WellFormed.storeString_cases (wf : table.WellFormed)
    (unlimited : table.maxMemoryBudget = 0) (clean : env.Clean) {key value : CString}
    (validKey : ValidKey key) (validValue : ValidValue value)
    : (∃ after map, table.storeString key value env = (kvOk, after)
        ∧ table.Becomes after map
        ∧ LogicalMap.set table.logical table.maxCapacity key value
          = .recorded (.status kvOk) map (.set key value))
      ∨ (∃ err, err ≠ kvOk ∧ table.storeString key value env = (err, table)
        ∧ LogicalMap.set table.logical table.maxCapacity key value
          = .silent (.status err) table.logical) := by
  have shown := wf.logical_lookup key
  have valid : (Payload.string value).WellFormed := validValue
  cases found : table.lookup key with
  | none =>
      rw [found, Option.map_none] at shown
      simp only [Table.storeString, found, Table.insertString,
        Table.makeRoom_of_unlimited unlimited, clean.1, LogicalMap.set, shown, wf.full_eq]
      split
      · exact .inr ⟨_, by decide, rfl, rfl⟩
      · exact .inl ⟨_, _, rfl, wf.insertEntry found validKey valid _, rfl⟩
  | some entry =>
      rw [found, Option.map_some] at shown
      cases payload : entry.value with
      | string old =>
          have changed := wf.modifyEntry found (fun entry => { entry with value := .string value })
            (fun _ => rfl) rfl valid
          have touched := changed.trans (changed.wellFormed.touch
            (wf.lookup_modifyEntry found (fun entry => { entry with value := .string value })
              (fun _ => rfl)))
          rw [changed.logical] at touched
          simp only [Table.storeString, found, payload, Table.makeRoom_of_unlimited unlimited,
            ite_self, Bool.true_eq_false, if_false, Table.overwriteString, clean.1,
            LogicalMap.set, shown, Entry.binding, Payload.content]
          left
          split
          · exact ⟨_, _, rfl, touched.charge _, rfl⟩
          · exact ⟨_, _, rfl, touched.refund _, rfl⟩
      | _ =>
          simp only [Table.storeString, found, payload, LogicalMap.set, shown, Entry.binding,
            Payload.content]
          exact .inr ⟨_, by decide, rfl, rfl⟩

/-- `kv_set_internal` with valid arguments: it appends to the rewrite buffer when it succeeds,
and changes nothing when it fails.
-/
theorem kvSetInternal_cases (wf : store.table.WellFormed)
    (unlimited : store.table.maxMemoryBudget = 0) (clean : env.Clean) {key value : CString}
    (validKey : ValidKey key) (validValue : ValidValue value)
    : (∃ after map,
        kvSetInternal store (some key) (some value) env
          = (kvOk, ⟨after, store.aof.appendFragments env (valueFragments .set key value.bytes) 0⟩)
        ∧ store.table.Becomes after map
        ∧ LogicalMap.set store.table.logical store.table.maxCapacity key value
          = .recorded (.status kvOk) map (.set key value))
      ∨ (∃ err, err ≠ kvOk ∧ kvSetInternal store (some key) (some value) env = (err, store)
        ∧ LogicalMap.set store.table.logical store.table.maxCapacity key value
          = .silent (.status err) store.table.logical) := by
  have checkedKey := validateKey_of_valid validKey
  have checkedValue := validateValue_of_valid validValue
  rcases wf.storeString_cases unlimited clean validKey validValue with
    ⟨after, map, stored, becomes, outcome⟩ | ⟨err, failed, stored, outcome⟩
  · left
    refine ⟨after, map, ?_, becomes, outcome⟩
    simp only [kvSetInternal, checkedKey, checkedValue, stored, if_true]
  · right
    refine ⟨err, failed, ?_, outcome⟩
    simp only [kvSetInternal, checkedKey, checkedValue, stored, failed, if_false]

theorem Record.set_fits (key value : CString)
    : (Record.set key value).fits
      = decide ((formatRecord .set key.bytes (some value.bytes)).length < aofRecordBufSize) :=
  rfl

theorem kvSet_matches (wf : store.table.WellFormed)
    (unlimited : store.table.maxMemoryBudget = 0) (clean : env.Clean)
    (key value : Option CString)
    : (Op.set key value).Refines store env := by
  simp only [Op.Refines, Op.call, Prod.map, id_eq, kvSet, Op.outcome]
  cases checkedKey : validateKey key with
  | error err => exact .unchanged rfl wf
  | ok validKey =>
      obtain ⟨rfl, isKey⟩ := validateKey_eq_ok.mp checkedKey
      cases checkedValue : validateValue value with
      | error err => exact .unchanged rfl wf
      | ok validValue =>
          obtain ⟨rfl, isValue⟩ := validateValue_eq_ok.mp checkedValue
          have grown := wf.growIfLoaded env
          have inner := fun aof => @kvSetInternal_cases
            { table := store.table.growIfLoaded env, aof } env grown.wellFormed
            (grown.maxMemoryBudget.trans unlimited) clean validKey validValue isKey isValue
          simp only [grown.logical, grown.maxCapacity] at inner
          have buffered := fun aof =>
            extends_valueFragments clean aof .set validKey validValue.bytes 0
          simp only
          cases opened : store.aof.fp with
          | none =>
              simp only [if_true, Option.isSome_none, Bool.false_and, Bool.false_eq_true, if_false]
              rcases inner store.aof with
                ⟨after, map, applied, becomes, outcome⟩ | ⟨err, failed, applied, outcome⟩
              · rw [applied, outcome]
                exact .recorded rfl (grown.trans becomes) ((buffered store.aof).of_closed opened)
              · rw [applied, outcome]
                exact ⟨rfl, grown, .refl _⟩
          | some pos =>
              have status := store.aof.writeAofRecord_status
                (formatRecord .set validKey.bytes (some validValue.bytes))
              have written := store.aof.extends_writeAofRecord
                (formatRecord .set validKey.bytes (some validValue.bytes))
              have undone := store.aof.extends_rollback
                (formatRecord .set validKey.bytes (some validValue.bytes))
              simp only [opened, Option.isSome_some, Bool.true_and] at status
              simp only [reduceCtorEq, if_false, clean.2, Option.isSome_some, Bool.true_and,
                Record.set_fits, status]
              by_cases fits :
                (formatRecord .set validKey.bytes (some validValue.bytes)).length < aofRecordBufSize
              · simp only [fits, decide_true, Bool.not_true, Bool.false_eq_true, if_false]
                rcases inner (store.aof.writeAofRecord
                    (formatRecord .set validKey.bytes (some validValue.bytes)) .ok).2.2 with
                  ⟨after, map, applied, becomes, outcome⟩ | ⟨err, failed, applied, outcome⟩
                · rw [applied, outcome]
                  simp only [ne_eq, not_true_eq_false, if_false]
                  exact .recorded rfl (grown.trans becomes) (written.andBuffered (buffered _))
                · rw [applied, outcome]
                  simp only [ne_eq, failed, not_false_eq_true, if_true]
                  exact ⟨rfl, grown, undone⟩
              · simp only [fits, decide_false, Bool.not_false, if_true]
                rw [loggedBytes, if_neg fits] at written
                exact ⟨rfl, grown, written⟩

/-- `kv_delete_internal` with a valid key. -/
theorem kvDeleteInternal_cases (wf : store.table.WellFormed) {key : CString}
    (validKey : ValidKey key) (env : CallEnv) (nth : Nat)
    : (∃ after, kvDeleteInternal store (some key) env nth
          = (kvOk, ⟨after, store.aof.appendFragments env (keyFragments .delete key) nth⟩)
        ∧ store.table.Becomes after (store.table.logical.erase key)
        ∧ LogicalMap.delete store.table.logical key
          = .recorded (.status kvOk) (store.table.logical.erase key) (.delete key))
      ∨ (kvDeleteInternal store (some key) env nth = (kvErrNotFound, store)
        ∧ LogicalMap.delete store.table.logical key
          = .silent (.status kvErrNotFound) store.table.logical) := by
  have checkedKey := validateKey_of_valid validKey
  have shown := wf.logical_lookup key
  cases met : store.table.seekEntry key with
  | none =>
      rw [Table.seekEntry_none.mp met, Option.map_none] at shown
      right
      simp only [kvDeleteInternal, checkedKey, Table.deleteEntry, met, Option.map_none,
        LogicalMap.delete, shown, and_self]
  | some cursor =>
      rw [(Table.seekEntry_some met).1, Option.map_some] at shown
      left
      refine ⟨_, ?_, wf.expireAndDelete_seek met, ?_⟩
      · simp only [kvDeleteInternal, checkedKey, Table.deleteEntry, met, Option.map_some]
      · simp only [LogicalMap.delete, shown]

/-- A key is short enough for its record to fit. -/
theorem delete_fits {key : CString} (validKey : ValidKey key)
    : (formatRecord .delete key.bytes none).length < aofRecordBufSize := by
  have bounded := validKey.bounded
  simp only [CString.length, kvMaxKeyLen] at bounded
  simp [formatRecord, Command.word, ascii, aofRecordBufSize]
  omega

theorem kvDelete_matches (wf : store.table.WellFormed) (clean : env.Clean)
    (key : Option CString)
    : (Op.delete key).Refines store env := by
  simp only [Op.Refines, Op.call, Prod.map, id_eq, kvDelete, Op.outcome]
  cases checkedKey : validateKey key with
  | error err => exact .unchanged rfl wf
  | ok validKey =>
      obtain ⟨rfl, isKey⟩ := validateKey_eq_ok.mp checkedKey
      have inner := fun aof => @kvDeleteInternal_cases { store with aof } wf validKey isKey env 0
      have buffered := fun aof => extends_keyFragments clean aof .delete validKey 0
      simp only
      cases opened : store.aof.fp with
      | none =>
          simp only [if_true]
          rcases inner store.aof with ⟨after, applied, becomes, outcome⟩ | ⟨applied, outcome⟩
          · rw [applied, outcome]
            exact .recorded rfl becomes ((buffered store.aof).of_closed opened)
          · rw [applied, outcome]
            exact .unchanged rfl wf
      | some pos =>
          have status := store.aof.writeAofRecord_status (formatRecord .delete validKey.bytes none)
          have written := store.aof.extends_writeAofRecord
            (formatRecord .delete validKey.bytes none)
          have undone := store.aof.extends_rollback (formatRecord .delete validKey.bytes none)
          simp only [delete_fits isKey, decide_true, Bool.not_true, Bool.and_false,
            Bool.false_eq_true, if_false] at status
          simp only [reduceCtorEq, if_false, clean.2, status, ne_eq, not_true_eq_false]
          rcases inner (store.aof.writeAofRecord (formatRecord .delete validKey.bytes none) .ok).2.2
            with ⟨after, applied, becomes, outcome⟩ | ⟨applied, outcome⟩
          · rw [applied, outcome]
            simp only [not_true_eq_false, if_false]
            exact .recorded rfl becomes (written.andBuffered (buffered _))
          · rw [applied, outcome]
            exact ⟨rfl, .refl wf, undone⟩

end MiniKv
