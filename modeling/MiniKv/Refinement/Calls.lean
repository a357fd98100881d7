import MiniKv.Refinement.ContainerCalls

/-! The store refines the logical machine: without a memory budget and without failures, every
operation answers as the machine does, turns the logical map into the machine's, and leaves the
machine's records.
-/

namespace MiniKv

variable {store : Store} {env : CallEnv}

-- Reading

theorem kvGet_matches (wf : store.table.WellFormed) (key : Option CString)
    : (Op.get key).Refines store env := by
  cases key with
  | none => exact .unchanged rfl wf
  | some key =>
      obtain ⟨result, after, found, becomes, same, shown⟩ := wf.find_cases key env.now
      simp only [Op.Refines, Op.call, Prod.map, id_eq, kvGet, found, Op.outcome, LogicalMap.read,
        shown]
      cases result with
      | none => exact .silent rfl becomes
      | some entry =>
          obtain ⟨entryKey, payload, expireAtMs, time⟩ := entry
          cases payload with
          | string value => exact .silent rfl (becomes.touched same)
          | _ => exact .silent rfl becomes

theorem kvExists_matches (wf : store.table.WellFormed) (key : Option CString)
    : (Op.exist key).Refines store env := by
  cases key with
  | none => exact .unchanged rfl wf
  | some key =>
      obtain ⟨result, after, found, becomes, same, shown⟩ := wf.find_cases key env.now
      simp only [Op.Refines, Op.call, Prod.map, id_eq, kvExists, found, Op.outcome,
        LogicalMap.read, shown, Option.isSome_map]
      exact .silent rfl becomes

theorem kvLlen_matches (wf : store.table.WellFormed) (key : Option CString)
    : (Op.llen key).Refines store env := by
  cases key with
  | none => exact .unchanged rfl wf
  | some key =>
      obtain ⟨result, after, found, becomes, same, shown⟩ := wf.find_cases key env.now
      simp only [Op.Refines, Op.call, Prod.map, id_eq, kvLlen, found, Op.outcome, LogicalMap.read,
        shown]
      cases result with
      | none => exact .silent rfl becomes
      | some entry =>
          have valid := becomes.wellFormed.value_of_lookup same
          obtain ⟨entryKey, payload, expireAtMs, time⟩ := entry
          cases payload with
          | list links =>
              have count := ListWellFormed.count_eq valid
              refine .silent ?_ (becomes.touched same)
              simp only [Reply.view, Reply.map, count]
              rfl
          | _ => exact .silent rfl becomes

theorem kvScard_matches (wf : store.table.WellFormed) (key : Option CString)
    : (Op.scard key).Refines store env := by
  cases key with
  | none => exact .unchanged rfl wf
  | some key =>
      obtain ⟨result, after, found, becomes, same, shown⟩ := wf.find_cases key env.now
      simp only [Op.Refines, Op.call, Prod.map, id_eq, kvScard, found, Op.outcome,
        LogicalMap.read, shown]
      cases result with
      | none => exact .silent rfl becomes
      | some entry =>
          have valid := becomes.wellFormed.value_of_lookup same
          obtain ⟨entryKey, payload, expireAtMs, time⟩ := entry
          cases payload with
          | set chains =>
              have count := KvSet.WellFormed.count_eq_card valid
              refine .silent ?_ (becomes.touched same)
              simp only [Reply.view, Reply.map, count]
              rfl
          | _ => exact .silent rfl becomes

theorem kvSmembers_matches (wf : store.table.WellFormed) (clean : env.Clean)
    (key : Option CString)
    : (Op.smembers key).Refines store env := by
  cases key with
  | none => exact .unchanged rfl wf
  | some key =>
      obtain ⟨result, after, found, becomes, same, shown⟩ := wf.find_cases key env.now
      simp only [Op.Refines, Op.call, Prod.map, id_eq, kvSmembers, found, Op.outcome,
        LogicalMap.read, shown, clean.1, Bool.true_eq_false, if_false]
      cases result with
      | none => exact .silent rfl becomes
      | some entry =>
          have valid := becomes.wellFormed.value_of_lookup same
          obtain ⟨entryKey, payload, expireAtMs, time⟩ := entry
          cases payload with
          | set chains =>
              have count := KvSet.WellFormed.count_eq_card valid
              have listed : (chains.members : Multiset CString) = chains.members.toFinset.val := by
                rw [List.toFinset_val, List.dedup_eq_self.mpr valid.nodup]
              simp only [Option.map_some, Entry.binding, Payload.content, count,
                Finset.card_eq_zero]
              split
              · exact .silent rfl becomes
              · refine .silent ?_ (becomes.touched same)
                simp only [Reply.view, Reply.map, Option.map_some, listed]
          | _ => exact .silent rfl becomes

theorem kvPttl_matches (wf : store.table.WellFormed) (key : Option CString)
    : (Op.pttl key).Refines store env := by
  cases key with
  | none => exact .unchanged rfl wf
  | some key =>
      obtain ⟨result, after, found, becomes, same, shown⟩ := wf.find_cases key env.now
      simp only [Op.Refines, Op.call, Prod.map, id_eq, kvPttl, found, Op.outcome, LogicalMap.pttl,
        shown]
      cases result with
      | none => exact .silent rfl becomes
      | some entry =>
          simp only [Option.map_some, Entry.binding]
          split <;> exact .silent rfl becomes

theorem kvTtl_matches (wf : store.table.WellFormed) (key : Option CString)
    : (Op.ttl key).Refines store env := by
  have same : ((Op.ttl key).call env store)
      = (.remaining (ceilSeconds (kvPttl store key env).1), (kvPttl store key env).2) := by
    simp only [Op.call, Prod.map, id_eq, kvTtl, ceilSeconds]
    split <;> rfl
  obtain ⟨reply, becomes, aof⟩ := @kvPttl_matches store env wf key
  rw [Op.Refines, same]
  cases key with
  | none => exact ⟨rfl, becomes, aof⟩
  | some key =>
      have remaining : (kvPttl store (some key) env).1
          = LogicalMap.pttl store.table.logical env.now key := Reply.remaining.inj reply
      refine ⟨?_, becomes, aof⟩
      simp only [remaining]
      rfl

-- Deadlines

theorem kvPexpireat_matches (wf : store.table.WellFormed) (clean : env.Clean)
    (key : Option CString) (unixMs : Int64)
    : (Op.pexpireat key unixMs).Refines store env := by
  cases key with
  | none => exact .unchanged rfl wf
  | some key =>
      obtain ⟨result, after, found, becomes, same, shown⟩ := wf.find_cases key env.now
      simp only [Op.Refines, Op.call, Prod.map, id_eq, kvPexpireat, found, Op.outcome,
        LogicalMap.pexpireat, shown, clean.2]
      cases result with
      | none => exact .silent rfl becomes
      | some entry =>
          have changed := becomes.wellFormed.setDeadline key unixMs
          rw [becomes.logical] at changed
          exact .recorded rfl (becomes.trans changed)
            ((store.aof.extends_writeAofRecord _).andBuffered
              (extends_valueFragments clean _ .pexpireat key _ 0))

theorem kvPersist_matches (wf : store.table.WellFormed) (clean : env.Clean)
    (key : Option CString)
    : (Op.persist key).Refines store env := by
  cases key with
  | none => exact .unchanged rfl wf
  | some key =>
      obtain ⟨result, after, found, becomes, same, shown⟩ := wf.find_cases key env.now
      simp only [Op.Refines, Op.call, Prod.map, id_eq, kvPersist, found, Op.outcome,
        LogicalMap.persist, shown, clean.2]
      cases result with
      | none => exact .silent rfl becomes
      | some entry =>
          simp only [Option.map_some, Entry.binding]
          split
          · exact .silent rfl becomes
          · have changed := becomes.wellFormed.setDeadline key 0
            rw [becomes.logical] at changed
            have buffered := fun aof => Aof.extends_appendFragments clean aof
              [Command.pexpireat.word ++ [tab], key.bytes, [tab, 48, lf]] 0
            have whole : [Command.pexpireat.word ++ [tab], key.bytes, [tab, 48, lf]].flatten
                = (Record.pexpireat key 0).bytes := by
              have zero : MiniKv.Foundations.Decimal.decimalInt 0 = [48] := by decide
              simp [Record.bytes, formatRecord, zero]
            simp only [whole] at buffered
            exact .recorded rfl (becomes.trans changed)
              ((store.aof.extends_writeAofRecord _).andBuffered (buffered _))

-- Every operation

theorem kvResize_matches (wf : store.table.WellFormed)
    (unlimited : store.table.maxMemoryBudget = 0) (clean : env.Clean) (newBucketCount : Nat)
    : (Op.resize newBucketCount).Refines store env := by
  have status : (store.table.kvResizeUnlocked newBucketCount env).1
      = if newBucketCount = 0 then kvErrInvalidParam else kvOk := by
    by_cases zero : newBucketCount = 0
    · simp [Table.kvResizeUnlocked, zero]
    · simp [Table.kvResizeUnlocked, zero, unlimited, clean.1]
  have resized : (Op.resize newBucketCount).call env store
      = (.status (store.table.kvResizeUnlocked newBucketCount env).1,
          { store with table := (store.table.kvResizeUnlocked newBucketCount env).2 }) :=
    rfl
  rw [Op.Refines, resized, status]
  exact .silent rfl (wf.resize newBucketCount env)

theorem Op.call_matches (op : Op) (wf : store.table.WellFormed)
    (unlimited : store.table.maxMemoryBudget = 0) (clean : env.Clean)
    : store.Matches (op.call env store)
        (op.outcome store.table.maxCapacity store.aof.fp.isSome env.now store.table.logical) := by
  cases op with
  | set key value => exact kvSet_matches wf unlimited clean key value
  | get key => exact kvGet_matches wf key
  | delete key => exact kvDelete_matches wf clean key
  | exist key => exact kvExists_matches wf key
  | lpush key value => exact kvLpush_matches wf unlimited clean key value
  | rpop key => exact kvRpop_matches wf clean key
  | llen key => exact kvLlen_matches wf key
  | sadd key value => exact kvSadd_matches wf unlimited clean key value
  | srem key value => exact kvSrem_matches wf clean key value
  | scard key => exact kvScard_matches wf key
  | smembers key => exact kvSmembers_matches wf clean key
  | pexpireat key unixMs => exact kvPexpireat_matches wf clean key unixMs
  | expire key seconds =>
      cases key with
      | none => exact .unchanged rfl wf
      | some key => exact kvPexpireat_matches wf clean (some key) _
  | pexpire key milliseconds =>
      cases key with
      | none => exact .unchanged rfl wf
      | some key => exact kvPexpireat_matches wf clean (some key) _
  | pttl key => exact kvPttl_matches wf key
  | ttl key => exact kvTtl_matches wf key
  | persist key => exact kvPersist_matches wf clean key
  | resize newBucketCount => exact kvResize_matches wf unlimited clean newBucketCount

end MiniKv
