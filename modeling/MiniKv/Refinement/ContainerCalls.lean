import MiniKv.Refinement.StringCalls

/-! The calls on lists and sets refine the logical machine. A push or an add links a node and leaves
a record, or answers with a status and leaves none. A pop or a removal writes the container back,
with its record in the log; an empty one is deleted, with a second record in the buffer.
-/

namespace MiniKv

open MiniKv.Foundations.DoublyLinked
open MiniKv.Foundations.FiniteMaps

variable {store : Store} {table : Table} {env : CallEnv}

-- Lists

theorem Table.WellFormed.linkNode_linked (wf : table.WellFormed)
    (unlimited : table.maxMemoryBudget = 0) (clean : env.Clean) {key : CString} {entry : Entry}
    (found : table.lookup key = some entry) (link : Payload → Option (Payload × Int))
    {payload : Payload} {result : Int} (links : link entry.value = some (payload, result))
    (valid : payload.WellFormed) (nodeOverhead : Nat)
    : ∃ after, table.linkNode key nodeOverhead link env = (.linked result, after)
        ∧ table.Becomes after
            (table.logical.insert key ⟨payload.content, entry.expireAtMs⟩) := by
  refine ⟨_, ?_, (wf.modifyEntry found (fun entry => { entry with value := payload })
    (fun _ => rfl) rfl valid).charge nodeOverhead⟩
  simp only [Table.linkNode, Table.makeRoom_of_unlimited unlimited, clean.1, found,
    Option.bind_some, links]
  rfl

def Table.LinkMatches (table : Table) (result : Linking × Table) (outcome : Outcome)
    (record : Record)
    : Prop :=
  ∃ map, table.Becomes result.2 map
    ∧ ((∃ code, result.1 = .linked code ∧ outcome = .recorded (.status code) map record)
      ∨ (∃ status, result.1 = .failed status ∧ outcome = .silent (.status status) map))

theorem Table.WellFormed.lpush_matches (wf : table.WellFormed)
    (unlimited : table.maxMemoryBudget = 0) (clean : env.Clean) {key value : CString}
    (validKey : ValidKey key) (validValue : ValidValue value)
    : table.LinkMatches (table.lpush key value env)
        (LogicalMap.lpush table.logical table.maxCapacity env.now key value)
        (.lpush key value) := by
  obtain ⟨result, after, found, becomes, same, shown⟩ := wf.find_cases key env.now
  have allocated : [AllocSite.entry, .key, .list].all env.alloc = true := by simp [clean.1]
  have full := becomes.wellFormed.full_eq
  rw [becomes.logical, becomes.maxCapacity] at full
  simp only [Table.lpush, wf.openContainer_eq unlimited, found, allocated, LogicalMap.lpush,
    shown, full]
  have afterUnlimited := becomes.maxMemoryBudget.trans unlimited
  cases result with
  | none =>
      by_cases atCapacity : after.atCapacity = true
      · simp only [atCapacity, if_true, Option.map_none]
        exact ⟨_, becomes, .inr ⟨_, rfl, rfl⟩⟩
      · have emptyValid : (Payload.list DList.empty).WellFormed := listWellFormed_empty
        obtain ⟨pushed, contents⟩ := listWellFormed_empty.pushFront validValue
        have inserted := becomes.wellFormed.insertEntry same validKey emptyValid
          (sizeofEntry + key.length + 1 + sizeofList)
        have newEntry := becomes.wellFormed.lookup_insertEntry same validKey emptyValid
          (sizeofEntry + key.length + 1 + sizeofList)
        obtain ⟨last, linked, final⟩ := inserted.wellFormed.linkNode_linked
          (inserted.maxMemoryBudget.trans afterUnlimited) clean newEntry
          (pushFrontPayload value) rfl pushed (sizeofListNode + value.length + 1)
        rw [inserted.logical, becomes.logical, Finmap.insert_insert] at final
        simp only [atCapacity, Bool.true_eq_false, Bool.false_eq_true, if_false, Option.map_none,
          linked]
        refine ⟨_, (becomes.trans inserted).trans final, .inl ⟨_, rfl, ?_⟩⟩
        rw [pushed.count_eq, Payload.content, contents, toList_empty]
        rfl
  | some entry =>
      have valid := becomes.wellFormed.value_of_lookup same
      have touched := becomes.wellFormed.touch same
      have touchedEntry := becomes.wellFormed.lookup_modifyEntry same
        (fun entry => { entry with lastAccessedTime := after.lruClock + 1 }) (fun _ => rfl)
      obtain ⟨entryKey, payload, expireAtMs, time⟩ := entry
      cases payload with
      | list links =>
          obtain ⟨pushed, contents⟩ := ListWellFormed.pushFront valid validValue
          obtain ⟨last, linked, final⟩ := touched.wellFormed.linkNode_linked
            (touched.maxMemoryBudget.trans afterUnlimited) clean touchedEntry
            (pushFrontPayload value) rfl pushed (sizeofListNode + value.length + 1)
          rw [touched.logical, becomes.logical] at final
          simp only [Payload.isList, if_true, Option.map_some, Entry.binding, Payload.content,
            linked]
          refine ⟨_, (becomes.trans touched).trans final, .inl ⟨_, rfl, ?_⟩⟩
          rw [pushed.count_eq, Payload.content, contents]
          rfl
      | _ => exact ⟨_, becomes, .inr ⟨_, rfl, rfl⟩⟩

theorem kvLpush_matches (wf : store.table.WellFormed)
    (unlimited : store.table.maxMemoryBudget = 0) (clean : env.Clean)
    (key value : Option CString)
    : (Op.lpush key value).Refines store env := by
  cases key with
  | none => exact .unchanged rfl wf
  | some key =>
      cases value with
      | none => exact .unchanged rfl wf
      | some value =>
          simp only [Op.Refines, Op.call, Prod.map, id_eq, kvLpush, Op.outcome]
          cases checkedKey : validateKey (some key) with
          | error err => exact .unchanged rfl wf
          | ok validKey =>
              cases checkedValue : validateValue (some value) with
              | error err => exact .unchanged rfl wf
              | ok validValue =>
                  obtain ⟨map, becomes, linked | failed⟩ := wf.lpush_matches unlimited clean
                    (validateKey_eq_ok.mp checkedKey).2 (validateValue_eq_ok.mp checkedValue).2
                  · obtain ⟨code, linked, outcome⟩ := linked
                    simp only [linked, outcome]
                    exact .recorded rfl becomes ((Aof.extends_logAfter clean _ _).andBuffered
                      (extends_valueFragments clean _ .lpush validKey validValue.bytes 0))
                  · obtain ⟨status, failed, outcome⟩ := failed
                    simp only [failed, outcome]
                    exact .silent rfl becomes

theorem Table.Becomes.shrunk {after : Table} {map : LogicalMap}
    (becomes : store.table.Becomes after map) (clean : env.Clean) {key : CString} {entry : Entry}
    (found : after.lookup key = some entry) {payload : Payload} (valid : payload.WellFormed)
    (bytes : Nat) {aof : Aof} {record : Record}
    (files : store.aof.Extends aof (loggedBytes record.bytes) record.bytes)
    {reply : Reply (List CString)} {answer : Reply (Multiset CString)} (same : reply.view = answer)
    (nth : Nat)
    : let written := (after.setPayload key payload).refund bytes
      store.Matches (reply, (kvDeleteInternal { table := written, aof } (some key) env nth).2)
        { reply := answer, map := map.erase key, logged := [record],
          buffered := [record, .delete key] }
      ∧ store.Matches (reply, { table := written.touch key, aof })
          (.recorded answer (map.insert key ⟨payload.content, entry.expireAtMs⟩) record) := by
  intro written
  have writes : store.table.Becomes written
      (map.insert key ⟨payload.content, entry.expireAtMs⟩) :=
    becomes.logical ▸ becomes.trans ((becomes.wellFormed.modifyEntry found
      (fun entry => { entry with value := payload }) (fun _ => rfl) rfl valid).refund bytes)
  have rewritten : written.lookup key = some { entry with value := payload } :=
    becomes.wellFormed.lookup_modifyEntry found (fun entry => { entry with value := payload })
      (fun _ => rfl)
  refine ⟨?_, .recorded same (writes.touched rewritten) files⟩
  have member := Table.WellFormed.mem_of_lookup rewritten
  have validKey : ValidKey key := member.2 ▸ (writes.wellFormed.entries _ member.1).key
  rcases @kvDeleteInternal_cases { table := written, aof } writes.wellFormed key validKey env nth
    with ⟨deleted, applied, removed, _⟩ | ⟨_, outcome⟩
  · rw [applied]
    refine ⟨same, (writes.trans removed).cast ?_, ?_⟩
    · rw [writes.logical, erase_insert_self]
    · have both := files.trans (extends_keyFragments clean aof .delete key nth)
      simpa [encodeLogged, encode, Record.bytes] using both
  · have shown := writes.wellFormed.logical_lookup key
    rw [rewritten, Option.map_some] at shown
    simp [LogicalMap.delete, shown, Outcome.recorded, Outcome.silent] at outcome

theorem kvRpop_matches (wf : store.table.WellFormed) (clean : env.Clean)
    (key : Option CString)
    : (Op.rpop key).Refines store env := by
  cases key with
  | none => exact .unchanged rfl wf
  | some key =>
      obtain ⟨result, after, found, becomes, same, shown⟩ := wf.find_cases key env.now
      simp only [Op.Refines, Op.call, Prod.map, id_eq, kvRpop, found, Op.outcome, LogicalMap.rpop,
        shown, clean.1, Bool.true_eq_false, if_false]
      cases result with
      | none => exact .silent rfl becomes
      | some entry =>
          have valid := becomes.wellFormed.value_of_lookup same
          obtain ⟨entryKey, payload, expireAtMs, time⟩ := entry
          cases payload with
          | list links =>
              simp only [Option.map_some, Entry.binding, Payload.content]
              cases bottom : links.toList.getLast? with
              | none =>
                  rw [ListWellFormed.popBack_none valid (by simpa using bottom)]
                  exact .silent rfl becomes
              | some value =>
                  obtain ⟨rest, popped, restValid, contents⟩ :=
                    ListWellFormed.popBack_some valid bottom
                  have counted : links.count ≠ 0 := by
                    rw [ListWellFormed.count_eq valid]
                    intro empty
                    simp [List.length_eq_zero_iff.mp empty] at bottom
                  have emptied : rest.count = 0 ↔ links.toList.dropLast = [] := by
                    rw [restValid.count_eq, contents, List.length_eq_zero_iff]
                  have files := (Aof.extends_logAfter clean store.aof
                    (formatRecord .rpop key.bytes none)).andBuffered
                    (extends_keyFragments clean _ .rpop key 0)
                  have shrunk := @Table.Becomes.shrunk store env after _ becomes clean key _ same
                    (.list rest) restValid (sizeofListNode + value.length + 1) _ (.rpop key) files
                    (.popped kvOk (some value)) _ rfl 3
                  simp only [Payload.content, contents] at shrunk
                  simp only [popped, counted, if_false, emptied]
                  split
                  · exact shrunk.1
                  · exact shrunk.2
          | _ => exact .silent rfl becomes

-- Sets

theorem Table.WellFormed.sadd_matches (wf : table.WellFormed)
    (unlimited : table.maxMemoryBudget = 0) (clean : env.Clean) {key value : CString}
    (validKey : ValidKey key) (validValue : ValidValue value)
    : table.LinkMatches (table.sadd key value env)
        (LogicalMap.sadd table.logical table.maxCapacity env.now key value)
        (.sadd key value) := by
  obtain ⟨result, after, found, becomes, same, shown⟩ := wf.find_cases key env.now
  have allocated : [AllocSite.entry, .key, .set, .setBuckets].all env.alloc = true := by
    simp [clean.1]
  have full := becomes.wellFormed.full_eq
  rw [becomes.logical, becomes.maxCapacity] at full
  simp only [Table.sadd, wf.openContainer_eq unlimited, found, allocated, LogicalMap.sadd,
    shown, full]
  have afterUnlimited := becomes.maxMemoryBudget.trans unlimited
  cases result with
  | none =>
      by_cases atCapacity : after.atCapacity = true
      · simp only [atCapacity, if_true, Option.map_none]
        exact ⟨_, becomes, .inr ⟨_, rfl, rfl⟩⟩
      · have emptyValid : (Payload.set KvSet.empty).WellFormed := setWellFormed_empty
        have missing : value ∉ KvSet.empty.members := by simp [members_empty]
        have notContained : KvSet.empty.contains value = false := by
          rw [← Bool.not_eq_true, setWellFormed_empty.contains_iff]
          exact missing
        obtain ⟨added, contents⟩ := setWellFormed_empty.add validValue missing
        have inserted := becomes.wellFormed.insertEntry same validKey emptyValid
          (sizeofEntry + key.length + 1 + sizeofSet + initialSetBuckets * sizeofPointer)
        have newEntry := becomes.wellFormed.lookup_insertEntry same validKey emptyValid
          (sizeofEntry + key.length + 1 + sizeofSet + initialSetBuckets * sizeofPointer)
        obtain ⟨last, linked, final⟩ := inserted.wellFormed.linkNode_linked
          (inserted.maxMemoryBudget.trans afterUnlimited) clean newEntry (addPayload value) rfl
          added (sizeofSetNode + value.length + 1)
        rw [inserted.logical, becomes.logical, Finmap.insert_insert] at final
        simp only [atCapacity, Bool.true_eq_false, Bool.false_eq_true, if_false, Option.map_none,
          newEntry, notContained, linked]
        refine ⟨_, (becomes.trans inserted).trans final, .inl ⟨_, rfl, ?_⟩⟩
        rw [Payload.content, contents, members_empty]
        rfl
  | some entry =>
      have valid := becomes.wellFormed.value_of_lookup same
      have touched := becomes.wellFormed.touch same
      have touchedEntry := becomes.wellFormed.lookup_modifyEntry same
        (fun entry => { entry with lastAccessedTime := after.lruClock + 1 }) (fun _ => rfl)
      obtain ⟨entryKey, payload, expireAtMs, time⟩ := entry
      cases payload with
      | set chains =>
          have lookedUp : (after.touch key).lookup key
              = some ⟨entryKey, .set chains, expireAtMs, after.lruClock + 1⟩ := touchedEntry
          have contained := @KvSet.WellFormed.contains_iff _ value valid
          simp only [Payload.isSet, if_true, Option.map_some, Entry.binding, Payload.content,
            lookedUp, contained, List.mem_toFinset]
          by_cases present : value ∈ chains.members
          · simp only [present, if_true]
            rw [← becomes.logical]
            exact ⟨_, becomes.trans touched, .inr ⟨_, rfl, rfl⟩⟩
          · obtain ⟨added, contents⟩ := KvSet.WellFormed.add valid validValue present
            obtain ⟨last, linked, final⟩ := touched.wellFormed.linkNode_linked
              (touched.maxMemoryBudget.trans afterUnlimited) clean touchedEntry (addPayload value)
              rfl added (sizeofSetNode + value.length + 1)
            rw [touched.logical, becomes.logical] at final
            simp only [present, if_false, linked]
            refine ⟨_, (becomes.trans touched).trans final, .inl ⟨_, rfl, ?_⟩⟩
            rw [Payload.content, contents]
      | _ => exact ⟨_, becomes, .inr ⟨_, rfl, rfl⟩⟩

theorem kvSadd_matches (wf : store.table.WellFormed)
    (unlimited : store.table.maxMemoryBudget = 0) (clean : env.Clean)
    (key value : Option CString)
    : (Op.sadd key value).Refines store env := by
  cases key with
  | none => exact .unchanged rfl wf
  | some key =>
      cases value with
      | none => exact .unchanged rfl wf
      | some value =>
          simp only [Op.Refines, Op.call, Prod.map, id_eq, kvSadd, Op.outcome]
          cases checkedKey : validateKey (some key) with
          | error err => exact .unchanged rfl wf
          | ok validKey =>
              cases checkedValue : validateValue (some value) with
              | error err => exact .unchanged rfl wf
              | ok validValue =>
                  obtain ⟨map, becomes, linked | failed⟩ := wf.sadd_matches unlimited clean
                    (validateKey_eq_ok.mp checkedKey).2 (validateValue_eq_ok.mp checkedValue).2
                  · obtain ⟨code, linked, outcome⟩ := linked
                    simp only [linked, outcome]
                    exact .recorded rfl becomes ((Aof.extends_logAfter clean _ _).andBuffered
                      (extends_valueFragments clean _ .sadd validKey validValue.bytes 0))
                  · obtain ⟨status, failed, outcome⟩ := failed
                    simp only [failed, outcome]
                    exact .silent rfl becomes

theorem kvSrem_matches (wf : store.table.WellFormed) (clean : env.Clean)
    (key value : Option CString)
    : (Op.srem key value).Refines store env := by
  cases key with
  | none => exact .unchanged rfl wf
  | some key =>
      cases value with
      | none => exact .unchanged rfl wf
      | some value =>
          obtain ⟨result, after, found, becomes, same, shown⟩ := wf.find_cases key env.now
          simp only [Op.Refines, Op.call, Prod.map, id_eq, kvSrem, found, Op.outcome,
            LogicalMap.srem, shown]
          cases result with
          | none => exact .silent rfl becomes
          | some entry =>
              have valid := becomes.wellFormed.value_of_lookup same
              obtain ⟨entryKey, payload, expireAtMs, time⟩ := entry
              cases payload with
              | set chains =>
                  have contained := @KvSet.WellFormed.contains_iff _ value valid
                  simp only [Option.map_some, Entry.binding, Payload.content, contained,
                    List.mem_toFinset]
                  by_cases present : value ∈ chains.members
                  · obtain ⟨removed, contents⟩ := KvSet.WellFormed.remove valid present
                    have counted : chains.count ≠ 0 := by
                      rw [valid.count]
                      exact Nat.ne_of_gt (List.length_pos_of_mem present)
                    have emptied : (chains.remove value).count = 0
                        ↔ chains.members.toFinset.erase value = ∅ := by
                      rw [removed.count_eq_card, contents, Finset.card_eq_zero]
                    have files := (Aof.extends_logAfter clean store.aof
                      (formatRecord .srem key.bytes (some value.bytes))).andBuffered
                      (extends_valueFragments clean _ .srem key value.bytes 0)
                    have shrunk := @Table.Becomes.shrunk store env after _ becomes clean key _ same
                      (.set (chains.remove value)) removed (sizeofSetNode + value.length + 1) _
                      (.srem key value) files (.status 1) _ rfl 5
                    simp only [Payload.content, contents] at shrunk
                    simp only [present, counted, if_false, if_true, emptied]
                    split
                    · exact shrunk.1
                    · exact shrunk.2
                  · simp only [present, if_false, ite_self]
                    exact .silent rfl becomes
              | _ => exact .silent rfl becomes

end MiniKv
