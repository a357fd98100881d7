import MiniKv.Invariants.Server
import MiniKv.Refinement.Calls
import MiniKv.Semantics.Histories

/-! A replica and its clients. The guard of the dispatcher names the writing commands one by one and
leaves one out.
-/

namespace MiniKv

open MiniKv.Foundations.FiniteMaps

variable {server : Server} {store : Store} {env : CallEnv}

/-- The binding that can be seen under a key at some time, with its deadline. -/
def LogicalMap.live (map : LogicalMap) (now : Int64) (key : CString) : Option Binding :=
  (map.lookup key).filter (fun binding => !binding.isExpired now)

/-- Behind a lookup exactly the visible binding is left under its key. -/
theorem LogicalMap.lookup_expire_self (map : LogicalMap) (now : Int64) (key : CString)
    : (LogicalMap.expire map now key).lookup key = map.live now key := by
  simp only [LogicalMap.live]
  cases found : map.lookup key with
  | none => rw [expire_of_lookup_none now found, found, Option.filter_none]
  | some binding =>
      cases expired : binding.isExpired now with
      | true => rw [expire_of_expired found expired, Finmap.lookup_erase, Option.filter_some,
          expired, Bool.not_true, if_neg Bool.false_ne_true]
      | false => rw [expire_of_live found expired, found, Option.filter_some, expired,
          Bool.not_false, if_pos rfl]

/-- Taking an expired binding away changes nothing that can be seen. -/
theorem LogicalMap.live_expire (map : LogicalMap) (now : Int64) (key other : CString)
    : (LogicalMap.expire map now key).live now other = map.live now other := by
  by_cases same : other = key
  · subst same
    rw [LogicalMap.live, LogicalMap.lookup_expire_self]
    simp [LogicalMap.live]
  · rw [LogicalMap.live, lookup_expire_ne now same, LogicalMap.live]

-- Reading

/-- The operations that read under a key. -/
def Op.isRead : Op → Bool
  | .get _ | .exist _ | .llen _ | .scard _ | .smembers _ | .pttl _ | .ttl _ => true
  | _ => false

theorem kvSmembers_live (wf : store.table.WellFormed) (key other : CString)
    : (kvSmembers store (some key) env).2.table.logical.live env.now other
      = store.table.logical.live env.now other := by
  obtain ⟨result, after, found, becomes, same, _⟩ := wf.find_cases key env.now
  have expired : after.logical.live env.now other = store.table.logical.live env.now other := by
    rw [becomes.logical, LogicalMap.live_expire]
  simp only [kvSmembers, found]
  split
  · next chains expireAtMs time _ =>
      split_ifs
      · exact expired
      · exact expired
      · rw [(becomes.wellFormed.touch same).logical, expired]
  · exact expired

/-- Reading leaves everything visible, also when the memory for an answer is missing. -/
theorem Op.read_live {op : Op} (reads : op.isRead = true) (wf : store.table.WellFormed)
    (other : CString)
    : (op.call env store).2.table.logical.live env.now other
      = store.table.logical.live env.now other := by
  -- A read without a key answers at once; one with a key is the machine's read of it.
  have seen (key : CString) {table : Table}
      (becomes : store.table.Becomes table (LogicalMap.expire store.table.logical env.now key)) :
      table.logical.live env.now other = store.table.logical.live env.now other := by
    rw [becomes.logical, LogicalMap.live_expire]
  cases op with
  | get key => cases key with
    | none => rfl
    | some key => exact seen key (kvGet_matches wf (some key)).table
  | exist key => cases key with
    | none => rfl
    | some key => exact seen key (kvExists_matches wf (some key)).table
  | llen key => cases key with
    | none => rfl
    | some key => exact seen key (kvLlen_matches wf (some key)).table
  | scard key => cases key with
    | none => rfl
    | some key => exact seen key (kvScard_matches wf (some key)).table
  | smembers key => cases key with
    | none => rfl
    | some key => exact kvSmembers_live wf key other
  | pttl key => cases key with
    | none => rfl
    | some key => exact seen key (kvPttl_matches wf (some key)).table
  | ttl key => cases key with
    | none => rfl
    | some key => exact seen key (kvTtl_matches wf (some key)).table
  | _ => contradiction

-- Popping

/-- The key names a list with an element at some time. -/
def Table.NamesElements (table : Table) (now : Int64) (key : CString) : Prop :=
  ∃ entry links, table.lookup key = some entry ∧ entryIsExpired entry now = false
    ∧ entry.value = .list links ∧ links.toList ≠ []

/-- What `kv_delete_internal` does to the table depends on the table and the key alone. -/
theorem kvDeleteInternal_table (table : Table) (key : Option CString) (aof other : Aof)
    (first second : CallEnv) (nth : Nat)
    : (kvDeleteInternal { table, aof } key first nth).2.table
      = (kvDeleteInternal { table, aof := other } key second nth).2.table := by
  simp only [kvDeleteInternal]
  split
  · rfl
  · split <;> rfl

/-- The files have no influence on what a pop does to the table. -/
theorem kvRpop_table {key : CString} (allocated : env.alloc .result = true)
    : (kvRpop store (some key) env).2.table
      = (kvRpop store (some key) (.at env.now)).2.table := by
  simp only [kvRpop, allocated, CallEnv.at, Bool.true_eq_false, if_false]
  split
  · rfl
  · split
    · split
      · rfl
      · split_ifs
        · rfl
        · exact kvDeleteInternal_table _ _ _ _ _ _ _
        · rfl
    · rfl

/-- Taking the last value of a list changes what is visible, unless there is none. -/
theorem LogicalMap.rpop_live_iff (map : LogicalMap) (now : Int64) (key : CString)
    : (∀ other, (LogicalMap.rpop map now key).map.live now other = map.live now other)
      ↔ ¬ ∃ items expireAt, map.live now key = some ⟨.list items, expireAt⟩ ∧ items ≠ [] := by
  have shown := LogicalMap.lookup_expire_self map now key
  have kept := LogicalMap.live_expire map now key
  simp only [LogicalMap.rpop, shown]
  cases seen : map.live now key with
  | none => exact iff_of_true kept (by simp)
  | some binding =>
      obtain ⟨content, expireAt⟩ := binding
      cases content with
      | list items =>
          cases bottom : items.getLast? with
          | none =>
              simp only [bottom]
              exact iff_of_true kept (by simp [List.getLast?_eq_none_iff.mp bottom])
          | some value =>
              simp only [bottom]
              have nonempty : items ≠ [] := by
                rintro rfl
                simp at bottom
              refine iff_of_false (fun same => ?_)
                (fun none => none ⟨items, expireAt, rfl, nonempty⟩)
              have atKey := (same key).trans seen
              by_cases last : items.dropLast = []
              · simp [last, LogicalMap.live] at atKey
              · -- The shorter list would have to be the list itself.
                simp only [if_neg last, Outcome.recorded, LogicalMap.live,
                  Finmap.lookup_insert] at atKey
                obtain ⟨shorter, _⟩ := Option.filter_eq_some_iff.mp atKey
                have equal := congrArg List.length
                  (Content.list.inj (congrArg Binding.content (Option.some.inj shorter)))
                have positive := List.length_pos_iff.mpr nonempty
                rw [List.length_dropLast] at equal
                omega
      | _ => exact iff_of_true kept (by simp)

/-- The list under a key, in the terms of the map. -/
theorem Table.WellFormed.namesElements_iff {table : Table} (wf : table.WellFormed) (now : Int64)
    (key : CString)
    : table.NamesElements now key
      ↔ ∃ items expireAt, table.logical.live now key = some ⟨.list items, expireAt⟩
          ∧ items ≠ [] := by
  simp only [LogicalMap.live, wf.logical_lookup, Option.filter_eq_some_iff, Option.map_eq_some_iff]
  constructor
  · rintro ⟨entry, links, found, live, isList, nonempty⟩
    refine ⟨links.toList, entry.expireAtMs, ⟨⟨entry, found, ?_⟩, ?_⟩, nonempty⟩
    · simp [Entry.binding, isList, Payload.content]
    · exact (Bool.not_eq_true' _).mpr live
  · rintro ⟨items, expireAt, ⟨⟨entry, found, same⟩, live⟩, nonempty⟩
    obtain ⟨entryKey, payload, expireAtMs, time⟩ := entry
    obtain ⟨contents, rfl⟩ := Binding.mk.inj same
    cases payload with
    | list links =>
        obtain rfl := Content.list.inj contents
        exact ⟨_, links, found, (Bool.not_eq_true' _).mp live, rfl, nonempty⟩
    | _ => contradiction

/-- A pop leaves everything visible unless there is an element to take. -/
theorem kvRpop_live_iff (wf : store.table.WellFormed) (key : CString)
    : (∀ other, (kvRpop store (some key) env).2.table.logical.live env.now other
          = store.table.logical.live env.now other)
      ↔ ¬ (store.table.NamesElements env.now key ∧ env.alloc .result = true) := by
  cases allocated : env.alloc .result with
  | true =>
      have popped := (kvRpop_matches wf (CallEnv.clean_at env.now) (some key)).table.logical
      have same : (kvRpop store (some key) env).2.table.logical
          = (LogicalMap.rpop store.table.logical env.now key).map := by
        rw [kvRpop_table allocated]
        exact popped
      rw [same, wf.namesElements_iff, LogicalMap.rpop_live_iff]
      simp
  | false =>
      refine iff_of_true (fun other => ?_) (by simp)
      obtain ⟨result, after, found, becomes, _⟩ := wf.find_cases key env.now
      have expired : after.logical.live env.now other
          = store.table.logical.live env.now other := by
        rw [becomes.logical, LogicalMap.live_expire]
      simp only [kvRpop, found, allocated]
      split
      · exact expired
      · split
        · split
          · exact expired
          · split_ifs <;> exact expired
        · exact expired

-- Commands

/-- A command that the guard lets pass reads, pops, or does not touch the store. -/
theorem Verb.operation_read {verb : Verb} (guarded : verb.isWrite = false)
    (other : verb ≠ .rpop) {args : Arguments} {op : Op} (operation : verb.operation args = some op)
    : op.isRead = true := by
  cases verb
  case rpop => contradiction
  case sync | ping | quit | save | bgsave | bgrewriteaof => simp [Verb.operation] at operation
  case delete | lpush | sadd | srem | set | expire | pexpire | persist => contradiction
  all_goals
    obtain ⟨key, _, rfl⟩ := Option.map_eq_some_iff.mp operation
    rfl

/-- The line pops from a list that has an element, and the call gets the memory for the value. -/
def PopsElement (server : Server) (line : List UInt8) (env : CommandEnv) : Prop :=
  ∃ args key,
    lineCommand line = some (.rpop, args)
    ∧ args.key = some key
    ∧ server.store.table.NamesElements env.call.now key
    ∧ env.call.alloc .result = true

/-- On a replica a line leaves all visible bindings and their deadlines as they are exactly when it
is not an RPOP that finds an element.
-/
theorem replica_readOnly_iff (reachable : server.Reachable)
    (replica : server.replication.mode = .replica) (line : List UInt8) (env : CommandEnv)
    : (∀ key, (protocolExecuteCommand server line env).2.store.table.logical.live env.call.now key
          = server.store.table.logical.live env.call.now key)
      ↔ ¬ PopsElement server line env := by
  have wf := reachable.wellFormed
  rcases protocolExecuteCommand_cases server line env with
    ⟨unknown, executed⟩ | ⟨verb, args, known, executed⟩
  · refine iff_of_true (fun key => ?_) ?_
    · rcases executed with executed | executed
      · rw [executed]
        rfl
      · rw [executed]
        rfl
    · rintro ⟨args, _, known, _⟩
      rw [unknown] at known
      contradiction
  · by_cases pops : verb = .rpop
    · subst pops
      rw [executed, if_neg (by simp [Verb.isWrite]), Verb.execute_table]
      cases given : args.key with
      | none =>
          refine iff_of_true (fun key => ?_) ?_
          · simp [Verb.operation, given, Store.tableAfter]
          · rintro ⟨other, key, same, asked, _⟩
            rw [known, Option.some.injEq, Prod.mk.injEq] at same
            rw [← same.2, given] at asked
            contradiction
      | some key =>
          simp only [Verb.operation, given, Option.map_some, Store.tableAfter, Op.call]
          refine (kvRpop_live_iff wf key).trans (not_congr ?_)
          constructor
          · exact fun found => ⟨args, key, known, given, found⟩
          · rintro ⟨other, asked, same, named, found⟩
            rw [known, Option.some.injEq, Prod.mk.injEq] at same
            rw [← same.2, given, Option.some.injEq] at named
            exact named ▸ found
    · refine iff_of_true (fun key => ?_) ?_
      · rw [executed]
        split
        · rfl
        · next allowed =>
            have guarded : verb.isWrite = false := by
              cases writes : verb.isWrite with
              | true => exact absurd ⟨writes, replica⟩ allowed
              | false => rfl
            rw [verb.execute_table]
            cases operation : verb.operation args with
            | none => rfl
            | some op => exact Op.read_live (Verb.operation_read guarded pops operation) wf key
      · rintro ⟨_, _, same, _⟩
        rw [known, Option.some.injEq, Prod.mk.injEq] at same
        exact pops same.1

/-- A replica refuses to delete a list. -/
theorem replica_readOnly_iff_delete
    : ∃ start, kvInitFull 1 0 0 none [] 7 (.at 0) (fun _ => .at 0) = .ok start
        ∧ let pushed := (start.step ⟨.op (.lpush (some ⟨[107], by decide⟩)
            (some ⟨[97], by decide⟩)), .at 1, 0⟩).2
          let server : Server := { store := pushed, replication := ⟨.replica, []⟩ }
          ∀ key,
            (protocolExecuteCommand server (Verb.delete.word ++ [32, 107])
                (.at 2)).2.store.table.logical.live 2 key
              = server.store.table.logical.live 2 key := by
  have started : kvInitFull 1 0 0 none [] 7 (.at 0) (fun _ => .at 0)
      = .ok (Store.fresh 1 0 0 7 []) := rfl
  refine ⟨_, started, ?_⟩
  refine (replica_readOnly_iff (.call _ (.opened ⟨.replica, []⟩ started)) rfl
    (Verb.delete.word ++ [32, 107]) (.at 2)).mpr ?_
  rintro ⟨args, _, command, _⟩
  have deletes : lineCommand (Verb.delete.word ++ [32, 107]) = some (.delete, some [107]) := by
    decide +kernel
  rw [deletes, Option.some.injEq, Prod.mk.injEq] at command
  exact absurd command.1 (by decide)

/-- RPOP is not among the guarded commands: a client of a replica takes an element of a list. -/
theorem replica_pops_element
    : ∃ start, kvInitFull 1 0 0 none [] 7 (.at 0) (fun _ => .at 0) = .ok start
        ∧ let pushed := (start.step ⟨.op (.lpush (some ⟨[107], by decide⟩)
            (some ⟨[97], by decide⟩)), .at 1, 0⟩).2
          let server : Server := { store := pushed, replication := ⟨.replica, []⟩ }
          let executed := protocolExecuteCommand server (Verb.rpop.word ++ [32, 107]) (.at 2)
          server.Reachable
          ∧ server.store.table.logical.live 2 ⟨[107], by decide⟩
            = some ⟨.list [⟨[97], by decide⟩], 0⟩
          ∧ executed.2.store.table.logical.live 2 ⟨[107], by decide⟩ = none := by
  have started : kvInitFull 1 0 0 none [] 7 (.at 0) (fun _ => .at 0)
      = .ok (Store.fresh 1 0 0 7 []) := rfl
  refine ⟨_, started, .call _ (.opened ⟨.replica, []⟩ started), ?_, ?_⟩
  · decide +kernel
  · decide +kernel

end MiniKv
