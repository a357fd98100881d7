import MiniKv.Refinement.Calls

/-! What the store is for: a finite map from keys to strings, queues and sets.
Nothing here knows about deadlines, capacities, buckets or logs. The store refines this map as
long as no limit is set, no deadline is used and nothing fails.
-/

namespace MiniKv

open MiniKv.Foundations.FiniteMaps

abbrev AbstractMap := Finmap (fun _ : CString => Content)

-- The abstract machine

namespace AbstractMap

def set (map : AbstractMap) (key value : CString)
    : Reply (Multiset CString) × AbstractMap :=
  match map.lookup key with
  | some (.list _) => (.status kvErrWrongType, map)
  | some (.set _) => (.status kvErrWrongType, map)
  | _ => (.status kvOk, map.insert key (.string value))

def delete (map : AbstractMap) (key : CString) : Reply (Multiset CString) × AbstractMap :=
  match map.lookup key with
  | some _ => (.status kvOk, map.erase key)
  | none => (.status kvErrNotFound, map)

/-- Enqueues at the head; an absent key is an empty queue. -/
def lpush (map : AbstractMap) (key value : CString)
    : Reply (Multiset CString) × AbstractMap :=
  match map.lookup key with
  | none => (.status (toCInt 1), map.insert key (.list [value]))
  | some (.list items) =>
      (.status (toCInt (items.length + 1)), map.insert key (.list (value :: items)))
  | some _ => (.status kvErrWrongType, map)

/-- Dequeues at the tail; a queue that becomes empty is absent. -/
def rpop (map : AbstractMap) (key : CString) : Reply (Multiset CString) × AbstractMap :=
  match map.lookup key with
  | none => (.popped kvErrNotFound none, map)
  | some (.list items) =>
      match items.getLast? with
      | none => (.popped kvErrNotFound none, map)
      | some value =>
          (.popped kvOk (some value),
            if items.dropLast = [] then map.erase key
            else map.insert key (.list items.dropLast))
  | some _ => (.popped kvErrWrongType none, map)

def sadd (map : AbstractMap) (key value : CString)
    : Reply (Multiset CString) × AbstractMap :=
  match map.lookup key with
  | none => (.status 1, map.insert key (.set {value}))
  | some (.set members) =>
      if value ∈ members then (.status 0, map)
      else (.status 1, map.insert key (.set (insert value members)))
  | some _ => (.status kvErrWrongType, map)

/-- Removes a member; a set that becomes empty is absent. -/
def srem (map : AbstractMap) (key value : CString)
    : Reply (Multiset CString) × AbstractMap :=
  match map.lookup key with
  | none => (.status 0, map)
  | some (.set members) =>
      if value ∈ members then
        (.status 1,
          if members.erase value = ∅ then map.erase key
          else map.insert key (.set (members.erase value)))
      else (.status 0, map)
  | some _ => (.status kvErrWrongType, map)

end AbstractMap

/-- The operations that have a meaning on the abstract map. -/
def Op.isTimeless : Op → Bool
  | .set .. | .get .. | .delete .. | .exist .. | .lpush .. | .rpop .. | .llen .. | .sadd ..
  | .srem .. | .scard .. | .smembers .. | .resize .. => true
  | _ => false

/-- One operation on the abstract map; operations on deadlines have no meaning here. -/
def Op.onMap (op : Op) (map : AbstractMap) : Reply (Multiset CString) × AbstractMap :=
  match op with
  | .set key value =>
      match validateKey key, validateValue value with
      | .error err, _ => (.status err, map)
      | .ok _, .error err => (.status err, map)
      | .ok key, .ok value => map.set key value
  | .get none => (.value none, map)
  | .get (some key) =>
      match map.lookup key with
      | some (.string value) => (.value (some value), map)
      | _ => (.value none, map)
  | .delete key =>
      match validateKey key with
      | .error _ => (.status kvErrInvalidParam, map)
      | .ok key => map.delete key
  | .exist none => (.status 0, map)
  | .exist (some key) => (.status (if (map.lookup key).isSome then 1 else 0), map)
  | .lpush (some key) (some value) =>
      match validateKey (some key), validateValue (some value) with
      | .error err, _ => (.status err, map)
      | .ok _, .error err => (.status err, map)
      | .ok key, .ok value => map.lpush key value
  | .lpush _ _ => (.status kvErrInvalidParam, map)
  | .rpop none => (.popped kvErrInvalidParam none, map)
  | .rpop (some key) => map.rpop key
  | .llen none => (.status kvErrInvalidParam, map)
  | .llen (some key) =>
      match map.lookup key with
      | none => (.status 0, map)
      | some (.list items) => (.status (toCInt items.length), map)
      | some _ => (.status kvErrWrongType, map)
  | .sadd (some key) (some value) =>
      match validateKey (some key), validateValue (some value) with
      | .error err, _ => (.status err, map)
      | .ok _, .error err => (.status err, map)
      | .ok key, .ok value => map.sadd key value
  | .sadd _ _ => (.status kvErrInvalidParam, map)
  | .srem (some key) (some value) => map.srem key value
  | .srem _ _ => (.status kvErrInvalidParam, map)
  | .scard none => (.status kvErrInvalidParam, map)
  | .scard (some key) =>
      match map.lookup key with
      | none => (.status 0, map)
      | some (.set members) => (.status (toCInt members.card), map)
      | some _ => (.status kvErrWrongType, map)
  | .smembers none => (.members none 0, map)
  | .smembers (some key) =>
      match map.lookup key with
      | some (.set members) =>
          if members = ∅ then (.members none 0, map)
          else (.members (some members.val) members.card, map)
      | _ => (.members none 0, map)
  | .resize newBucketCount =>
      (.status (if newBucketCount = 0 then kvErrInvalidParam else kvOk), map)
  | _ => (.done, map)

/-- One call on the abstract map. -/
def AbstractMap.step (map : AbstractMap) (call : Call)
    : Reply (Multiset CString) × AbstractMap :=
  match call.action with
  | .op op => op.onMap map
  | .upkeep _ => (.done, map)

-- The logical machine without deadlines is the abstract one

/-- The logical map that binds the same values and no deadlines. -/
def Timeless (map : LogicalMap) (abstract : AbstractMap) : Prop :=
  ∀ key, map.lookup key = (abstract.lookup key).map (fun content => ⟨content, 0⟩)

variable {map : LogicalMap} {abstract : AbstractMap}

theorem Timeless.insert (timeless : Timeless map abstract) (key : CString) (content : Content)
    : Timeless (map.insert key ⟨content, 0⟩) (abstract.insert key content) := by
  intro other
  by_cases same : other = key
  · subst same
    rw [Finmap.lookup_insert, Finmap.lookup_insert, Option.map_some]
  · rw [Finmap.lookup_insert_of_ne _ same, Finmap.lookup_insert_of_ne _ same]
    exact timeless other

theorem Timeless.erase (timeless : Timeless map abstract) (key : CString)
    : Timeless (map.erase key) (abstract.erase key) := by
  intro other
  by_cases same : other = key
  · subst same
    rw [Finmap.lookup_erase, Finmap.lookup_erase, Option.map_none]
  · rw [Finmap.lookup_erase_ne same, Finmap.lookup_erase_ne same]
    exact timeless other

/-- Without deadlines nothing expires. -/
theorem Timeless.expire (timeless : Timeless map abstract) (now : Int64) (key : CString)
    : LogicalMap.expire map now key = map := by
  have shown := timeless key
  rw [LogicalMap.expire]
  cases found : abstract.lookup key with
  | none => rw [shown, found, Option.map_none]
  | some content =>
      rw [shown, found, Option.map_some]
      simp [Binding.isExpired]

/-- The logical machine replies what the abstract one does, and shows its map behind the call. -/
def Outcome.Shows (outcome : Outcome) (result : Reply (Multiset CString) × AbstractMap) : Prop :=
  outcome.reply = result.1 ∧ Timeless outcome.map result.2

theorem Timeless.set (timeless : Timeless map abstract) (key value : CString)
    : (LogicalMap.set map 0 key value).Shows (abstract.set key value) := by
  simp only [LogicalMap.set, timeless key, AbstractMap.set, LogicalMap.full_zero]
  cases found : abstract.lookup key with
  | none => exact ⟨rfl, timeless.insert key _⟩
  | some content =>
      cases content with
      | string old => exact ⟨rfl, timeless.insert key _⟩
      | _ => exact ⟨rfl, timeless⟩

theorem Timeless.delete (timeless : Timeless map abstract) (key : CString)
    : (LogicalMap.delete map key).Shows (abstract.delete key) := by
  simp only [LogicalMap.delete, AbstractMap.delete, timeless key]
  cases found : abstract.lookup key with
  | none => exact ⟨rfl, timeless⟩
  | some content => exact ⟨rfl, timeless.erase key⟩

theorem Timeless.lpush (timeless : Timeless map abstract) (now : Int64) (key value : CString)
    : (LogicalMap.lpush map 0 now key value).Shows (abstract.lpush key value) := by
  simp only [LogicalMap.lpush, timeless.expire now, timeless key, AbstractMap.lpush,
    LogicalMap.full_zero]
  cases found : abstract.lookup key with
  | none => exact ⟨rfl, timeless.insert key _⟩
  | some content =>
      cases content with
      | list items => exact ⟨rfl, timeless.insert key _⟩
      | _ => exact ⟨rfl, timeless⟩

theorem Timeless.rpop (timeless : Timeless map abstract) (now : Int64) (key : CString)
    : (LogicalMap.rpop map now key).Shows (abstract.rpop key) := by
  simp only [LogicalMap.rpop, timeless.expire now, timeless key, AbstractMap.rpop]
  cases found : abstract.lookup key with
  | none => exact ⟨rfl, timeless⟩
  | some content =>
      cases content with
      | list items =>
          simp only [Option.map_some]
          cases items.getLast? with
          | none => exact ⟨rfl, timeless⟩
          | some value =>
              simp only
              split
              · exact ⟨rfl, timeless.erase key⟩
              · exact ⟨rfl, timeless.insert key _⟩
      | _ => exact ⟨rfl, timeless⟩

theorem Timeless.sadd (timeless : Timeless map abstract) (now : Int64) (key value : CString)
    : (LogicalMap.sadd map 0 now key value).Shows (abstract.sadd key value) := by
  simp only [LogicalMap.sadd, timeless.expire now, timeless key, AbstractMap.sadd,
    LogicalMap.full_zero]
  cases found : abstract.lookup key with
  | none => exact ⟨rfl, timeless.insert key _⟩
  | some content =>
      cases content with
      | set members =>
          simp only [Option.map_some]
          split
          · exact ⟨rfl, timeless⟩
          · exact ⟨rfl, timeless.insert key _⟩
      | _ => exact ⟨rfl, timeless⟩

theorem Timeless.srem (timeless : Timeless map abstract) (now : Int64) (key value : CString)
    : (LogicalMap.srem map now key value).Shows (abstract.srem key value) := by
  simp only [LogicalMap.srem, timeless.expire now, timeless key, AbstractMap.srem]
  cases found : abstract.lookup key with
  | none => exact ⟨rfl, timeless⟩
  | some content =>
      cases content with
      | set members =>
          simp only [Option.map_some]
          split
          · split
            · exact ⟨rfl, timeless.erase key⟩
            · exact ⟨rfl, timeless.insert key _⟩
          · exact ⟨rfl, timeless⟩
      | _ => exact ⟨rfl, timeless⟩

/-- One operation of the logical machine without limits, log or deadlines is the operation of
the abstract machine.
-/
theorem Op.outcome_timeless {op : Op} (isTimeless : op.isTimeless = true) (now : Int64)
    (timeless : Timeless map abstract)
    : (op.outcome 0 false now map).Shows (op.onMap abstract) := by
  cases op with
  | set key value =>
      simp only [Op.outcome, Op.onMap, Bool.false_and, Bool.false_eq_true, if_false]
      cases validateKey key with
      | error err => exact ⟨rfl, timeless⟩
      | ok key =>
          cases validateValue value with
          | error err => exact ⟨rfl, timeless⟩
          | ok value => exact timeless.set key value
  | delete key =>
      simp only [Op.outcome, Op.onMap]
      cases validateKey key with
      | error err => exact ⟨rfl, timeless⟩
      | ok key => exact timeless.delete key
  | lpush key value | sadd key value =>
      cases key with
      | none => exact ⟨rfl, timeless⟩
      | some key =>
          cases value with
          | none => exact ⟨rfl, timeless⟩
          | some value =>
              simp only [Op.outcome, Op.onMap]
              cases validateKey (some key) with
              | error err => exact ⟨rfl, timeless⟩
              | ok key =>
                  cases validateValue (some value) with
                  | error err => exact ⟨rfl, timeless⟩
                  | ok value =>
                      first
                      | exact timeless.lpush now key value
                      | exact timeless.sadd now key value
  | rpop key =>
      cases key with
      | none => exact ⟨rfl, timeless⟩
      | some key => exact timeless.rpop now key
  | srem key value =>
      cases key with
      | none => exact ⟨rfl, timeless⟩
      | some key =>
          cases value with
          | none => exact ⟨rfl, timeless⟩
          | some value => exact timeless.srem now key value
  | get key | llen key | scard key =>
      cases key with
      | none => exact ⟨rfl, timeless⟩
      | some key =>
          simp only [Op.outcome, Op.onMap, LogicalMap.read, timeless.expire now, timeless key]
          cases found : abstract.lookup key with
          | none => exact ⟨rfl, timeless⟩
          | some content => cases content <;> exact ⟨rfl, timeless⟩
  | exist key =>
      cases key with
      | none => exact ⟨rfl, timeless⟩
      | some key =>
          simp only [Op.outcome, Op.onMap, LogicalMap.read, timeless.expire now, timeless key,
            Option.isSome_map]
          exact ⟨rfl, timeless⟩
  | smembers key =>
      cases key with
      | none => exact ⟨rfl, timeless⟩
      | some key =>
          simp only [Op.outcome, Op.onMap, LogicalMap.read, timeless.expire now, timeless key]
          cases found : abstract.lookup key with
          | none => exact ⟨rfl, timeless⟩
          | some content =>
              cases content with
              | set members =>
                  simp only [Option.map_some]
                  split
                  · exact ⟨rfl, timeless⟩
                  · exact ⟨rfl, timeless⟩
              | _ => exact ⟨rfl, timeless⟩
  | resize newBucketCount => exact ⟨rfl, timeless⟩
  | pexpireat | expire | pexpire | pttl | ttl | persist => simp [Op.isTimeless] at isTimeless

-- The store refines the abstract machine

/-- The values in a table, by key. -/
def Table.contents (table : Table) : AbstractMap :=
  tabulate Entry.key (fun entry => entry.value.content) table.entries

/-- A call of an operation on the map in which nothing fails. -/
def Call.Plain (call : Call) : Prop :=
  ∃ op, call.action = .op op ∧ op.isTimeless = true ∧ call.env.Clean

/-- A store without limits, log and deadlines whose values are those of an abstract map. -/
structure Store.Holds (store : Store) (abstract : AbstractMap) : Prop where
  sound : store.Sound
  uncapped : store.table.maxCapacity = 0
  unlogged : store.aof.fp = none
  values : Timeless store.table.logical abstract

theorem Store.Holds.contents {store : Store} (holds : store.Holds abstract)
    : store.table.contents = abstract := by
  have wf := holds.sound.wellFormed
  apply Finmap.ext_lookup
  intro key
  have shown := holds.values key
  rw [wf.logical_lookup] at shown
  have projected := congrArg (Option.map Binding.content) shown
  rw [Option.map_map, Option.map_map] at projected
  have identity : (Binding.content ∘ fun content => (⟨content, 0⟩ : Binding)) = id := rfl
  rw [identity, Option.map_id_fun, id_eq] at projected
  rw [← projected]
  cases found : store.table.lookup key with
  | none => exact lookup_tabulate_eq_none.mpr (wf.lookup_eq_none.mp found)
  | some entry =>
      obtain ⟨member, rfl⟩ := Table.WellFormed.mem_of_lookup found
      exact lookup_tabulate_of_mem wf.placed.distinct member

/-- One plain call on the store is one call on the abstract map. -/
theorem Store.Holds.step {store : Store} (holds : store.Holds abstract) {call : Call}
    (plain : call.Plain)
    : (store.step call).1.view = (abstract.step call).1
      ∧ (store.step call).2.Holds (abstract.step call).2 := by
  obtain ⟨op, action, isTimeless, clean⟩ := plain
  let drawn : Store := { store with table := { store.table with prng := call.prng } }
  have drawnWf : drawn.table.WellFormed := holds.sound.wellFormed.congr rfl rfl rfl
  have isMatch := @Op.call_matches drawn call.env op drawnWf holds.sound.unlimited clean
  have uncapped : drawn.table.maxCapacity = 0 := holds.uncapped
  have unlogged : drawn.aof.fp = none := holds.unlogged
  rw [uncapped, unlogged, Option.isSome_none] at isMatch
  obtain ⟨reply, values⟩ := Op.outcome_timeless isTimeless call.env.now holds.values
  have stepped : store.step call = op.call call.env drawn := by
    simp only [Store.step, action, drawn]
  have onMap : abstract.step call = op.onMap abstract := by
    simp only [AbstractMap.step, action]
  rw [stepped, onMap]
  have closed := isMatch.aof.isOpen
  rw [unlogged, Option.isSome_none, Option.isSome_eq_false_iff, Option.isNone_iff_eq_none] at closed
  refine ⟨isMatch.reply.trans reply, ⟨isMatch.table.wellFormed,
    isMatch.table.maxMemoryBudget.trans holds.sound.unlimited⟩,
    isMatch.table.maxCapacity.trans uncapped, closed, ?_⟩
  rw [isMatch.table.logical]
  exact values

theorem kvInit_ok {bucketCount : Nat} (positive : 0 < bucketCount) (prng : UInt32)
    {env : CallEnv} (clean : env.Clean)
    : kvInit bucketCount prng env = .ok (Store.fresh bucketCount 0 0 prng []) := by
  have nonzero : bucketCount ≠ 0 := Nat.ne_of_gt positive
  simp [kvInit, kvInitFull, nonzero, clean.1]

theorem Store.fresh_holds {bucketCount : Nat} (positive : 0 < bucketCount) (prng : UInt32)
    : (Store.fresh bucketCount 0 0 prng []).Holds ∅ where
  sound := ⟨Store.fresh_wellFormed positive 0 0 prng [], rfl⟩
  uncapped := rfl
  unlogged := rfl
  values := by
    intro key
    rw [Store.fresh_logical]
    simp

/-- Every run of string, list, set and resize calls on a store from `kv_init`, with valid or
invalid arguments, answers as the abstract map does and ends with the same values.
Witness: each operation matches the logical machine, which without limits and deadlines is the
abstract one; buckets, and so resizes, do not occur in either.
-/
theorem run_refines_abstractMap {bucketCount : Nat} (positive : 0 < bucketCount) (prng : UInt32)
    {env : CallEnv} (clean : env.Clean) (calls : List Call)
    (plain : ∀ call ∈ calls, call.Plain)
    : ∃ start, kvInit bucketCount prng env = .ok start
        ∧ (start.run calls).1.map Reply.view
            = (Foundations.Runs.run AbstractMap.step ∅ calls).1
        ∧ (start.run calls).2.table.contents
            = (Foundations.Runs.run AbstractMap.step ∅ calls).2 := by
  obtain ⟨replies, holds⟩ := @Foundations.Runs.run_simulation _ _ _ _ _ Store.step
    AbstractMap.step Reply.view Call.Plain Store.Holds
    (fun _ _ _ holds plain => holds.step plain) _ _
    (Store.fresh_holds positive prng) calls plain
  exact ⟨_, kvInit_ok positive prng clean, replies, holds.contents⟩

/-- A push, a wrong-typed set, a resize, a pop that empties the list and a failing lookup on a
store with one bucket.
-/
theorem run_refines_abstractMap_emptied
    : ∃ start, kvInit 1 7 (.at 0) = .ok start
        ∧ (start.run
            [⟨.op (.lpush (some ⟨[107], by decide⟩) (some ⟨[97], by decide⟩)), .at 1, 0⟩,
              ⟨.op (.set (some ⟨[107], by decide⟩) (some ⟨[98], by decide⟩)), .at 2, 0⟩,
              ⟨.op (.resize 3), .at 3, 0⟩,
              ⟨.op (.rpop (some ⟨[107], by decide⟩)), .at 4, 0⟩,
              ⟨.op (.exist (some ⟨[107], by decide⟩)), .at 5, 0⟩]).1.map Reply.view
          = [.status 1, .status kvErrWrongType, .status kvOk,
              .popped kvOk (some ⟨[97], by decide⟩), .status 0] := by
  obtain ⟨start, opened, replies, _⟩ := run_refines_abstractMap (by decide : 0 < 1) 7
    (CallEnv.clean_at 0)
    [⟨.op (.lpush (some ⟨[107], by decide⟩) (some ⟨[97], by decide⟩)), .at 1, 0⟩,
      ⟨.op (.set (some ⟨[107], by decide⟩) (some ⟨[98], by decide⟩)), .at 2, 0⟩,
      ⟨.op (.resize 3), .at 3, 0⟩,
      ⟨.op (.rpop (some ⟨[107], by decide⟩)), .at 4, 0⟩,
      ⟨.op (.exist (some ⟨[107], by decide⟩)), .at 5, 0⟩]
    (by simp [Call.Plain, Op.isTimeless, CallEnv.clean_at])
  refine ⟨start, opened, replies.trans ?_⟩
  decide

end MiniKv
