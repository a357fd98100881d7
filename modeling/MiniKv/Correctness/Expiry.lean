import MiniKv.Refinement.Runs
import MiniKv.Store.Mutations

/-! Lazy expiry. Most operations look keys up with `find_entry_unlocked`, which takes an expired
entry away first. `kv_set` and `kv_delete` search the chain themselves and meet the expired
entry.
-/

namespace MiniKv

open MiniKv.Foundations.FiniteMaps

/-- The store with the entry of a key removed, expired or not. -/
def Store.without (store : Store) (key : CString) : Store :=
  { store with table := (store.table.deleteEntry key).getD store.table }

/-- The operations that search a chain without an expiry test: `kv_set`, unless it is refused
because of its value or of the length of its record, and `kv_delete`.
-/
def Op.SkipsExpiry (op : Op) (logging : Bool) : Prop :=
  match op with
  | .set (some key) (some value) =>
      ValidValue value ∧ (logging = true → (Record.set key value).fits = true)
  | .delete _ => True
  | _ => False

-- The logical machine

section

variable {map : LogicalMap} {key : CString} {binding : Binding} {now : Int64}

theorem LogicalMap.expire_erase (map : LogicalMap) (now : Int64) (key : CString)
    : LogicalMap.expire (map.erase key) now key = map.erase key := by
  rw [LogicalMap.expire, Finmap.lookup_erase]

/-- Nobody sees whether an expired binding is still there. -/
theorem LogicalMap.visible_erase (found : map.lookup key = some binding)
    (expired : binding.isExpired now = true) (other : CString)
    : LogicalMap.visible (map.erase key) now other = LogicalMap.visible map now other := by
  by_cases same : other = key
  · subst same
    simp [LogicalMap.visible, Finmap.lookup_erase, found, expired]
  · rw [LogicalMap.visible, LogicalMap.visible, Finmap.lookup_erase_ne same]

/-- Two outcomes that differ at most in whether a key that nobody sees is still bound. -/
def Outcome.Alike (left right : Outcome) (map other : LogicalMap) : Prop :=
  left = right ∨ ∃ reply, left = .silent reply map ∧ right = .silent reply other

/-- An operation that looks its key up takes the expired binding away first. -/
theorem Op.outcome_alike {op : Op} {logging : Bool} (capacity : Nat)
    (found : map.lookup key = some binding) (expired : binding.isExpired now = true)
    (validKey : ValidKey key) (about : op.key = some key) (looksUp : ¬ op.SkipsExpiry logging)
    : (op.outcome capacity logging now map).Alike
        (op.outcome capacity logging now (map.erase key)) map (map.erase key) := by
  have first := LogicalMap.expire_of_expired found expired
  have second := LogicalMap.expire_erase map now key
  have checkedKey := validateKey_of_valid validKey
  cases op with
  | set other value =>
      obtain rfl : other = some key := about
      right
      simp only [Op.outcome, checkedKey]
      cases checkedValue : validateValue value with
      | error err => exact ⟨_, rfl, rfl⟩
      | ok accepted =>
          obtain ⟨rfl, validValue⟩ := validateValue_eq_ok.mp checkedValue
          simp only [Op.SkipsExpiry, not_and, not_forall, Bool.not_eq_true] at looksUp
          obtain ⟨isLogging, long⟩ := looksUp validValue
          simp only [isLogging, long, Bool.not_false, Bool.and_self, if_true]
          exact ⟨_, rfl, rfl⟩
  | delete other => exact absurd trivial looksUp
  | get other | exist other | llen other | scard other | smembers other =>
      obtain rfl : other = some key := about
      left
      simp only [Op.outcome, LogicalMap.read, first, second]
  | lpush other value =>
      obtain rfl : other = some key := about
      cases value with
      | none => exact .inr ⟨_, rfl, rfl⟩
      | some value =>
          simp only [Op.outcome, checkedKey]
          cases validateValue (some value) with
          | error err => exact .inr ⟨_, rfl, rfl⟩
          | ok value =>
              left
              simp only [LogicalMap.lpush, first, second]
  | rpop other =>
      obtain rfl : other = some key := about
      left
      simp only [Op.outcome, LogicalMap.rpop, first, second]
  | sadd other value =>
      obtain rfl : other = some key := about
      cases value with
      | none => exact .inr ⟨_, rfl, rfl⟩
      | some value =>
          simp only [Op.outcome, checkedKey]
          cases validateValue (some value) with
          | error err => exact .inr ⟨_, rfl, rfl⟩
          | ok value =>
              left
              simp only [LogicalMap.sadd, first, second]
  | srem other value =>
      obtain rfl : other = some key := about
      cases value with
      | none => exact .inr ⟨_, rfl, rfl⟩
      | some value =>
          left
          simp only [Op.outcome, LogicalMap.srem, first, second]
  | pexpireat other _ | expire other _ | pexpire other _ =>
      obtain rfl : other = some key := about
      left
      simp only [Op.outcome, LogicalMap.pexpireat, first, second]
  | pttl other | ttl other =>
      obtain rfl : other = some key := about
      left
      simp only [Op.outcome, LogicalMap.pttl, first, second]
  | persist other =>
      obtain rfl : other = some key := about
      left
      simp only [Op.outcome, LogicalMap.persist, first, second]
  | resize newBucketCount => simp [Op.key] at about

/-- The outcome on the map with the binding and on the map without it look the same. -/
theorem Outcome.Alike.visible {left right : Outcome}
    (alike : left.Alike right map (map.erase key)) (found : map.lookup key = some binding)
    (expired : binding.isExpired now = true)
    : left.reply = right.reply
      ∧ ∀ other,
          LogicalMap.visible left.map now other = LogicalMap.visible right.map now other := by
  rcases alike with rfl | ⟨reply, rfl, rfl⟩
  · exact ⟨rfl, fun _ => rfl⟩
  · exact ⟨rfl, fun other => (LogicalMap.visible_erase found expired other).symm⟩

/-- `kv_set` and `kv_delete` on an expired binding answer otherwise, or write a value that
nobody sees.
-/
theorem Op.outcome_skipsExpiry {op : Op} {logging : Bool}
    (found : map.lookup key = some binding) (expired : binding.isExpired now = true)
    (validKey : ValidKey key) (about : op.key = some key) (skips : op.SkipsExpiry logging)
    : (op.outcome 0 logging now map).reply ≠ (op.outcome 0 logging now (map.erase key)).reply
      ∨ LogicalMap.visible (op.outcome 0 logging now map).map now key
        ≠ LogicalMap.visible (op.outcome 0 logging now (map.erase key)).map now key := by
  have checkedKey := validateKey_of_valid validKey
  have unlimited : LogicalMap.full (map.erase key) 0 = false := by simp [LogicalMap.full]
  cases op with
  | set other value =>
      obtain rfl : other = some key := about
      cases value with
      | none => exact skips.elim
      | some value =>
          obtain ⟨validValue, fits⟩ := skips
          have accepted : (logging && !(Record.set key value).fits) = false := by
            cases logging with
            | true => simp [fits rfl]
            | false => rfl
          obtain ⟨content, expireAt⟩ := binding
          have unseen : ∀ content, (Binding.mk content expireAt).isExpired now = true :=
            fun _ => expired
          simp only [Op.outcome, checkedKey, validateValue_of_valid validValue, accepted,
            Bool.false_eq_true, if_false, LogicalMap.set, found, Finmap.lookup_erase, unlimited]
          cases content with
          | string old =>
              right
              have seen : (Binding.mk (.string value) 0).isExpired now = false := by
                simp [Binding.isExpired]
              simp [Outcome.recorded, LogicalMap.visible, Option.filter, unseen, seen]
          | _ =>
              left
              simp [Outcome.recorded, Outcome.silent, kvOk, kvErrWrongType]
  | delete other =>
      obtain rfl : other = some key := about
      left
      simp [Op.outcome, checkedKey, LogicalMap.delete, found, Finmap.lookup_erase,
        Outcome.recorded, Outcome.silent, kvOk, kvErrNotFound]
  | _ => exact skips.elim

end

-- Replies

/-- Replies that list no members and look the same are the same. -/
theorem Reply.eq_of_view {left right : Reply (List CString)} (same : left.view = right.view)
    (noMembers : ∀ members count, left ≠ .members (some members) count)
    : left = right := by
  cases left with
  | members listed count =>
      cases listed with
      | some members => exact absurd rfl (noMembers members count)
      | none =>
          cases right with
          | members other number =>
              cases other with
              | none => simpa [Reply.view, Reply.map] using same
              | some members => simp [Reply.view, Reply.map] at same
          | _ => simp [Reply.view, Reply.map] at same
  | _ => cases right <;> simp_all [Reply.view, Reply.map]

/-- Only `kv_smembers` lists members. -/
theorem Op.call_members {op : Op} {env : CallEnv} {store : Store}
    {members : Option (List CString)} {count : Nat}
    (reply : (op.call env store).1 = .members members count)
    : ∃ key, op = .smembers key := by
  cases op with
  | smembers key => exact ⟨key, rfl⟩
  | lpush key value =>
      simp only [Op.call, Prod.map_fst] at reply
      cases result : (kvLpush store key value env).1 <;> simp [result, Reply.ofResult] at reply
  | sadd key value =>
      simp only [Op.call, Prod.map_fst] at reply
      cases result : (kvSadd store key value env).1 <;> simp [result, Reply.ofResult] at reply
  | _ => simp [Op.call] at reply

-- The store

theorem Table.WellFormed.without_becomes {store : Store} (wf : store.table.WellFormed)
    {key : CString} {entry : Entry} (found : store.table.lookup key = some entry)
    : store.table.Becomes (store.without key).table (store.table.logical.erase key) := by
  cases met : store.table.seekEntry key with
  | none => simp [Table.seekEntry_none.mp met] at found
  | some cursor =>
      simp only [Store.without, Table.deleteEntry, met, Option.map_some, Option.getD_some]
      exact wf.expireAndDelete_seek met

/-- An operation at a time when the entry of its key is expired answers as if the entry were not
there, and leaves the same keys and values visible, exactly when it is neither a `kv_set` that
gets to the chain nor a `kv_delete`.
-/
theorem expired_behaves_absent_iff {store : Store}
    (reachable : store.Reachable (fun _ => True)) (uncapped : store.table.maxCapacity = 0)
    {key : CString} {entry : Entry} (found : store.table.lookup key = some entry) {now : Int64}
    (expired : entryIsExpired entry now = true) {op : Op} (about : op.key = some key)
    : ((op.call (.at now) store).1 = (op.call (.at now) (store.without key)).1
        ∧ ∀ other,
            LogicalMap.visible (op.call (.at now) store).2.table.logical now other
              = LogicalMap.visible (op.call (.at now) (store.without key)).2.table.logical now
                  other)
      ↔ ¬ op.SkipsExpiry store.aof.fp.isSome := by
  have wf := reachable.sound.wellFormed
  have unlimited := reachable.sound.unlimited
  have removed := wf.without_becomes found
  have bound : store.table.logical.lookup key = some entry.binding := by
    rw [wf.logical_lookup, found, Option.map_some]
  have validKey := wf.logical_valid.keys key _ bound
  have passed : entry.binding.isExpired now = true := expired
  have live := Op.call_matches op wf unlimited (CallEnv.clean_at now)
  have gone := @Op.call_matches (store.without key) (.at now) op removed.wellFormed
    (removed.maxMemoryBudget.trans unlimited) (CallEnv.clean_at now)
  rw [removed.maxCapacity, removed.logical] at gone
  have atNow : (CallEnv.at now).now = now := rfl
  rw [uncapped, atNow] at live gone
  have liveMap := live.table.logical
  have goneMap := gone.table.logical
  rw [liveMap, goneMap]
  refine ⟨fun ⟨reply, visible⟩ skips => ?_, fun looksUp => ?_⟩
  · rcases Op.outcome_skipsExpiry bound passed validKey about skips with answers | shows
    · exact answers (live.reply.symm.trans ((congrArg Reply.view reply).trans gone.reply))
    · exact shows (visible key)
  · have alike := Op.outcome_alike 0 bound passed validKey about looksUp
    obtain ⟨reply, visible⟩ := alike.visible bound passed
    refine ⟨Reply.eq_of_view (live.reply.trans (reply.trans gone.reply.symm)) ?_, visible⟩
    intro members count listed
    obtain ⟨other, rfl⟩ := Op.call_members listed
    obtain rfl : other = some key := about
    have shown := live.reply
    rw [listed] at shown
    simp [Op.outcome, LogicalMap.read, LogicalMap.expire_of_expired bound passed,
      Finmap.lookup_erase, Reply.view, Reply.map, Outcome.silent] at shown

/-- Reading the members of an expired list, and finding nothing. -/
theorem expired_behaves_absent_iff_smembers
    : ∃ start, kvInit 1 7 (.at 0) = .ok start
        ∧ let store := (start.run
            [⟨.op (.lpush (some ⟨[107], by decide⟩) (some ⟨[97], by decide⟩)), .at 1, 0⟩,
              ⟨.op (.pexpireat (some ⟨[107], by decide⟩) 5), .at 2, 0⟩]).2
          ((Op.smembers (some ⟨[107], by decide⟩)).call (.at 10) store).1
            = ((Op.smembers (some ⟨[107], by decide⟩)).call (.at 10)
                (store.without ⟨[107], by decide⟩)).1 := by
  refine ⟨_, rfl, ?_⟩
  have reachable : Store.Reachable (fun _ => True)
      ((Store.fresh 1 0 0 7 []).run
        [⟨.op (.lpush (some ⟨[107], by decide⟩) (some ⟨[97], by decide⟩)), .at 1, 0⟩,
          ⟨.op (.pexpireat (some ⟨[107], by decide⟩) 5), .at 2, 0⟩]).2 :=
    ⟨1, 0, none, [], 7, .at 0, fun _ => .at 0, _, _, rfl, fun _ => trivial,
      by simp [Action.keepsUnlimited], rfl⟩
  exact ((@expired_behaves_absent_iff _ reachable rfl ⟨[107], by decide⟩ _ rfl 10
    (by decide +kernel) (.smembers (some ⟨[107], by decide⟩)) rfl).mpr
    (by simp [Op.SkipsExpiry])).1

/-- `kv_set` on an expired string succeeds, and the value it wrote cannot be read; with the
expired entry removed first it can.
-/
theorem set_of_expired_is_lost
    : ∃ start, kvInit 1 7 (.at 0) = .ok start
        ∧ let store := (start.run
            [⟨.op (.set (some ⟨[107], by decide⟩) (some ⟨[97], by decide⟩)), .at 1, 0⟩,
              ⟨.op (.pexpireat (some ⟨[107], by decide⟩) 5), .at 2, 0⟩]).2
          let again : List Call :=
            [⟨.op (.set (some ⟨[107], by decide⟩) (some ⟨[98], by decide⟩)), .at 10, 0⟩,
              ⟨.op (.get (some ⟨[107], by decide⟩)), .at 10, 0⟩]
          (store.run again).1 = [.status kvOk, .value none]
            ∧ ((store.without ⟨[107], by decide⟩).run again).1
              = [.status kvOk, .value (some ⟨[98], by decide⟩)] := by
  refine ⟨_, rfl, ?_, ?_⟩
  · decide +kernel
  · decide +kernel

end MiniKv
