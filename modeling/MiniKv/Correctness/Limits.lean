import MiniKv.Invariants.Accounting
import MiniKv.Invariants.Eviction

/-! The limits of a store over whole runs: the capacity bounds the number of entries, the budget
bounds the bytes, and a string is refused for lack of memory only when it would not even fit into
the empty store.
-/

namespace MiniKv

open MiniKv.Foundations.ChainedTable

/-- The number of entries and the bytes stay within what the store was given. -/
structure Table.WithinLimits (table : Table) : Prop where
  capacity : 0 < table.maxCapacity → table.size ≤ table.maxCapacity
  peak : table.allocatedBytes ≤ table.peakAllocatedBytes
  budget : 0 < table.maxMemoryBudget → table.peakAllocatedBytes ≤ table.maxMemoryBudget

variable {extra : Nat} {table after : Table} {store : Store}

theorem Table.WithinLimits.charge (limits : table.WithinLimits) {bytes : Nat}
    (fits : table.Fits bytes) {charged : Table}
    (capacity : 0 < charged.maxCapacity → charged.size ≤ charged.maxCapacity)
    (budget : charged.maxMemoryBudget = table.maxMemoryBudget)
    (allocated : charged.allocatedBytes ≤ table.allocatedBytes + bytes)
    (peak : charged.peakAllocatedBytes
      = max table.peakAllocatedBytes (table.allocatedBytes + bytes))
    : charged.WithinLimits := by
  refine ⟨capacity, peak ▸ allocated.trans (le_max_right ..), fun limited => ?_⟩
  rw [budget] at limited ⊢
  exact peak ▸ max_le (limits.budget limited) (fits limited)

/-- Every charge was tested against the budget, and every insertion against the capacity. -/
theorem Table.Change.withinLimits {stored : List CString} {refunded : Nat}
    (change : Table.Change stored table refunded after)
    (limits : table.WithinLimits)
    : after.WithinLimits := by
  cases change with
  | free prev here =>
      exact ⟨fun limited => (Nat.sub_le ..).trans (limits.capacity limited),
        (Nat.sub_le ..).trans limits.peak, limits.budget⟩
  | insert absent validKey valid sized exact _ notFull fits =>
      exact limits.charge fits (Table.atCapacity_eq_false.mp notFull) rfl le_rfl rfl
  | grow found grows fits => exact limits.charge fits limits.capacity rfl le_rfl rfl
  | shrink found valid sized exact =>
      exact ⟨limits.capacity, (Nat.sub_le ..).trans limits.peak, limits.budget⟩
  | resize positive fits =>
      exact limits.charge fits limits.capacity rfl (Nat.sub_le ..) rfl
  | _ => exact ⟨limits.capacity, limits.peak, limits.budget⟩

theorem Table.WithinLimits.path (limits : table.WithinLimits) (wf : table.WellFormed)
    (path : table.Path after)
    : after.WithinLimits :=
  (path.preserves Table.WithinLimits (fun _ limits change => change.withinLimits limits) wf
    limits).1

/-- What an opened store was given fits its budget. -/
theorem kvInitFull_withinLimits {bucketCount maxCapacity maxMemoryBudget : Nat}
    {path : Option CString} {log : List UInt8} {prng : UInt32} {env : CallEnv}
    {lineEnvs : Nat → CallEnv}
    (opened : kvInitFull bucketCount maxCapacity maxMemoryBudget path log prng env lineEnvs
      = .ok store)
    : store.table.WithinLimits := by
  obtain ⟨charged, replayed⟩ := kvInitFull_path opened
  refine Table.WithinLimits.path ?_ charged.wellFormed replayed
  have fits : 0 < maxMemoryBudget →
      bucketCount * sizeofPointer + pathBytes path ≤ maxMemoryBudget := by
    intro limited
    cases path with
    | none =>
        simp only [kvInitFull] at opened
        split_ifs at opened with zero within
        simpa [limited, Store.fresh, pathBytes] using within
    | some name =>
        simp only [kvInitFull] at opened
        split_ifs at opened with zero within allocated more
        simpa [limited, Store.fresh, pathBytes] using more
  refine ⟨fun _ => Nat.zero_le _, le_max_right .., fun limited => ?_⟩
  exact max_le ((Nat.le_add_right ..).trans (fits limited)) (fits limited)

/-- The action leaves the limits as they are. -/
def Action.keepsLimits : Action → Bool
  | .upkeep (.setMaxCapacity _) | .upkeep (.setMemoryBudget _) => false
  | _ => true

/-- Within its limits, which are the given ones. -/
structure Store.Limited (maxCapacity maxMemoryBudget : Nat) (store : Store) : Prop where
  wellFormed : store.table.WellFormed
  limits : store.table.WithinLimits
  maxCapacity : store.table.maxCapacity = maxCapacity
  maxMemoryBudget : store.table.maxMemoryBudget = maxMemoryBudget

theorem Store.Limited.path {maxCapacity maxMemoryBudget : Nat}
    (limited : store.Limited maxCapacity maxMemoryBudget) {later : Store}
    (path : store.table.Path later.table)
    : later.Limited maxCapacity maxMemoryBudget := by
  have kept := path.keeps limited.wellFormed
  exact ⟨kept.wellFormed, limited.limits.path limited.wellFormed path,
    kept.maxCapacity.trans limited.maxCapacity,
    kept.maxMemoryBudget.trans limited.maxMemoryBudget⟩

theorem Store.Limited.step {maxCapacity maxMemoryBudget : Nat}
    (limited : store.Limited maxCapacity maxMemoryBudget) {call : Call}
    (keeps : call.action.keepsLimits = true)
    : (store.step call).2.Limited maxCapacity maxMemoryBudget := by
  let drawn : Store := { store with table := { store.table with prng := call.prng } }
  have drawnLimited : drawn.Limited maxCapacity maxMemoryBudget :=
    limited.path (Table.QuietPath.draw store.table call.prng).path
  obtain ⟨action, env, prng⟩ := call
  cases action with
  | op op => exact drawnLimited.path (Op.call_path op env drawnLimited.wellFormed)
  | upkeep upkeep =>
      have unchanged : ∀ {later : Store}, later.table = drawn.table →
          later.Limited maxCapacity maxMemoryBudget :=
        fun same => drawnLimited.path (same ▸ .refl _)
      cases upkeep with
      | expireSampleSweep sampleSize maxKeysToDelete =>
          exact drawnLimited.path
            (drawn.table.expireSampleSweep_removals sampleSize maxKeysToDelete env.now).path
      | evictLru => exact drawnLimited.path drawn.table.evictLru_removals.path
      | setAutoResize enabled =>
          obtain ⟨wf, limits, capacity, budget⟩ := drawnLimited
          exact ⟨wf.congr rfl rfl rfl, ⟨limits.capacity, limits.peak, limits.budget⟩, capacity,
            budget⟩
      | bgrewriteaof pid => exact unchanged (@kvBgrewriteaof_table drawn pid env)
      | mergeAofRewrite childPid outcome =>
          exact unchanged (@kvMergeAofRewrite_table drawn childPid outcome)
      | discardAofRewrite => exact unchanged rfl
      | _ => simp [Action.keepsLimits] at keeps

theorem Store.Limited.run {maxCapacity maxMemoryBudget : Nat}
    (limited : store.Limited maxCapacity maxMemoryBudget) {calls : List Call}
    (keeps : ∀ call ∈ calls, call.action.keepsLimits = true)
    : (store.run calls).2.Limited maxCapacity maxMemoryBudget :=
  @Foundations.Runs.run_invariant _ _ _ Store.step (fun call => call.action.keepsLimits = true)
    (Store.Limited maxCapacity maxMemoryBudget) (fun _ _ limited keeps => limited.step keeps)
    store limited calls keeps

-- When a string is refused for lack of memory

/-- A table with exact books, before the access clock has reached its last value. -/
structure Table.Audited (extra : Nat) (table : Table) : Prop where
  wellFormed : table.WellFormed
  accounted : table.Accounted extra
  clock : table.lruClock < uint64Max

theorem Table.Audited.removals {Lost : Binding → Prop} (audited : table.Audited extra)
    (removals : Table.Removals Lost table after)
    : after.Audited extra ∧ after.bucketCount = table.bucketCount
      ∧ after.maxMemoryBudget = table.maxMemoryBudget := by
  have kept := removals.path.keeps audited.wellFormed
  exact ⟨⟨kept.wellFormed, (audited.accounted.path audited.wellFormed removals.path).1,
    removals.lruClock.symm ▸ audited.clock⟩, removals.bucketCount, kept.maxMemoryBudget⟩

/-- The table would exceed its budget with that many bytes and no entries. -/
def Table.TooSmallFor (extra : Nat) (table : Table) (bytes : Nat) : Prop :=
  table.maxMemoryBudget < table.bucketCount * sizeofPointer + extra + bytes

/-- The loop that makes room gives up on an empty table only. -/
theorem Table.Audited.makeRoom_fails (audited : table.Audited extra) {bytes : Nat}
    (failed : (table.makeRoom bytes).1 = false)
    : table.TooSmallFor extra bytes := by
  obtain ⟨empty, excess⟩ := (audited.wellFormed.evictable audited.clock).makeRoom_fails failed
  obtain ⟨later, buckets, _⟩ := audited.removals (table.makeRoom_removals bytes)
  have total := later.accounted.exact
  rw [Table.entryBytes, empty, List.map_nil, List.sum_nil, Nat.add_zero, buckets] at total
  rwa [Table.TooSmallFor, ← total]

/-- The bytes of a new entry with a string. -/
def stringEntryBytes (key value : CString) : Nat :=
  sizeofEntry + (key.length + 1) + (value.length + 1)

theorem Table.Audited.insertString_refused (audited : table.Audited extra) {key value : CString}
    {env : CallEnv} (refused : (table.insertString key value env).1 = kvErrBudgetExceeded)
    : table.TooSmallFor extra (stringEntryBytes key value)
      ∧ (table.insertString key value env).2.bucketCount = table.bucketCount := by
  have bytes : sizeofEntry + key.length + 1 + value.length + 1 = stringEntryBytes key value := by
    rw [stringEntryBytes]
    omega
  simp only [Table.insertString, bytes] at refused ⊢
  split at refused
  · exact absurd refused (show kvErrCapacityFull ≠ kvErrBudgetExceeded by decide)
  · next notFull =>
      rw [if_neg notFull]
      split at refused
      · next failed =>
          rw [if_pos failed]
          exact ⟨audited.makeRoom_fails failed, (table.makeRoom_removals _).bucketCount⟩
      · split at refused
        · exact absurd refused (show kvErrInternal ≠ kvErrBudgetExceeded by decide)
        · exact absurd refused (show kvOk ≠ kvErrBudgetExceeded by decide)

theorem Table.overwriteString_status (table : Table) (key value : CString) (oldValBytes : Nat)
    (env : CallEnv)
    : (table.overwriteString key value oldValBytes env).1 ≠ kvErrBudgetExceeded := by
  simp only [Table.overwriteString]
  split
  · exact (show kvErrInternal ≠ kvErrBudgetExceeded by decide)
  · split
    · exact (show kvOk ≠ kvErrBudgetExceeded by decide)
    · exact (show kvOk ≠ kvErrBudgetExceeded by decide)

/-- Either loop of an update gives up only when the whole new entry would not fit. -/
theorem Table.Audited.storeString_refused (audited : table.Audited extra) {key value : CString}
    {env : CallEnv} (refused : (table.storeString key value env).1 = kvErrBudgetExceeded)
    : table.TooSmallFor extra (stringEntryBytes key value)
      ∧ (table.storeString key value env).2.bucketCount = table.bucketCount := by
  simp only [Table.storeString] at refused ⊢
  cases present : table.lookup key with
  | none =>
      simp only [present] at refused ⊢
      exact audited.insertString_refused refused
  | some existing =>
      simp only [present] at refused ⊢
      cases payload : existing.value with
      | string old =>
          simp only [payload] at refused ⊢
          generalize delta : value.length + 1 - (old.length + 1) = bytes at refused ⊢
          generalize made : (if 0 < bytes then table.makeRoom bytes else (true, table)) = room
            at refused ⊢
          have removals : Table.Removals (fun _ => True) table room.2 := by
            rw [← made]
            split
            · exact table.makeRoom_removals bytes
            · exact .refl _ _
          obtain ⟨later, buckets, budget⟩ := audited.removals removals
          by_cases failed : room.1 = false
          · rw [if_pos failed]
            refine ⟨?_, buckets⟩
            have positive : 0 < bytes := by
              by_contra none
              rw [if_neg none] at made
              simp [← made] at failed
            rw [if_pos positive] at made
            subst made
            have small := audited.makeRoom_fails failed
            rw [Table.TooSmallFor] at small ⊢
            rw [stringEntryBytes]
            omega
          · rw [if_neg failed] at refused ⊢
            cases found : room.2.lookup key with
            | some entry =>
                simp only [found] at refused
                exact absurd refused (Table.overwriteString_status _ _ _ _ _)
            | none =>
                simp only [found] at refused ⊢
                obtain ⟨small, same⟩ := later.insertString_refused refused
                rw [Table.TooSmallFor, buckets, budget] at small
                exact ⟨small, same.trans buckets⟩
      | _ =>
          simp only [payload] at refused
          exact absurd refused (by decide)

/-- A refused argument is reported with a code of its own. -/
theorem argumentErrors_ne_budget {err : Int} (refused : err ∈ argumentErrors)
    : err ≠ kvErrBudgetExceeded := by
  revert err
  decide

theorem kvSetInternal_refused {key value : CString} {env : CallEnv}
    (audited : store.table.Audited extra)
    (refused : (kvSetInternal store (some key) (some value) env).1 = kvErrBudgetExceeded)
    : store.table.TooSmallFor extra (stringEntryBytes key value)
      ∧ (kvSetInternal store (some key) (some value) env).2.table.bucketCount
        = store.table.bucketCount := by
  simp only [kvSetInternal] at refused ⊢
  cases checkedKey : validateKey (some key) with
  | error err =>
      simp only [checkedKey] at refused
      exact absurd refused (argumentErrors_ne_budget (validateKey_error checkedKey))
  | ok accepted =>
      cases checkedValue : validateValue (some value) with
      | error err =>
          simp only [checkedKey, checkedValue] at refused
          exact absurd refused (argumentErrors_ne_budget (validateValue_error checkedValue))
      | ok acceptedValue =>
          obtain rfl := Option.some.inj (validateKey_eq_ok.mp checkedKey).1
          obtain rfl := Option.some.inj (validateValue_eq_ok.mp checkedValue).1
          simp only [checkedKey, checkedValue] at refused ⊢
          split at refused
          · exact absurd refused (show kvOk ≠ kvErrBudgetExceeded by decide)
          · next failed =>
              rw [if_neg failed]
              exact audited.storeString_refused refused

/-- Doubling the array leaves the access clock alone. -/
theorem Table.growIfLoaded_lruClock (table : Table) (env : CallEnv)
    : (table.growIfLoaded env).lruClock = table.lruClock := by
  simp only [Table.growIfLoaded, Table.kvResizeUnlocked]
  split_ifs <;> rfl

theorem Aof.writeAofRecord_ne_budget (aof : Aof) (record : List UInt8) (io : IoOutcome)
    : (aof.writeAofRecord record io).1 ≠ kvErrBudgetExceeded := by
  have okay : kvOk ≠ kvErrBudgetExceeded := by decide
  have failed : kvErrIo ≠ kvErrBudgetExceeded := by decide
  simp only [Aof.writeAofRecord]
  split
  · exact okay
  · split
    · exact failed
    · split
      · exact okay
      · exact failed
    · split
      · exact failed
      · exact failed

theorem kvSet_refused {key value : CString} {env : CallEnv}
    (audited : store.table.Audited extra)
    (refused : (kvSet store (some key) (some value) env).1 = kvErrBudgetExceeded)
    : store.table.maxMemoryBudget
        < (kvSet store (some key) (some value) env).2.table.bucketCount * sizeofPointer + extra
          + stringEntryBytes key value := by
  have grown := (store.table.growIfLoaded_stores env).path
  have kept := grown.keeps audited.wellFormed
  have grownAudited : (store.table.growIfLoaded env).Audited extra :=
    ⟨kept.wellFormed, (audited.accounted.path audited.wellFormed grown).1,
      (store.table.growIfLoaded_lruClock env).symm ▸ audited.clock⟩
  -- Whatever the log does, the call ends as its in-memory part does.
  have applied : ∀ aof : Aof,
      (kvSetInternal ⟨store.table.growIfLoaded env, aof⟩ (some key) (some value) env).1
        = kvErrBudgetExceeded →
      store.table.maxMemoryBudget
        < (kvSetInternal ⟨store.table.growIfLoaded env, aof⟩ (some key) (some value)
            env).2.table.bucketCount * sizeofPointer + extra + stringEntryBytes key value := by
    intro aof failed
    obtain ⟨small, same⟩ := @kvSetInternal_refused _ ⟨store.table.growIfLoaded env, aof⟩ _ _ _
      grownAudited failed
    rwa [Table.TooSmallFor, kept.maxMemoryBudget, ← same] at small
  simp only [kvSet] at refused ⊢
  cases checkedKey : validateKey (some key) with
  | error err =>
      simp only [checkedKey] at refused
      exact absurd refused (argumentErrors_ne_budget (validateKey_error checkedKey))
  | ok accepted =>
      cases checkedValue : validateValue (some value) with
      | error err =>
          simp only [checkedKey, checkedValue] at refused
          exact absurd refused (argumentErrors_ne_budget (validateValue_error checkedValue))
      | ok acceptedValue =>
          simp only [checkedKey, checkedValue] at refused ⊢
          split at refused
          · next closed =>
              rw [if_pos closed]
              exact applied _ refused
          · next opened =>
              rw [if_neg opened]
              split at refused
              · exact absurd refused (Aof.writeAofRecord_ne_budget _ _ _)
              · next logged =>
                  rw [if_neg logged]
                  split at refused
                  · next failed =>
                      rw [if_pos failed]
                      exact applied _ refused
                  · next succeeded =>
                      rw [if_neg succeeded]
                      exact applied _ refused

/-- Over every run of string operations the capacity bounds the number of entries, the budget
bounds the bytes and their peak, and setting a string is refused for lack of memory only when the
bucket array, the path and the new entry together exceed the budget. The last holds until the
64-bit access clock has counted to its end.
Witness: every charge and every insertion was tested first, and an eviction loop that gives up has
emptied the table.
-/
theorem run_withinLimits {bucketCount maxCapacity maxMemoryBudget : Nat} {path : Option CString}
    {log : List UInt8} {prng : UInt32} {env : CallEnv} {lineEnvs : Nat → CallEnv}
    {start : Store}
    (opened : kvInitFull bucketCount maxCapacity maxMemoryBudget path log prng env lineEnvs
      = .ok start)
    (calls : List Call)
    (admitted : (maxMemoryBudget = 0 ∨ LogFillsNone log)
      ∧ ∀ call ∈ calls, call.action.fillsContainer = false ∧ call.action.keepsLimits = true)
    : let store := (start.run calls).2
      (0 < maxCapacity → store.table.size ≤ maxCapacity)
      ∧ (0 < maxMemoryBudget → store.table.allocatedBytes ≤ store.table.peakAllocatedBytes
          ∧ store.table.peakAllocatedBytes ≤ maxMemoryBudget)
      ∧ (∀ key value env prng, store.table.lruClock < uint64Max →
          let called := store.step ⟨.op (.set (some key) (some value)), env, prng⟩
          called.1 = .status kvErrBudgetExceeded →
          maxMemoryBudget < called.2.table.bucketCount * sizeofPointer + pathBytes path
            + (sizeofEntry + (key.length + 1) + (value.length + 1)))
      ∧ ∀ reply ∈ (start.run calls).1, reply ≠ .undefined := by
  have kept := kvInitFull_keeps opened
  have begins : start.Limited maxCapacity maxMemoryBudget :=
    ⟨kept.wellFormed, kvInitFull_withinLimits opened, kept.maxCapacity, kept.maxMemoryBudget⟩
  obtain ⟨wf, limits, rfl, rfl⟩ := begins.run (fun call member => (admitted.2 call member).2)
  have books := (kvInitFull_books opened).1.run calls
  refine ⟨limits.capacity, fun limited => ⟨limits.peak, limits.budget limited⟩, ?_, ?_⟩
  · intro key value env prng clock called refused
    let drawn : Store :=
      { (start.run calls).2 with table := { (start.run calls).2.table with prng } }
    have draw := (Table.QuietPath.draw (start.run calls).2.table prng).path
    have audited : drawn.table.Audited (pathBytes path) :=
      ⟨wf.congr rfl rfl rfl, (books.accounted.path wf draw).1, clock⟩
    exact @kvSet_refused _ drawn key value env audited (Reply.status.inj refused)
  · exact @Foundations.Runs.run_replies _ _ _ Store.step
      (fun call => call.action.fillsContainer = false) (fun _ => True)
      (fun reply => reply ≠ .undefined) (fun _ _ _ _ => trivial)
      (fun _ _ _ fillsNone => Store.step_defined fillsNone) start trivial calls
      (fun call member => (admitted.2 call member).1)

/-- A store for one entry and 70 bytes, in which a string that grows by four bytes evicts itself and
is refused then.
-/
theorem run_withinLimits_refused
    : ∃ start,
        kvInitFull 2 1 70 none [] 7 (.at 0) (fun _ => .at 0) = .ok start
        ∧ let store := (start.run
            [⟨.op (.set (some ⟨[97], by decide⟩) (some ⟨[120], by decide⟩)), .at 1, 3⟩]).2
          let called := store.step
            ⟨.op (.set (some ⟨[97], by decide⟩) (some ⟨[98, 98, 98, 98, 98], by decide⟩)), .at 2, 3⟩
          store.table.size ≤ 1
          ∧ called.1 = .status kvErrBudgetExceeded
          ∧ 70 < called.2.table.bucketCount * sizeofPointer + pathBytes none
              + (sizeofEntry + (1 + 1) + (5 + 1)) := by
  refine ⟨_, rfl, ?_⟩
  have limits := @run_withinLimits 2 1 70 none [] 7 (.at 0) (fun _ => .at 0) _ rfl
    [⟨.op (.set (some ⟨[97], by decide⟩) (some ⟨[120], by decide⟩)), .at 1, 3⟩]
    ⟨.inr (fun _ member => absurd member List.not_mem_nil), by decide⟩
  have refused := limits.2.2.1 ⟨[97], by decide⟩ ⟨[98, 98, 98, 98, 98], by decide⟩ (.at 2) 3
    (by decide +kernel) (by decide +kernel)
  exact ⟨limits.1 (by decide), by decide +kernel, refused⟩

end MiniKv
