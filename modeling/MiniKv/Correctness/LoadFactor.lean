import MiniKv.Invariants.Reachable
import MiniKv.Store.Mutations

/-! The load factor. `kv_set` doubles the bucket array before it inserts, when the new entry would
take the table over three entries for four buckets. `kv_lpush` and `kv_sadd` make the same test to
choose their locks only, and insert into the array as it is.
-/

namespace MiniKv

open MiniKv.Foundations.ChainedTable
open MiniKv.Foundations.DoublyLinked
open MiniKv.Foundations.Runs (Along)

variable {table : Table} {store : Store}

-- Strings

theorem Table.insertEntry_adds (table : Table) (key : CString) (value : Payload) (bytes : Nat)
    : Table.Adds 1 table (table.insertEntry key value bytes) :=
  ⟨List.length_modify .., le_rfl, rfl⟩

theorem Table.makeRoom_adds (table : Table) (bytes : Nat)
    : Table.Adds 0 table (table.makeRoom bytes).2 :=
  (table.makeRoom_removals bytes).quiet.adds

theorem Table.Adds.more {before after : Table} (adds : Table.Adds 0 before after) (count : Nat)
    : Table.Adds count before after :=
  ⟨adds.bucketCount, adds.size.trans (Nat.le_add_right ..), adds.autoResize⟩

theorem Table.insertString_adds (table : Table) (key value : CString) (env : CallEnv)
    : Table.Adds 1 table (table.insertString key value env).2 := by
  simp only [Table.insertString]
  split
  · exact (Table.Adds.refl table).more 1
  · have room := table.makeRoom_adds (sizeofEntry + key.length + 1 + value.length + 1)
    split
    · exact room.more 1
    · split
      · exact room.more 1
      · exact room.trans (Table.insertEntry_adds ..)

theorem Table.overwriteString_adds (table : Table) (key value : CString) (oldValBytes : Nat)
    (env : CallEnv)
    : Table.Adds 0 table (table.overwriteString key value oldValBytes env).2 := by
  simp only [Table.overwriteString]
  have written : ((table.setPayload key (.string value)).touch key).bucketCount
      = table.bucketCount := by
    simp [Table.bucketCount, Table.touch, Table.setPayload, Table.modifyEntry]
  split_ifs
  · exact .refl table
  · exact ⟨written, le_rfl, rfl⟩
  · exact ⟨written, le_rfl, rfl⟩

theorem Table.storeString_adds (table : Table) (key value : CString) (env : CallEnv)
    : Table.Adds 1 table (table.storeString key value env).2 := by
  simp only [Table.storeString]
  split
  · exact table.insertString_adds key value env
  · next existing _ =>
      split
      · next old _ =>
          generalize value.length + 1 - (old.length + 1) = delta
          have room : Table.Adds 0 table
              (if 0 < delta then table.makeRoom delta else (true, table)).2 := by
            split
            · exact table.makeRoom_adds delta
            · exact .refl table
          generalize (if 0 < delta then table.makeRoom delta else (true, table)) = made at room ⊢
          split
          · exact room.more 1
          · split
            · exact (room.trans (Table.overwriteString_adds ..)).more 1
            · exact room.trans (Table.insertString_adds ..)
      · exact (Table.Adds.refl table).more 1

/-- What `kv_set` does to the table: nothing, or growing the array and storing the string in it. -/
theorem kvSet_table (store : Store) (key value : Option CString) (env : CallEnv)
    : (kvSet store key value env).2.table = store.table
      ∨ Table.Adds 1 (store.table.growIfLoaded env) (kvSet store key value env).2.table := by
  have applied : ∀ aof : Aof, Table.Adds 1 (store.table.growIfLoaded env)
      (kvSetInternal { table := store.table.growIfLoaded env, aof } key value env).2.table := by
    intro aof
    simp only [kvSetInternal]
    split
    · exact (Table.Adds.refl _).more 1
    · split
      · exact (Table.Adds.refl _).more 1
      · have stored := (store.table.growIfLoaded env).storeString_adds
        split
        · exact stored _ _ env
        · exact stored _ _ env
  simp only [kvSet]
  split
  · exact .inl rfl
  · split
    · exact .inl rfl
    · right
      split
      · exact applied _
      · split
        · exact (Table.Adds.refl _).more 1
        · split
          · exact applied _
          · exact applied _

/-- Without a budget and with memory at hand the array gets the size it is asked to get. -/
theorem Table.WellFormed.resize_load (wf : table.WellFormed)
    (unlimited : table.maxMemoryBudget = 0) {env : CallEnv} (allocates : env.Allocates)
    {newBucketCount : Nat} (positive : 0 < newBucketCount)
    : let resized := (table.kvResizeUnlocked newBucketCount env).2
      resized.bucketCount = newBucketCount ∧ resized.size = table.size
      ∧ resized.autoResize = table.autoResize := by
  have enough : ¬ (0 < table.maxMemoryBudget
      ∧ table.maxMemoryBudget < table.allocatedBytes + newBucketCount * sizeofPointer) := by
    simp [unlimited]
  simp only [Table.kvResizeUnlocked, if_neg (Nat.ne_of_gt positive), if_neg enough,
    allocates .buckets, Bool.true_eq_false, if_false]
  exact ⟨(wf.rehashed positive).2.1, rfl, rfl⟩

/-- Doubling the array leaves room for one entry more. -/
theorem Table.WellFormed.growIfLoaded_load (wf : table.WellFormed)
    (unlimited : table.maxMemoryBudget = 0) (auto : table.autoResize = true)
    (load : table.size * 4 < table.bucketCount * 3) {env : CallEnv} (allocates : env.Allocates)
    : let grown := table.growIfLoaded env
      (grown.size + 1) * 4 < grown.bucketCount * 3 ∧ grown.autoResize = true := by
  have positive : 0 < table.bucketCount := wf.placed.nonempty
  simp only [Table.growIfLoaded]
  split
  · obtain ⟨count, size, autoResize⟩ := wf.resize_load unlimited allocates
      (Nat.mul_pos positive (Nat.zero_lt_two))
    refine ⟨?_, autoResize.trans auto⟩
    rw [count, size]
    -- One bucket holds no entry yet; with more of them, doubling adds room for four.
    rcases Nat.lt_or_ge 1 table.bucketCount with several | one <;> omega
  · next within =>
      simp only [Table.loadFactorExceeded, auto, Bool.true_and, decide_eq_true_eq, not_le]
        at within
      exact ⟨within, auto⟩

-- Containers

/-- What a push or an add does to the table behind the lookup of its key: it inserts the key, which
was not there, or it inserts nothing.
-/
structure Table.Pushed (table : Table) (key : CString) (now : Int64) (after : Table) : Prop where
  bucketCount : after.bucketCount = table.bucketCount
  autoResize : after.autoResize = table.autoResize
  inserts : let found := table.findEntryUnlocked key now
    let later := after.findEntryUnlocked key now
    (after.size ≤ found.2.size ∧ (found.1 = none → later.1 = none))
      ∨ found.1 = none ∧ after.size = found.2.size + 1 ∧ later.1.isSome

variable {key : CString} {env : CallEnv}

theorem Table.WellFormed.openContainer_pushed (wf : table.WellFormed)
    (unlimited : table.maxMemoryBudget = 0) (validKey : ValidKey key) (wanted : Payload → Bool)
    {fresh : Payload} (valid : fresh.WellFormed) (overhead : Nat) (sites : List AllocSite)
    : table.Pushed key env.now (table.openContainer key wanted fresh overhead sites env).2 := by
  have quiet := table.find_quiet key env.now
  have looked := quiet.keeps wf
  have same := (wf.findEntry key env.now).2
  have room := Table.makeRoom_of_unlimited (looked.maxMemoryBudget.trans unlimited) overhead
  have untouched : table.Pushed key env.now (table.findEntryUnlocked key env.now).2 :=
    ⟨quiet.adds.bucketCount, quiet.adds.autoResize, .inl ⟨le_rfl, fun absent => by
      rw [Table.findEntry_fst, same.trans absent, Option.filter_none]⟩⟩
  simp only [Table.openContainer]
  split
  · next entry found =>
      split
      · have touched := (Table.QuietPath.access (same.trans found)).adds
        refine ⟨touched.bucketCount.trans quiet.adds.bucketCount,
          touched.autoResize.trans quiet.adds.autoResize, .inl ⟨touched.size, fun absent => ?_⟩⟩
        rw [found] at absent
        contradiction
      · exact untouched
  · next absent =>
      simp only [room, Bool.true_eq_false, if_false]
      split
      · exact untouched
      · split
        · exact untouched
        · have inserted := Table.insertEntry_adds (table.findEntryUnlocked key env.now).2 key fresh
            overhead
          refine ⟨inserted.bucketCount.trans quiet.adds.bucketCount,
            inserted.autoResize.trans quiet.adds.autoResize, .inr ⟨absent, rfl, ?_⟩⟩
          rw [Table.findEntry_fst,
            looked.wellFormed.lookup_insertEntry (same.trans absent) validKey valid]
          rfl

/-- Linking a node in a container changes nothing of this. -/
theorem Table.Pushed.linkNode {now : Int64} {middle : Table} (pushed : table.Pushed key now middle)
    (wf : middle.WellFormed) (unlimited : middle.maxMemoryBudget = 0) (nodeOverhead : Nat)
    (link : Payload → Option (Payload × Int)) (env : CallEnv)
    : table.Pushed key now (middle.linkNode key nodeOverhead link env).2 := by
  have room := Table.makeRoom_of_unlimited unlimited nodeOverhead
  simp only [Table.linkNode, room, Bool.true_eq_false, if_false]
  split
  · exact pushed
  · split
    · next payload result linked =>
        obtain ⟨entry, found, _⟩ := Option.bind_eq_some_iff.mp linked
        have kept := wf.lookup_modifyEntry found (fun entry => { entry with value := payload })
          (fun _ => rfl)
        have same : (((middle.setPayload key payload).charge nodeOverhead).findEntryUnlocked key
            now).1.isSome = (middle.findEntryUnlocked key now).1.isSome := by
          have kept : ((middle.setPayload key payload).charge nodeOverhead).lookup key
              = some { entry with value := payload } := kept
          rw [Table.findEntry_fst, Table.findEntry_fst, kept, found, Option.isSome_filter,
            Option.isSome_filter]
          rfl
        refine ⟨(List.length_modify ..).trans pushed.bucketCount, pushed.autoResize, ?_⟩
        rcases pushed.inserts with ⟨size, absent⟩ | ⟨absent, size, present⟩
        · refine .inl ⟨size, fun none => ?_⟩
          rw [← Option.isNone_iff_eq_none, ← Option.not_isSome, same, absent none]
          rfl
        · exact .inr ⟨absent, size, same.trans present⟩
    · exact pushed

theorem Table.WellFormed.lpush_pushed (wf : table.WellFormed)
    (unlimited : table.maxMemoryBudget = 0) (validKey : ValidKey key) (value : CString)
    : table.Pushed key env.now (table.lpush key value env).2 := by
  have pushed := @Table.WellFormed.openContainer_pushed table key env wf unlimited validKey
    Payload.isList (.list DList.empty) listWellFormed_empty
    (sizeofEntry + key.length + 1 + sizeofList) [.entry, .key, .list]
  have kept := (wf.openList validKey env).keeps wf
  simp only [Table.lpush]
  split
  · exact pushed
  · exact pushed.linkNode kept.wellFormed (kept.maxMemoryBudget.trans unlimited) _ _ env

theorem Table.WellFormed.sadd_pushed (wf : table.WellFormed)
    (unlimited : table.maxMemoryBudget = 0) (validKey : ValidKey key) (value : CString)
    : table.Pushed key env.now (table.sadd key value env).2 := by
  have pushed := @Table.WellFormed.openContainer_pushed table key env wf unlimited validKey
    Payload.isSet (.set KvSet.empty) setWellFormed_empty
    (sizeofEntry + key.length + 1 + sizeofSet + initialSetBuckets * sizeofPointer)
    [.entry, .key, .set, .setBuckets]
  have kept := (wf.openSet validKey env).keeps wf
  simp only [Table.sadd]
  split
  · exact pushed
  · split
    · split
      · exact pushed
      · exact pushed.linkNode kept.wellFormed (kept.maxMemoryBudget.trans unlimited) _ _ env
    · exact pushed

-- Runs

/-- The key of the call is found after it, and was not before. -/
def Call.Creates (call : Call) (store : Store) (key : CString) : Prop :=
  (∃ op, call.action = .op op ∧ op.key = some key)
  ∧ (store.table.findEntryUnlocked key call.env.now).1 = none
  ∧ ((store.step call).2.table.findEntryUnlocked key call.env.now).1.isSome

/-- A push or an add creates its key in a table without room for one entry more. -/
def Call.Overfills (call : Call) (store : Store) : Prop :=
  ∃ key value, (call.action = .op (.lpush (some key) value)
      ∨ call.action = .op (.sadd (some key) value))
    ∧ call.Creates store key
    ∧ (store.table.findEntryUnlocked key call.env.now).2.loadFactorExceeded = true

/-- The call leaves auto-resize on, introduces no memory budget and does not ask for a smaller
array, and its allocations succeed.
-/
structure Call.LeavesRoom (store : Store) (call : Call) : Prop where
  allocates : call.env.Allocates
  unlimited : call.action.keepsUnlimited = true
  auto : call.action ≠ .upkeep (.setAutoResize false)
  grows : ∀ newBucketCount, call.action = .op (.resize newBucketCount) →
    newBucketCount = 0 ∨ store.table.bucketCount ≤ newBucketCount

/-- Three entries for four buckets are not reached. -/
structure Store.Roomy (store : Store) : Prop where
  sound : store.Sound
  auto : store.table.autoResize = true
  load : store.table.size * 4 < store.table.bucketCount * 3

/-- The load does not depend on the random numbers. -/
theorem Store.Roomy.drawn (roomy : store.Roomy) (prng : UInt32)
    : Store.Roomy { store with table := { store.table with prng } } :=
  ⟨⟨roomy.sound.wellFormed.congr rfl rfl rfl, roomy.sound.unlimited⟩, roomy.auto, roomy.load⟩

theorem Store.Roomy.adds (roomy : store.Roomy) {after : Table}
    (adds : Table.Adds 0 store.table after)
    : after.autoResize = true ∧ after.size * 4 < after.bucketCount * 3 := by
  have load := roomy.load
  have size := adds.size
  refine ⟨adds.autoResize.trans roomy.auto, ?_⟩
  rw [adds.bucketCount]
  omega

/-- A push or an add to a roomy table overfills it exactly when the load is exceeded afterwards. -/
theorem Table.Pushed.load_iff {now : Int64} {after : Table} (pushed : table.Pushed key now after)
    (auto : table.autoResize = true) (load : table.size * 4 < table.bucketCount * 3)
    : after.size * 4 < after.bucketCount * 3
      ↔ ¬ ((table.findEntryUnlocked key now).1 = none
          ∧ (after.findEntryUnlocked key now).1.isSome
          ∧ (table.findEntryUnlocked key now).2.loadFactorExceeded = true) := by
  have quiet := (table.find_quiet key now).adds
  have fewer := quiet.size
  have exceeded : (table.findEntryUnlocked key now).2.loadFactorExceeded = true
      ↔ table.bucketCount * 3 ≤ ((table.findEntryUnlocked key now).2.size + 1) * 4 := by
    simp [Table.loadFactorExceeded, quiet.autoResize, auto, quiet.bucketCount]
  rw [exceeded, pushed.bucketCount]
  rcases pushed.inserts with ⟨size, absent⟩ | ⟨absent, size, present⟩
  · refine iff_of_true (by omega) (fun overfills => ?_)
    rw [absent overfills.1] at overfills
    simp at overfills
  · rw [size, and_iff_right absent, and_iff_right present]
    omega

/-- A lookup does not depend on the random numbers either. -/
theorem Table.findEntry_drawn (table : Table) (prng : UInt32) (key : CString) (now : Int64)
    : Table.findEntryUnlocked { table with prng } key now
      = ((table.findEntryUnlocked key now).1,
          { (table.findEntryUnlocked key now).2 with prng }) := by
  have met : Table.seekEntry { table with prng } key = table.seekEntry key := rfl
  simp only [Table.findEntryUnlocked, met]
  cases table.seekEntry key with
  | none => rfl
  | some cursor =>
      simp only
      split <;> rfl

/-- A push or an add on a roomy store, which may be refused because of its arguments. -/
theorem Store.Roomy.pushed_load (roomy : store.Roomy) {call : Call} {key : CString}
    {value : Option CString}
    (pushes : call.action = .op (.lpush (some key) value)
      ∨ call.action = .op (.sadd (some key) value))
    (effect : (store.step call).2.table = { store.table with prng := call.prng }
      ∨ Table.Pushed { store.table with prng := call.prng } key call.env.now
          (store.step call).2.table)
    : let after := (store.step call).2.table
      after.autoResize = true
      ∧ (after.size * 4 < after.bucketCount * 3 ↔ ¬ call.Overfills store) := by
  intro after
  rcases effect with same | pushed
  · simp only [after, same]
    refine ⟨roomy.auto, iff_of_true roomy.load ?_⟩
    rintro ⟨other, _, _, ⟨_, absent, present⟩, _⟩
    rw [same, Table.findEntry_drawn, absent] at present
    contradiction
  · have exceeded := pushed.load_iff roomy.auto roomy.load
    rw [Table.findEntry_drawn] at exceeded
    refine ⟨pushed.autoResize.trans roomy.auto, exceeded.trans (not_congr ⟨?_, ?_⟩)⟩
    · rintro ⟨absent, present, full⟩
      have about : ∃ op, call.action = .op op ∧ op.key = some key := by
        rcases pushes with action | action
        · exact ⟨_, action, rfl⟩
        · exact ⟨_, action, rfl⟩
      exact ⟨key, value, pushes, ⟨about, absent, present⟩, full⟩
    · rintro ⟨other, otherValue, again, ⟨_, absent, present⟩, full⟩
      obtain rfl : other = key := by
        rcases pushes with action | action <;> rcases again with same | same <;> simp_all
      exact ⟨absent, present, full⟩

theorem Store.Roomy.set (roomy : store.Roomy) {env : CallEnv} (allocates : env.Allocates)
    (key value : Option CString)
    : let after := (kvSet store key value env).2.table
      after.autoResize = true ∧ after.size * 4 < after.bucketCount * 3 := by
  intro after
  rcases kvSet_table store key value env with same | adds
  · simp only [after, same]
    exact ⟨roomy.auto, roomy.load⟩
  · obtain ⟨load, auto⟩ := roomy.sound.wellFormed.growIfLoaded_load roomy.sound.unlimited roomy.auto
      roomy.load allocates
    refine ⟨adds.autoResize.trans auto, ?_⟩
    calc after.size * 4
        ≤ ((store.table.growIfLoaded env).size + 1) * 4 := Nat.mul_le_mul_right 4 adds.size
      _ < (store.table.growIfLoaded env).bucketCount * 3 := load
      _ = after.bucketCount * 3 := by rw [adds.bucketCount]

theorem Store.Roomy.resize (roomy : store.Roomy) {env : CallEnv} (allocates : env.Allocates)
    {newBucketCount : Nat}
    (grows : newBucketCount = 0 ∨ store.table.bucketCount ≤ newBucketCount)
    : let after := (store.table.kvResizeUnlocked newBucketCount env).2
      after.autoResize = true ∧ after.size * 4 < after.bucketCount * 3 := by
  intro after
  rcases Nat.eq_zero_or_pos newBucketCount with rfl | positive
  · exact ⟨roomy.auto, roomy.load⟩
  · obtain ⟨count, size, auto⟩ :=
      roomy.sound.wellFormed.resize_load roomy.sound.unlimited allocates positive
    have load := roomy.load
    have more := grows.resolve_left (Nat.ne_of_gt positive)
    refine ⟨auto.trans roomy.auto, ?_⟩
    rw [count, size]
    omega

theorem Store.Roomy.upkeep (roomy : store.Roomy) {upkeep : Upkeep}
    (auto : upkeep ≠ .setAutoResize false) (env : CallEnv)
    : let after := (upkeep.call env store).2.table
      after.autoResize = true ∧ after.size * 4 < after.bucketCount * 3 := by
  have same : ∀ {after : Table}, after = store.table →
      after.autoResize = true ∧ after.size * 4 < after.bucketCount * 3 := by
    rintro _ rfl
    exact ⟨roomy.auto, roomy.load⟩
  cases upkeep with
  | expireSampleSweep sampleSize maxKeysToDelete =>
      exact roomy.adds
        (store.table.expireSampleSweep_removals sampleSize maxKeysToDelete env.now).quiet.adds
  | evictLru => exact roomy.adds store.table.evictLru_removals.quiet.adds
  | setAutoResize enabled =>
      cases enabled with
      | false => exact absurd rfl auto
      | true => exact ⟨rfl, roomy.load⟩
  | bgrewriteaof pid => exact same (kvBgrewriteaof_table pid env)
  | mergeAofRewrite childPid outcome => exact same (kvMergeAofRewrite_table childPid outcome)
  | discardAofRewrite => exact same rfl
  | _ => exact ⟨roomy.auto, roomy.load⟩

/-- One call on a roomy store. Only a push or an add can end the room. -/
theorem Store.Roomy.step_load (roomy : store.Roomy) {call : Call} (leaves : call.LeavesRoom store)
    : let after := (store.step call).2.table
      after.autoResize = true
      ∧ (after.size * 4 < after.bucketCount * 3 ↔ ¬ call.Overfills store) := by
  obtain ⟨action, env, prng⟩ := call
  have drawn := roomy.drawn prng
  have wf := drawn.sound.wellFormed
  have stays : ∀ {after : Table}, after.autoResize = true ∧ after.size * 4 < after.bucketCount * 3 →
      ¬ Call.Overfills ⟨action, env, prng⟩ store →
      after.autoResize = true
      ∧ (after.size * 4 < after.bucketCount * 3 ↔ ¬ Call.Overfills ⟨action, env, prng⟩ store) :=
    fun kept calm => ⟨kept.1, iff_of_true kept.2 calm⟩
  have calm : (∀ key value, action ≠ .op (.lpush (some key) value)
      ∧ action ≠ .op (.sadd (some key) value)) → ¬ Call.Overfills ⟨action, env, prng⟩ store := by
    rintro other ⟨key, value, pushes | adds, _⟩
    · exact (other key value).1 pushes
    · exact (other key value).2 adds
  cases action with
  | op op =>
      cases op with
      | set key value => exact stays (drawn.set leaves.allocates key value) (calm (by simp))
      | resize newBucketCount =>
          exact stays (drawn.resize leaves.allocates (leaves.grows _ rfl)) (calm (by simp))
      | lpush key value =>
          cases key with
          | none => exact stays (drawn.adds (.refl _)) (calm (by simp))
          | some key =>
              refine roomy.pushed_load (.inl rfl) ?_
              cases value with
              | none => exact .inl rfl
              | some value =>
                  rcases kvLpush_eq { store with table := { store.table with prng } } key value env
                    with ⟨err, _, _, refused⟩ | ⟨validKey, _, _, pushed⟩
                  · exact .inl (congrArg (fun result => result.2.table) refused)
                  · exact .inr (pushed ▸ wf.lpush_pushed drawn.sound.unlimited validKey value)
      | sadd key value =>
          cases key with
          | none => exact stays (drawn.adds (.refl _)) (calm (by simp))
          | some key =>
              refine roomy.pushed_load (.inr rfl) ?_
              cases value with
              | none => exact .inl rfl
              | some value =>
                  rcases kvSadd_eq { store with table := { store.table with prng } } key value env
                    with ⟨err, _, _, refused⟩ | ⟨validKey, _, _, pushed⟩
                  · exact .inl (congrArg (fun result => result.2.table) refused)
                  · exact .inr (pushed ▸ wf.sadd_pushed drawn.sound.unlimited validKey value)
      | _ => exact stays (drawn.adds (Op.call_quiet rfl env wf).adds) (calm (by simp))
  | upkeep upkeep =>
      have auto : upkeep ≠ .setAutoResize false := fun off => leaves.auto (congrArg _ off)
      exact stays (drawn.upkeep auto env) (calm (by simp))

/-- A call that does not overfill the table leaves it roomy. -/
theorem Store.Roomy.step (roomy : store.Roomy) {call : Call} (leaves : call.LeavesRoom store)
    (calm : ¬ call.Overfills store)
    : (store.step call).2.Roomy := by
  obtain ⟨auto, load⟩ := roomy.step_load leaves
  exact ⟨(roomy.sound.step leaves.unlimited).1, auto, load.mpr calm⟩

theorem kvInit_roomy {bucketCount : Nat} {prng : UInt32} {env : CallEnv} {start : Store}
    (opened : kvInit bucketCount prng env = .ok start)
    : start.Roomy := by
  have sound := kvInitFull_sound opened
  have positive : 0 < start.table.bucketCount := sound.wellFormed.placed.nonempty
  rcases (kvInitFull_ok opened).2 with ⟨_, rfl⟩ | ⟨name, none, _⟩
  · exact ⟨sound, rfl, by simpa [Store.fresh] using positive⟩
  · contradiction

/-- On a run from `kv_init` with auto-resize on, without a budget or a failed allocation and without
shrinking the array, every call that creates a key leaves less than three entries for four buckets,
if and only if no push or add creates a key where the next entry takes the table over that.
-/
theorem load_factor_kept_iff {bucketCount : Nat} {prng : UInt32} {env : CallEnv} {start : Store}
    (opened : kvInit bucketCount prng env = .ok start) (calls : List Call)
    (leaves : Along Store.step (fun store call => call.LeavesRoom store) start calls)
    : Along Store.step (fun store call => ∀ key, call.Creates store key →
          (store.step call).2.table.size * 4 < (store.step call).2.table.bucketCount * 3)
        start calls
      ↔ Along Store.step (fun store call => ¬ call.Overfills store) start calls := by
  refine @Foundations.Runs.along_iff_along _ _ _ Store.step _ Store.Roomy _ _ ?_ ?_ start
    (kvInit_roomy opened) calls leaves
  · exact fun store call roomy leaves calm => roomy.step leaves calm
  · intro store call roomy leaves
    obtain ⟨_, load⟩ := roomy.step_load leaves
    refine ⟨fun kept overfills => ?_, fun calm key _ => load.mpr calm⟩
    have creates := overfills.choose_spec.choose_spec.2.1
    exact load.mp (kept _ creates) overfills

/-- Two strings in a store with one bucket: the array grows in front of each of them. -/
theorem load_factor_kept_iff_strings
    : ∃ start, kvInit 1 7 (.at 0) = .ok start
        ∧ Along Store.step (fun store call => ∀ key, call.Creates store key →
            (store.step call).2.table.size * 4 < (store.step call).2.table.bucketCount * 3) start
          [⟨.op (.set (some ⟨[97], by decide⟩) (some ⟨[120], by decide⟩)), .at 1, 0⟩,
            ⟨.op (.set (some ⟨[98], by decide⟩) (some ⟨[121], by decide⟩)), .at 2, 0⟩] := by
  refine ⟨_, rfl, (@load_factor_kept_iff 1 7 (.at 0) _ rfl _ ?_).mpr ?_⟩
  · exact ⟨⟨fun _ => rfl, rfl, by simp, by simp⟩, ⟨fun _ => rfl, rfl, by simp, by simp⟩, trivial⟩
  · refine ⟨?_, ?_, trivial⟩
    · rintro ⟨key, value, pushes | adds, _⟩
      · simp at pushes
      · simp at adds
    · rintro ⟨key, value, pushes | adds, _⟩
      · simp at pushes
      · simp at adds

/-- A list in a store with one bucket: the array stays as it is. -/
theorem load_factor_broken_by_push
    : ∃ start, kvInit 1 7 (.at 0) = .ok start
        ∧ let push : Call :=
            ⟨.op (.lpush (some ⟨[108], by decide⟩) (some ⟨[120], by decide⟩)), .at 1, 0⟩
          push.LeavesRoom start
          ∧ push.Creates start ⟨[108], by decide⟩
          ∧ ¬ ((start.step push).2.table.size * 4 < (start.step push).2.table.bucketCount * 3) := by
  refine ⟨_, rfl, ?_⟩
  intro push
  exact ⟨⟨fun _ => rfl, rfl, by simp [push], by simp [push]⟩,
    ⟨⟨_, rfl, rfl⟩, by decide +kernel, by decide +kernel⟩, by decide +kernel⟩

end MiniKv
