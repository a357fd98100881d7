import MiniKv.Invariants.Files
import MiniKv.Invariants.Reachable

/-! Byte accounting: `allocated_bytes` is the sum of what the store owns. One lemma says so for each
primitive change, and with it that no refund asks for more than was charged.
-/

namespace MiniKv

open MiniKv.Foundations.ChainedTable

/-- The bytes of all entries. -/
def Table.entryBytes (table : Table) : Nat :=
  (table.entries.map Entry.footprint).sum

/-- `allocated_bytes` is the bucket array, `extra` bytes and the entries. -/
structure Table.Accounted (extra : Nat) (table : Table) : Prop where
  sized : ∀ entry ∈ table.entries, entry.value.Sized
  exact : table.allocatedBytes = table.bucketCount * sizeofPointer + extra + table.entryBytes

variable {extra : Nat} {table : Table} {key : CString} {entry : Entry}

/-- Taking out or adding one entry changes the sum by its bytes. -/
theorem entryBytes_of_perm {first second : Table}
    (split : first.entries.Perm (entry :: second.entries))
    : first.entryBytes = entry.footprint + second.entryBytes := by
  have sums := (split.map Entry.footprint).sum_eq
  rwa [List.map_cons, List.sum_cons] at sums

/-- A write through an entry pointer keeps the accounts when the books follow what that entry gains
or loses.
-/
theorem Table.Accounted.exchange (accounted : table.Accounted extra) (wf : table.WellFormed)
    (found : table.lookup key = some entry) (change : Entry → Entry)
    (keeps : ∀ old : Entry, (change old).key = old.key)
    (sized : entry.value.Sized → (change entry).value.Sized) {after : Table}
    (buckets : after.buckets = (table.modifyEntry key change).buckets)
    (bytes : after.allocatedBytes + entry.footprint
      = table.allocatedBytes + (change entry).footprint)
    : after.Accounted extra := by
  obtain ⟨_, rest, before, exchanged⟩ := wf.modifyEntry_entries found change keeps
  rw [Table.entries, ← buckets, ← Table.entries] at exchanged
  have sums := (before.map Entry.footprint).sum_eq
  have sumsAfter := (exchanged.map Entry.footprint).sum_eq
  rw [List.map_cons, List.sum_cons] at sums sumsAfter
  have length : after.bucketCount = table.bucketCount := by
    simp [Table.bucketCount, buckets, Table.modifyEntry]
  constructor
  · intro other member
    rcases List.mem_cons.mp (exchanged.mem_iff.mp member) with rfl | old
    · exact sized (accounted.sized entry (before.mem_iff.mpr List.mem_cons_self))
    · exact accounted.sized other (before.mem_iff.mpr (List.mem_cons_of_mem _ old))
  · have total := accounted.exact
    rw [Table.entryBytes, sums] at total
    rw [length, Table.entryBytes, sumsAfter]
    omega

theorem Table.Accounted.footprint_le (accounted : table.Accounted extra)
    (member : entry ∈ table.entries)
    : entry.footprint ≤ table.allocatedBytes := by
  have part : entry.footprint ≤ table.entryBytes :=
    List.single_le_sum (fun _ _ => Nat.zero_le _) _ (List.mem_map_of_mem member)
  have total := accounted.exact
  omega

/-- A primitive change keeps the accounts, and gives back no more than is charged. -/
theorem Table.Change.accounted {stored : List CString} {refunded : Nat} {after : Table}
    (change : Table.Change stored table refunded after) (wf : table.WellFormed)
    (accounted : table.Accounted extra)
    : after.Accounted extra ∧ refunded ≤ table.allocatedBytes := by
  have total := accounted.exact
  cases change with
  | draw prng => exact ⟨⟨accounted.sized, accounted.exact⟩, Nat.zero_le _⟩
  | @free cursor index prev here =>
      have split := (wf.expireAndDelete prev here).2
      have member : cursor.item ∈ table.entries := split.mem_iff.mpr List.mem_cons_self
      have freed := Entry.freedBytes_eq (accounted.sized _ member)
      have sums := entryBytes_of_perm split
      have length : (table.expireAndDeleteUnlocked cursor index).bucketCount
          = table.bucketCount := by
        simp [Table.bucketCount, Table.expireAndDeleteUnlocked, Table.refund]
      refine ⟨⟨fun other inside => accounted.sized other
        (split.mem_iff.mpr (List.mem_cons_of_mem _ inside)), ?_⟩,
        freed.symm ▸ accounted.footprint_le member⟩
      rw [length]
      show table.allocatedBytes - cursor.item.freedBytes = _
      omega
  | access found =>
      exact ⟨accounted.exchange wf found
        (fun entry => { entry with lastAccessedTime := table.lruClock + 1 }) (fun _ => rfl) id rfl
        rfl, Nat.zero_le _⟩
  | deadline found expireAtMs =>
      exact ⟨accounted.exchange wf found (fun entry => { entry with expireAtMs }) (fun _ => rfl) id
        rfl rfl, Nat.zero_le _⟩
  | @insert key value bytes absent validKey valid sized exact =>
      have split := (wf.insertEntry_placed absent value bytes).2
      have sums := entryBytes_of_perm split
      have length : (table.insertEntry key value bytes).bucketCount = table.bucketCount := by
        simp [Table.bucketCount, Table.insertEntry, Table.charge]
      refine ⟨⟨?_, ?_⟩, Nat.zero_le _⟩
      · intro other member
        rcases List.mem_cons.mp (split.mem_iff.mp member) with rfl | old
        · exact sized
        · exact accounted.sized other old
      · rw [length, sums]
        simp only [Table.insertEntry, Table.charge, Entry.footprint]
        omega
  | @grow key entry value bytes found grows fits =>
      have exact := grows.exact
      refine ⟨accounted.exchange wf found (fun entry => { entry with value }) (fun _ => rfl)
        grows.sized rfl ?_, Nat.zero_le _⟩
      simp only [Table.charge, Table.setPayload, Table.modifyEntry, Entry.footprint]
      omega
  | @shrink key entry value bytes found valid sized exact =>
      have owned := accounted.footprint_le (Table.WellFormed.mem_of_lookup found).1
      rw [Entry.footprint] at owned
      refine ⟨accounted.exchange wf found (fun entry => { entry with value }) (fun _ => rfl)
        sized rfl ?_, by omega⟩
      simp only [Table.refund, Table.setPayload, Table.modifyEntry, Entry.footprint]
      omega
  | @resize count positive fits =>
      obtain ⟨_, length, perm⟩ := wf.rehashed positive
      have sums := (perm.map Entry.footprint).sum_eq
      refine ⟨⟨fun other member => accounted.sized other (perm.mem_iff.mp member), ?_⟩, by omega⟩
      show table.allocatedBytes + count * sizeofPointer - table.bucketCount * sizeofPointer
        = (rehash Entry.key hashKey table.buckets count).length * sizeofPointer + extra
          + ((rehash Entry.key hashKey table.buckets count).flatten.map Entry.footprint).sum
      rw [length, sums]
      rw [Table.entryBytes] at total
      omega

/-- Only the settings of the store change. -/
def Table.Reconfigured (before after : Table) : Prop :=
  after = { before with
    autoResize := after.autoResize
    maxCapacity := after.maxCapacity
    maxMemoryBudget := after.maxMemoryBudget }

/-- A path on which no refund exceeds `allocated_bytes`, so that none is clamped. -/
def Table.ExactPath : Table → Table → Prop :=
  Relation.ReflTransGen (fun before after =>
    (∃ stored refunded,
      Table.Change stored before refunded after ∧ refunded ≤ before.allocatedBytes)
    ∨ before.Reconfigured after)

theorem Table.Accounted.reconfigured {after : Table} (accounted : table.Accounted extra)
    (changed : table.Reconfigured after)
    : after.Accounted extra ∧ table.ExactPath after := by
  refine ⟨?_, .single (.inr changed)⟩
  rw [changed]
  exact ⟨accounted.sized, accounted.exact⟩

/-- Along a path the accounts stay exact and no refund is clamped, by induction on its length. -/
theorem Table.Accounted.path {after : Table} (accounted : table.Accounted extra)
    (wf : table.WellFormed) (path : table.Path after)
    : after.Accounted extra ∧ table.ExactPath after := by
  refine (path.preserves (fun middle => middle.Accounted extra ∧ table.ExactPath middle) ?_ wf
    ⟨accounted, .refl⟩).1
  intro middle next stored refunded middleWf ⟨kept, exactPath⟩ change
  obtain ⟨nextKept, covered⟩ := change.accounted middleWf kept
  exact ⟨nextKept, exactPath.tail (.inl ⟨stored, refunded, change, covered⟩)⟩

-- Calls and runs

variable {store : Store}

theorem Upkeep.call_aofPath (upkeep : Upkeep) (env : CallEnv)
    : (upkeep.call env store).2.aof.path = store.aof.path := by
  cases upkeep with
  | bgrewriteaof pid =>
      simp only [Upkeep.call, kvBgrewriteaof]
      split_ifs <;> rfl
  | mergeAofRewrite childPid outcome =>
      simp only [Upkeep.call, kvMergeAofRewrite]
      split_ifs
      · rfl
      · rfl
      · cases outcome <;> rfl
  | _ => rfl

theorem Upkeep.call_accounted (upkeep : Upkeep) (env : CallEnv) (wf : store.table.WellFormed)
    (accounted : store.table.Accounted extra)
    : (upkeep.call env store).2.table.Accounted extra
      ∧ store.table.ExactPath (upkeep.call env store).2.table := by
  have unchanged : ∀ {after : Table}, after = store.table →
      after.Accounted extra ∧ store.table.ExactPath after := by
    rintro _ rfl
    exact ⟨accounted, .refl⟩
  cases upkeep with
  | expireSampleSweep sampleSize maxKeysToDelete =>
      exact accounted.path wf
        (store.table.expireSampleSweep_removals sampleSize maxKeysToDelete env.now).path
  | evictLru => exact accounted.path wf store.table.evictLru_removals.path
  | bgrewriteaof pid => exact unchanged (kvBgrewriteaof_table pid env)
  | mergeAofRewrite childPid outcome => exact unchanged (kvMergeAofRewrite_table childPid outcome)
  | discardAofRewrite => exact unchanged rfl
  | _ => exact accounted.reconfigured rfl

/-- Well-formed with exact books, for a fixed path. -/
structure Store.Books (path : Option CString) (store : Store) : Prop where
  wellFormed : store.table.WellFormed
  aofPath : store.aof.path = path
  accounted : store.table.Accounted (pathBytes path)

/-- Every call keeps the books, and clamps nothing on the way. -/
theorem Store.Books.step {path : Option CString} (books : store.Books path) (call : Call)
    : (store.step call).2.Books path
      ∧ store.table.ExactPath (store.step call).2.table := by
  let drawn : Store := { store with table := { store.table with prng := call.prng } }
  have draw := (Table.QuietPath.draw store.table call.prng).path
  have drawnWf : drawn.table.WellFormed := books.wellFormed.congr rfl rfl rfl
  obtain ⟨drawnBooks, drawnPath⟩ := books.accounted.path books.wellFormed draw
  obtain ⟨action, env, prng⟩ := call
  cases action with
  | op op =>
      have path := @Op.call_path drawn op env drawnWf
      obtain ⟨kept, exactPath⟩ := drawnBooks.path drawnWf path
      exact ⟨⟨(path.keeps drawnWf).wellFormed,
        @Op.call_stable _ drawn env op (Aof.stable_fixture (·.1 = _)) books.aofPath, kept⟩,
        drawnPath.trans exactPath⟩
  | upkeep upkeep =>
      obtain ⟨kept, exactPath⟩ := @Upkeep.call_accounted _ drawn upkeep env drawnWf drawnBooks
      exact ⟨⟨@Upkeep.call_wellFormed drawn upkeep env drawnWf,
        (@Upkeep.call_aofPath drawn upkeep env).trans books.aofPath, kept⟩,
        drawnPath.trans exactPath⟩

theorem Store.Books.run {path : Option CString} (books : store.Books path) (calls : List Call)
    : (store.run calls).2.Books path :=
  @Foundations.Runs.run_invariant _ _ _ Store.step (fun _ => True) (Store.Books path)
    (fun _ call books _ => (books.step call).1) store books calls (fun _ _ => trivial)

/-- A store that was just opened has exact books, and replaying the log clamped nothing. -/
theorem kvInitFull_books {bucketCount maxCapacity maxMemoryBudget : Nat} {path : Option CString}
    {log : List UInt8} {prng : UInt32} {env : CallEnv} {lineEnvs : Nat → CallEnv}
    (opened : kvInitFull bucketCount maxCapacity maxMemoryBudget path log prng env lineEnvs
      = .ok store)
    : store.Books path
      ∧ ((Store.fresh bucketCount maxCapacity maxMemoryBudget prng log).table.charge
          (pathBytes path)).ExactPath store.table := by
  obtain ⟨charged, replayed⟩ := kvInitFull_path opened
  have start : ((Store.fresh bucketCount maxCapacity maxMemoryBudget prng log).table.charge
      (pathBytes path)).Accounted (pathBytes path) := by
    constructor
    · simp [Store.fresh, Table.charge, Table.entries]
    · simp [Store.fresh, Table.charge, Table.entryBytes, Table.entries, Table.bucketCount]
  obtain ⟨accounted, exactPath⟩ := start.path charged.wellFormed replayed
  refine ⟨⟨(replayed.keeps charged.wellFormed).wellFormed, ?_, accounted⟩, exactPath⟩
  rcases (kvInitFull_ok opened).2 with ⟨rfl, rfl⟩ | ⟨name, rfl, rfl⟩
  · rfl
  · exact @replayLines_stable _ ⟨_, _⟩ (Aof.stable_fixture (·.1 = some name)) lineEnvs
      (readLines log) 0 rfl

-- Runs that never insert into a container

/-- The record pushes to a list or adds to a set. -/
def Record.fillsContainer : Record → Bool
  | .lpush _ _ | .sadd _ _ => true
  | _ => false

/-- No line of the log pushes to a list or adds to a set. -/
def LogFillsNone (log : List UInt8) : Prop :=
  ∀ line ∈ readLines log, ∀ record ∈ parseLine line, record.fillsContainer = false

/-- The call pushes to a list or adds to a set. -/
def Action.fillsContainer : Action → Bool
  | .op (.lpush _ _) | .op (.sadd _ _) => true
  | _ => false

/-- Only pushes and adds can reach a freed container. -/
theorem Store.step_defined {call : Call} (fillsNone : call.action.fillsContainer = false)
    : (store.step call).1 ≠ .undefined := by
  obtain ⟨action, env, prng⟩ := call
  cases action with
  | op op => cases op <;> simp_all [Store.step, Op.call, Action.fillsContainer]
  | upkeep upkeep => cases upkeep <;> simp [Store.step, Upkeep.call]

end MiniKv
