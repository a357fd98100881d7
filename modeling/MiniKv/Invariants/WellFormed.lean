import MiniKv.Semantics.LogicalMap

/-! The representation invariant of a table, and what its primitive changes do to it and to the
logical map. Every operation of the store is a sequence of these changes.
-/

namespace MiniKv

open MiniKv.Foundations.ChainedTable
open MiniKv.Foundations.DoublyLinked
open MiniKv.Foundations.FiniteMaps

-- The invariant

/-- Members sit in the chain their hash selects, are distinct and counted. -/
structure KvSet.WellFormed (set : KvSet) : Prop where
  placed : Placed id hashKey set.buckets
  count : set.count = set.members.length
  bounded : ∀ member ∈ set.members, ValidValue member

/-- A list's links agree in both directions, and its elements are valid values. -/
structure ListWellFormed (list : KvList) : Prop where
  links : Represents list list.toList
  bounded : ∀ value ∈ list.toList, ValidValue value

def Payload.WellFormed : Payload → Prop
  | .string value => ValidValue value
  | .list links => ListWellFormed links
  | .set chains => chains.WellFormed

/-- The values of a payload in the order in which dumps and snapshots have them. -/
def Payload.values : Payload → List CString
  | .string value => [value]
  | .list links => links.toListBackward
  | .set chains => chains.members

structure Entry.WellFormed (entry : Entry) : Prop where
  key : ValidKey entry.key
  value : entry.value.WellFormed

/-- The representation invariant: entries sit in the chain of their key's hash under distinct
keys, are counted by `size`, and carry distinct access times up to the clock.
-/
structure Table.WellFormed (table : Table) : Prop where
  placed : Placed Entry.key hashKey table.buckets
  size : table.size = table.entries.length
  entries : ∀ entry ∈ table.entries, entry.WellFormed
  times : (table.entries.map Entry.lastAccessedTime).Nodup
  clock : ∀ entry ∈ table.entries, entry.lastAccessedTime ≤ table.lruClock

variable {table : Table} {key : CString} {entry : Entry}

/-- The invariant looks at the chains, the size and the clock only. -/
theorem Table.WellFormed.congr {other : Table} (wf : table.WellFormed)
    (buckets : other.buckets = table.buckets) (size : other.size = table.size)
    (clock : other.lruClock = table.lruClock)
    : other.WellFormed := by
  obtain ⟨placed, counted, entries, times, bounded⟩ := wf
  rw [Table.entries] at counted entries times bounded
  constructor
  · rwa [buckets]
  · rwa [size, Table.entries, buckets]
  · rwa [Table.entries, buckets]
  · rwa [Table.entries, buckets]
  · rwa [Table.entries, buckets, clock]

theorem Table.WellFormed.mem_of_lookup (found : table.lookup key = some entry)
    : entry ∈ table.entries ∧ entry.key = key :=
  mem_of_find found

/-- What is found holds a well-formed value. -/
theorem Table.WellFormed.value_of_lookup (wf : table.WellFormed)
    (found : table.lookup key = some entry)
    : entry.value.WellFormed :=
  (wf.entries entry (mem_of_lookup found).1).value

theorem Table.WellFormed.key_of_lookup (wf : table.WellFormed)
    (found : table.lookup key = some entry)
    : ValidKey key := by
  obtain ⟨member, rfl⟩ := mem_of_lookup found
  exact (wf.entries entry member).key

theorem Table.WellFormed.lookup_of_mem (wf : table.WellFormed) (member : entry ∈ table.entries)
    : table.lookup entry.key = some entry :=
  find_of_mem wf.placed member

theorem Table.WellFormed.lookup_eq_none (wf : table.WellFormed)
    : table.lookup key = none ↔ ∀ entry ∈ table.entries, entry.key ≠ key :=
  find_eq_none_iff wf.placed

theorem Table.WellFormed.logical_of_mem (wf : table.WellFormed) (member : entry ∈ table.entries)
    : table.logical.lookup entry.key = some entry.binding :=
  lookup_tabulate_of_mem wf.placed.distinct member

/-- Looking up in the table and in its logical map is the same. -/
theorem Table.WellFormed.logical_lookup (wf : table.WellFormed) (key : CString)
    : table.logical.lookup key = (table.lookup key).map Entry.binding := by
  cases found : table.lookup key with
  | none => exact lookup_tabulate_eq_none.mpr (wf.lookup_eq_none.mp found)
  | some entry =>
      obtain ⟨member, rfl⟩ := mem_of_lookup found
      exact wf.logical_of_mem member

/-- The logical map binds as many keys as the table counts. -/
theorem Table.WellFormed.card_keys (wf : table.WellFormed)
    : table.logical.keys.card = table.size := by
  rw [wf.size]
  exact card_keys_tabulate wf.placed.distinct

theorem Table.atCapacity_eq_false
    : table.atCapacity = false ↔ (0 < table.maxCapacity → table.size < table.maxCapacity) := by
  simp [Table.atCapacity]

theorem Table.WellFormed.full_eq (wf : table.WellFormed)
    : LogicalMap.full table.logical table.maxCapacity = table.atCapacity := by
  rw [LogicalMap.full, wf.card_keys, Table.atCapacity]

-- Changes of the entries

/-- A change of the table that keeps its invariant and its limits and turns the logical map
into `map`.
-/
structure Table.Becomes (before after : Table) (map : LogicalMap) : Prop where
  wellFormed : after.WellFormed
  logical : after.logical = map
  maxCapacity : after.maxCapacity = before.maxCapacity
  maxMemoryBudget : after.maxMemoryBudget = before.maxMemoryBudget

theorem Table.Becomes.trans {first second third : Table} {middle last : LogicalMap}
    (early : first.Becomes second middle) (late : second.Becomes third last)
    : first.Becomes third last :=
  ⟨late.wellFormed, late.logical, late.maxCapacity.trans early.maxCapacity,
    late.maxMemoryBudget.trans early.maxMemoryBudget⟩

theorem Table.Becomes.cast {before after : Table} {map other : LogicalMap}
    (becomes : before.Becomes after map) (same : map = other)
    : before.Becomes after other :=
  same ▸ becomes

theorem Table.Becomes.refl (wf : table.WellFormed) : table.Becomes table table.logical :=
  ⟨wf, rfl, rfl, rfl⟩

/-- Accounting changes nothing that matters to the invariant or the map. -/
theorem Table.Becomes.charge {before after : Table} {map : LogicalMap}
    (becomes : before.Becomes after map) (bytes : Nat)
    : before.Becomes (after.charge bytes) map :=
  ⟨becomes.wellFormed.congr rfl rfl rfl, becomes.logical, becomes.maxCapacity,
    becomes.maxMemoryBudget⟩

theorem Table.Becomes.refund {before after : Table} {map : LogicalMap}
    (becomes : before.Becomes after map) (bytes : Nat)
    : before.Becomes (after.refund bytes) map :=
  ⟨becomes.wellFormed.congr rfl rfl rfl, becomes.logical, becomes.maxCapacity,
    becomes.maxMemoryBudget⟩

/-- Taking one entry away. -/
theorem Table.WellFormed.removed {after : Table} (wf : table.WellFormed)
    (placed : Placed Entry.key hashKey after.buckets)
    (split : table.entries.Perm (entry :: after.entries))
    (size : after.size = table.size - 1) (clock : after.lruClock = table.lruClock)
    : after.WellFormed ∧ after.logical = table.logical.erase entry.key := by
  have member : ∀ other ∈ after.entries, other ∈ table.entries :=
    fun other inRest => split.mem_iff.mpr (List.mem_cons_of_mem _ inRest)
  have times := (split.map Entry.lastAccessedTime).nodup_iff.mp wf.times
  rw [List.map_cons, List.nodup_cons] at times
  refine ⟨⟨placed, ?_, fun other inRest => wf.entries other (member other inRest), times.2,
    fun other inRest => clock ▸ wf.clock other (member other inRest)⟩,
    tabulate_erase wf.placed.distinct split⟩
  have lengths := split.length_eq
  rw [List.length_cons] at lengths
  rw [size, wf.size]
  omega

/-- Adding one entry with the next access time. -/
theorem Table.WellFormed.added {after : Table} (wf : table.WellFormed)
    (placed : Placed Entry.key hashKey after.buckets)
    (split : after.entries.Perm (entry :: table.entries))
    (size : after.size = table.size + 1) (clock : after.lruClock = table.lruClock + 1)
    (valid : entry.WellFormed) (time : entry.lastAccessedTime = table.lruClock + 1)
    : after.WellFormed ∧ after.logical = table.logical.insert entry.key entry.binding := by
  refine ⟨⟨placed, ?_, ?_, ?_, ?_⟩, tabulate_add placed.distinct split⟩
  · rw [size, wf.size, split.length_eq, List.length_cons]
  · intro other member
    rcases List.mem_cons.mp (split.mem_iff.mp member) with rfl | old
    · exact valid
    · exact wf.entries other old
  · rw [(split.map Entry.lastAccessedTime).nodup_iff, List.map_cons, List.nodup_cons]
    refine ⟨?_, wf.times⟩
    intro member
    obtain ⟨other, inTable, same⟩ := List.mem_map.mp member
    have bound := wf.clock other inTable
    omega
  · intro other member
    rcases List.mem_cons.mp (split.mem_iff.mp member) with rfl | old
    · omega
    · have bound := wf.clock other old
      omega

/-- Exchanging one entry for another one with the same key, at its old access time or at the
next one.
-/
theorem Table.WellFormed.replaced {after : Table} {new : Entry} {rest : List Entry}
    (wf : table.WellFormed)
    (placed : Placed Entry.key hashKey after.buckets)
    (before : table.entries.Perm (entry :: rest)) (exchanged : after.entries.Perm (new :: rest))
    (sameKey : new.key = entry.key) (size : after.size = table.size)
    (valid : new.WellFormed)
    (time : new.lastAccessedTime = entry.lastAccessedTime ∧ after.lruClock = table.lruClock
      ∨ new.lastAccessedTime = table.lruClock + 1 ∧ after.lruClock = table.lruClock + 1)
    : after.WellFormed ∧ after.logical = table.logical.insert entry.key new.binding := by
  have inTable : ∀ other ∈ rest, other ∈ table.entries :=
    fun other member => before.mem_iff.mpr (List.mem_cons_of_mem _ member)
  have times := (before.map Entry.lastAccessedTime).nodup_iff.mp wf.times
  rw [List.map_cons, List.nodup_cons] at times
  have oldBound := wf.clock entry (before.mem_iff.mpr List.mem_cons_self)
  refine ⟨⟨placed, ?_, ?_, ?_, ?_⟩,
    tabulate_replace wf.placed.distinct sameKey before exchanged⟩
  · rw [size, wf.size, before.length_eq, exchanged.length_eq, List.length_cons, List.length_cons]
  · intro other member
    rcases List.mem_cons.mp (exchanged.mem_iff.mp member) with rfl | old
    · exact valid
    · exact wf.entries other (inTable other old)
  · rw [(exchanged.map Entry.lastAccessedTime).nodup_iff, List.map_cons, List.nodup_cons]
    refine ⟨?_, times.2⟩
    rcases time with ⟨same, _⟩ | ⟨next, _⟩
    · rw [same]
      exact times.1
    · intro member
      obtain ⟨other, old, same⟩ := List.mem_map.mp member
      have bound := wf.clock other (inTable other old)
      omega
  · intro other member
    rcases List.mem_cons.mp (exchanged.mem_iff.mp member) with rfl | old
    · omega
    · have bound := wf.clock other (inTable other old)
      omega

-- Primitive operations

/-- Writing through the pointer to an entry exchanges that entry. -/
theorem Table.WellFormed.modifyEntry_entries (wf : table.WellFormed)
    (found : table.lookup key = some entry) (change : Entry → Entry)
    (keeps : ∀ old : Entry, (change old).key = old.key)
    : Placed Entry.key hashKey (table.modifyEntry key change).buckets
      ∧ ∃ rest,
          table.entries.Perm (entry :: rest)
          ∧ (table.modifyEntry key change).entries.Perm (change entry :: rest) :=
  wf.placed.rewrite found (hashKey_lt key wf.placed.nonempty) keeps

/-- Writing through the pointer to an entry, without touching its key or access time. -/
theorem Table.WellFormed.modifyEntry (wf : table.WellFormed)
    (found : table.lookup key = some entry) (change : Entry → Entry)
    (keeps : ∀ old : Entry, (change old).key = old.key)
    (time : (change entry).lastAccessedTime = entry.lastAccessedTime)
    (valid : (change entry).value.WellFormed)
    : table.Becomes (table.modifyEntry key change)
        (table.logical.insert key (change entry).binding) := by
  obtain ⟨placed, rest, before, exchanged⟩ := wf.modifyEntry_entries found change keeps
  obtain ⟨member, rfl⟩ := mem_of_lookup found
  have validKey : ValidKey (change entry).key := keeps entry ▸ (wf.entries entry member).key
  obtain ⟨wellFormed, logical⟩ := wf.replaced placed before exchanged (keeps entry) rfl
    ⟨validKey, valid⟩ (.inl ⟨time, rfl⟩)
  exact ⟨wellFormed, logical, rfl, rfl⟩

/-- An entry is found again, changed, after a write through its pointer. -/
theorem Table.WellFormed.lookup_modifyEntry (wf : table.WellFormed)
    (found : table.lookup key = some entry) (change : Entry → Entry)
    (keeps : ∀ old : Entry, (change old).key = old.key)
    : (table.modifyEntry key change).lookup key = some (change entry) := by
  obtain ⟨placed, rest, before, exchanged⟩ := wf.modifyEntry_entries found change keeps
  obtain ⟨_, rfl⟩ := mem_of_lookup found
  have member : change entry ∈ (table.modifyEntry entry.key change).entries :=
    exchanged.mem_iff.mpr List.mem_cons_self
  rw [← keeps entry]
  exact (keeps entry).symm ▸ find_of_mem placed member

/-- Without an entry there is nothing to write to. -/
theorem Table.modifyEntry_of_lookup_none (absent : table.lookup key = none)
    (change : Entry → Entry)
    : table.modifyEntry key change = table := by
  rw [Table.modifyEntry, modify_of_bucket_eq (rewriteFirst_of_find_none change absent)]

/-- Marking an access leaves the logical map alone. -/
theorem Table.WellFormed.touch (wf : table.WellFormed) (found : table.lookup key = some entry)
    : table.Becomes (table.touch key) table.logical := by
  obtain ⟨placed, rest, before, exchanged⟩ := wf.modifyEntry_entries found
    (fun entry => { entry with lastAccessedTime := table.lruClock + 1 }) (fun _ => rfl)
  have shown := wf.logical_lookup key
  rw [found, Option.map_some] at shown
  obtain ⟨member, rfl⟩ := mem_of_lookup found
  let touchedEntry := { entry with lastAccessedTime := table.lruClock + 1 }
  have touched : (table.touch entry.key).WellFormed
      ∧ (table.touch entry.key).logical
        = table.logical.insert entry.key touchedEntry.binding :=
    wf.replaced placed before exchanged rfl rfl
      ⟨(wf.entries entry member).key, (wf.entries entry member).value⟩ (.inr ⟨rfl, rfl⟩)
  exact ⟨touched.1, touched.2.trans (insert_of_lookup_some shown), rfl, rfl⟩

/-- The walk to an entry ends on the entry that lookup finds, with the right trailing pointer. -/
theorem Table.seekEntry_some {cursor : Cursor Entry}
    (met : table.seekEntry key = some cursor)
    : table.lookup key = some cursor.item
      ∧ cursor.prev = trailing cursor.pos
      ∧ (table.chain key)[cursor.pos]? = some cursor.item := by
  obtain ⟨prev, _, here, first⟩ := @seek_some _ _ _ 0 _ met
  exact ⟨first, prev, here⟩

theorem Table.seekEntry_none : table.seekEntry key = none ↔ table.lookup key = none :=
  seek_eq_none

/-- Unlinking behind the trailing pointer of a walk takes one node out of its chain. -/
theorem Table.expireAndDelete_buckets (table : Table) {cursor : Cursor Entry} (index : Nat)
    (prev : cursor.prev = trailing cursor.pos)
    : (table.expireAndDeleteUnlocked cursor index).buckets
      = table.buckets.modify index (fun chain => chain.eraseIdx cursor.pos) := by
  simp only [Table.expireAndDeleteUnlocked, Table.refund, prev, unlink_trailing]

/-- The chain of the entry loses it. -/
theorem Table.expireAndDelete_chain (table : Table) {cursor : Cursor Entry} {index : Nat}
    (prev : cursor.prev = trailing cursor.pos)
    (here : (bucket table.buckets index)[cursor.pos]? = some cursor.item)
    : bucket (table.expireAndDeleteUnlocked cursor index).buckets index
      = (bucket table.buckets index).eraseIdx cursor.pos := by
  rw [table.expireAndDelete_buckets index prev, bucket_modify (index_lt_of_bucket here),
    if_pos rfl]

/-- The other entries stay. -/
theorem Table.expireAndDelete_perm (table : Table) {cursor : Cursor Entry} {index : Nat}
    (prev : cursor.prev = trailing cursor.pos)
    (here : (bucket table.buckets index)[cursor.pos]? = some cursor.item)
    : table.entries.Perm
        (cursor.item :: (table.expireAndDeleteUnlocked cursor index).entries) := by
  rw [Table.entries, Table.entries, table.expireAndDelete_buckets index prev]
  exact modify_eraseIdx_perm here

/-- Unlinking the entry under a cursor takes that entry away. -/
theorem Table.WellFormed.expireAndDelete (wf : table.WellFormed) {cursor : Cursor Entry}
    {index : Nat} (prev : cursor.prev = trailing cursor.pos)
    (here : (bucket table.buckets index)[cursor.pos]? = some cursor.item)
    : table.Becomes (table.expireAndDeleteUnlocked cursor index)
        (table.logical.erase cursor.item.key)
      ∧ table.entries.Perm
          (cursor.item :: (table.expireAndDeleteUnlocked cursor index).entries) := by
  have chains := table.expireAndDelete_buckets index prev
  obtain ⟨placed, split⟩ := wf.placed.erase here
  rw [← chains] at placed split
  obtain ⟨wellFormed, logical⟩ := wf.removed placed split rfl rfl
  exact ⟨⟨wellFormed, logical, rfl, rfl⟩, split⟩

/-- Unlinking the entry that a walk for its key ended on. -/
theorem Table.WellFormed.expireAndDelete_seek (wf : table.WellFormed)
    {cursor : Cursor Entry} (met : table.seekEntry key = some cursor)
    : table.Becomes (table.expireAndDeleteUnlocked cursor (hashKey key table.bucketCount))
        (table.logical.erase key) := by
  obtain ⟨found, prev, here⟩ := Table.seekEntry_some met
  obtain ⟨_, rfl⟩ := mem_of_lookup found
  exact (wf.expireAndDelete prev here).1

theorem Table.WellFormed.insertEntry_placed (wf : table.WellFormed)
    (absent : table.lookup key = none) (value : Payload) (bytes : Nat)
    : Placed Entry.key hashKey (table.insertEntry key value bytes).buckets
      ∧ (table.insertEntry key value bytes).entries.Perm
          ({ key, value, expireAtMs := 0, lastAccessedTime := table.lruClock + 1 }
            :: table.entries) := by
  let entry : Entry :=
    { key, value, expireAtMs := 0, lastAccessedTime := table.lruClock + 1 }
  have fresh : ∀ other ∈ table.entries, other.key ≠ entry.key := wf.lookup_eq_none.mp absent
  exact wf.placed.push (hashKey_lt entry.key wf.placed.nonempty) fresh

/-- Linking a new entry at the head of its chain. -/
theorem Table.WellFormed.insertEntry (wf : table.WellFormed) (absent : table.lookup key = none)
    (validKey : ValidKey key) {value : Payload} (valid : value.WellFormed) (bytes : Nat)
    : table.Becomes (table.insertEntry key value bytes)
        (table.logical.insert key ⟨value.content, 0⟩) := by
  obtain ⟨placed, split⟩ := wf.insertEntry_placed absent value bytes
  obtain ⟨wellFormed, logical⟩ := wf.added placed split rfl rfl ⟨validKey, valid⟩ rfl
  exact ⟨wellFormed, logical, rfl, rfl⟩

/-- A new entry is found under its key. -/
theorem Table.WellFormed.lookup_insertEntry (wf : table.WellFormed)
    (absent : table.lookup key = none) (validKey : ValidKey key) {value : Payload}
    (valid : value.WellFormed) (bytes : Nat)
    : (table.insertEntry key value bytes).lookup key
      = some { key, value, expireAtMs := 0, lastAccessedTime := table.lruClock + 1 } := by
  have split := (wf.insertEntry_placed absent value bytes).2
  exact (wf.insertEntry absent validKey valid bytes).wellFormed.lookup_of_mem
    (split.mem_iff.mpr List.mem_cons_self)

/-- A lookup reports the entry unless it is expired, and takes an expired one away. -/
theorem Table.WellFormed.findEntry (wf : table.WellFormed) (key : CString) (now : Int64)
    : let found := table.findEntryUnlocked key now
      table.Becomes found.2 (LogicalMap.expire table.logical now key)
      ∧ found.2.lookup key = found.1 := by
  have shown := wf.logical_lookup key
  simp only [Table.findEntryUnlocked]
  cases met : table.seekEntry key with
  | none =>
      have absent := Table.seekEntry_none.mp met
      rw [absent, Option.map_none] at shown
      simp only [LogicalMap.expire, shown]
      exact ⟨.refl wf, absent⟩
  | some cursor =>
      have found := (Table.seekEntry_some met).1
      rw [found, Option.map_some] at shown
      simp only [LogicalMap.expire, shown]
      by_cases expired : entryIsExpired cursor.item now = true
      · have same : cursor.item.binding.isExpired now = true := expired
        have deleted := wf.expireAndDelete_seek met
        rw [if_pos expired, if_pos same]
        refine ⟨deleted, ?_⟩
        have gone := deleted.wellFormed.logical_lookup key
        rw [deleted.logical, Finmap.lookup_erase] at gone
        exact Option.map_eq_none_iff.mp gone.symm
      · have same : ¬ cursor.item.binding.isExpired now = true := expired
        rw [if_neg expired, if_neg same]
        exact ⟨.refl wf, found⟩

/-- A lookup reports the entry of the key unless it is expired. -/
theorem Table.findEntry_fst (table : Table) (key : CString) (now : Int64)
    : (table.findEntryUnlocked key now).1
      = (table.lookup key).filter (fun entry => !entryIsExpired entry now) := by
  simp only [Table.findEntryUnlocked]
  cases met : table.seekEntry key with
  | none => simp [Table.seekEntry_none.mp met]
  | some cursor =>
      rw [(Table.seekEntry_some met).1]
      simp only [Option.filter_some, Bool.not_eq_true']
      split <;> simp_all

/-- A lookup that meets no expired entry leaves the table alone. -/
theorem Table.findEntry_of_live {now : Int64}
    (live : ∀ entry, table.lookup key = some entry → entryIsExpired entry now = false)
    : table.findEntryUnlocked key now = (table.lookup key, table) := by
  rw [Table.findEntryUnlocked]
  cases met : table.seekEntry key with
  | none => simp only [Table.seekEntry_none.mp met]
  | some cursor =>
      have found := (Table.seekEntry_some met).1
      simp only [live cursor.item found, found, Bool.false_eq_true, if_false]

theorem Table.lookup_of_findEntry {now : Int64}
    (found : (table.findEntryUnlocked key now).1 = some entry)
    : table.lookup key = some entry := by
  rw [Table.findEntry_fst] at found
  exact (Option.filter_eq_some_iff.mp found).1

/-- What a lookup reports is not expired. -/
theorem Table.findEntry_live {now : Int64}
    (found : (table.findEntryUnlocked key now).1 = some entry)
    : entryIsExpired entry now = false := by
  simp only [Table.findEntryUnlocked] at found
  split at found
  · contradiction
  · split at found
    · contradiction
    · next live =>
        obtain rfl := Option.some.inj found
        simpa using live

/-- A new bucket array: every entry is moved once and nothing else that matters changes. -/
theorem Table.WellFormed.rehashed (wf : table.WellFormed) {count : Nat} (positive : 0 < count)
    : table.Becomes
        (Table.refund
          { table.charge (count * sizeofPointer) with
            buckets := rehash Entry.key hashKey table.buckets count }
          (table.bucketCount * sizeofPointer))
        table.logical
      ∧ (rehash Entry.key hashKey table.buckets count).length = count
      ∧ (rehash Entry.key hashKey table.buckets count).flatten.Perm table.entries := by
  obtain ⟨length, placed, perm⟩ := wf.placed.rehash positive (fun k => hashKey_lt k positive)
  have member := fun entry : Entry => perm.mem_iff (a := entry)
  refine ⟨⟨⟨placed, wf.size.trans perm.length_eq.symm, ?_, ?_, ?_⟩, ?_, rfl, rfl⟩, length, perm⟩
  · exact fun entry inside => wf.entries entry ((member entry).mp inside)
  · exact (perm.map Entry.lastAccessedTime).nodup_iff.mpr wf.times
  · exact fun entry inside => wf.clock entry ((member entry).mp inside)
  · exact tabulate_perm placed.distinct perm

theorem Table.WellFormed.resize (wf : table.WellFormed) (newBucketCount : Nat) (env : CallEnv)
    : table.Becomes (table.kvResizeUnlocked newBucketCount env).2 table.logical := by
  simp only [Table.kvResizeUnlocked]
  split
  · exact .refl wf
  · next nonzero =>
      split
      · exact .refl wf
      · split
        · exact .refl wf
        · exact (wf.rehashed (Nat.pos_of_ne_zero nonzero)).1

theorem Table.WellFormed.growIfLoaded (wf : table.WellFormed) (env : CallEnv)
    : table.Becomes (table.growIfLoaded env) table.logical := by
  rw [Table.growIfLoaded]
  split
  · exact wf.resize _ env
  · exact .refl wf

end MiniKv
