import MiniKv.Correctness.Limits

/-! Pushing to a list and adding to a set under a memory budget. Between finding the container and
linking the node the code evicts until the node fits, and the container itself may be evicted.
The container was used last, so that happens in a round that has no other entry to choose from.
-/

namespace MiniKv

open MiniKv.Foundations.ChainedTable
open MiniKv.Foundations.DoublyLinked

variable {table : Table} {key : CString} {entry : Entry} {extra : Nat} {store : Store}

-- The rounds of an eviction loop

/-- Every round of the loop that makes room for `bytes` has an entry to choose from that is not
the one under `key`.
-/
def Table.Spares (key : CString) (bytes : Nat) : Nat → Table → Prop
  | 0, _ => True
  | rounds + 1, table =>
      0 < table.maxMemoryBudget ∧ table.maxMemoryBudget < table.allocatedBytes + bytes →
        (∃ entry ∈ table.candidates, entry.key ≠ key)
        ∧ Table.Spares key bytes rounds table.kvEvictLruUnlocked.2

instance Table.decidableSpares (key : CString) (bytes : Nat)
    : ∀ (rounds : Nat) (table : Table), Decidable (Table.Spares key bytes rounds table)
  | 0, _ => isTrue trivial
  | rounds + 1, table =>
      have := Table.decidableSpares key bytes rounds table.kvEvictLruUnlocked.2
      inferInstanceAs (Decidable
        (0 < table.maxMemoryBudget ∧ table.maxMemoryBudget < table.allocatedBytes + bytes →
          (∃ entry ∈ table.candidates, entry.key ≠ key)
          ∧ Table.Spares key bytes rounds table.kvEvictLruUnlocked.2))

/-- The entry is there and was used last. -/
structure Table.Newest (table : Table) (entry : Entry) : Prop where
  found : table.lookup entry.key = some entry
  newest : entry.lastAccessedTime = table.lruClock

/-- An eviction leaves the newest entry alone exactly when it has another one to choose from. -/
theorem Table.Audited.evict_newest (audited : table.Audited extra) (newest : table.Newest entry)
    : ((∃ other ∈ table.candidates, other.key ≠ entry.key)
        → table.kvEvictLruUnlocked.2.Newest entry)
      ∧ ((¬ ∃ other ∈ table.candidates, other.key ≠ entry.key)
        → table.kvEvictLruUnlocked.2.lookup entry.key = none)
      ∧ table.kvEvictLruUnlocked.1 = kvOk := by
  have wf := audited.wellFormed
  have member := (Table.WellFormed.mem_of_lookup newest.found).1
  have occupied : 0 < table.size := wf.size ▸ List.length_pos_of_mem member
  obtain ⟨victim, candidate, least, evicted, split⟩ :=
    (wf.evictable audited.clock).evictLru_victim occupied
  have removals := table.evictLru_removals
  have laterWf := (removals.path.keeps wf).wellFormed
  refine ⟨?_, ?_, evicted⟩
  · rintro ⟨other, chosen, different⟩
    have inTable := Table.mem_of_candidate chosen
    have older : other.lastAccessedTime < entry.lastAccessedTime := by
      have bound := wf.clock other inTable
      have apart : other.lastAccessedTime ≠ entry.lastAccessedTime := fun same =>
        different (congrArg Entry.key (List.inj_on_of_nodup_map wf.times inTable member same))
      have last := newest.newest
      omega
    have spared : entry ≠ victim := by
      rintro rfl
      have bound := least other chosen
      omega
    have kept : entry ∈ table.kvEvictLruUnlocked.2.entries :=
      (List.mem_cons.mp (split.mem_iff.mp member)).resolve_left spared
    exact ⟨laterWf.lookup_of_mem kept, newest.newest.trans removals.lruClock.symm⟩
  · intro alone
    have same : victim.key = entry.key := by
      by_contra different
      exact alone ⟨victim, candidate, different⟩
    have keys := (split.map Entry.key).nodup_iff.mp wf.placed.distinct
    rw [List.map_cons, List.nodup_cons, same] at keys
    exact laterWf.lookup_eq_none.mpr
      (fun other inside shared => keys.1 (shared ▸ List.mem_map_of_mem inside))

/-- The loop keeps the newest entry exactly when every round spares it, and then it ends with
enough room. By induction on the fuel.
-/
theorem Table.Audited.evictWhileOver_newest (audited : table.Audited extra)
    (newest : table.Newest entry) (limited : 0 < table.maxMemoryBudget) (bytes : Nat) {fuel : Nat}
    (enough : table.size ≤ fuel)
    : (Table.Spares entry.key bytes fuel table →
        (table.evictWhileOver bytes fuel).Newest entry
        ∧ (table.evictWhileOver bytes fuel).allocatedBytes + bytes ≤ table.maxMemoryBudget)
      ∧ (¬ Table.Spares entry.key bytes fuel table →
        (table.evictWhileOver bytes fuel).lookup entry.key = none) := by
  induction fuel generalizing table with
  | zero =>
      have member := (Table.WellFormed.mem_of_lookup newest.found).1
      have occupied : 0 < table.size := audited.wellFormed.size ▸ List.length_pos_of_mem member
      omega
  | succ fuel ih =>
      have member := (Table.WellFormed.mem_of_lookup newest.found).1
      have occupied : 0 < table.size := audited.wellFormed.size ▸ List.length_pos_of_mem member
      simp only [Table.evictWhileOver, Table.Spares]
      by_cases excess : table.maxMemoryBudget < table.allocatedBytes + bytes
      · obtain ⟨spared, taken, evicted⟩ := audited.evict_newest newest
        obtain ⟨later, _, budget⟩ := audited.removals table.evictLru_removals
        rw [if_pos ⟨excess, occupied⟩, if_pos evicted]
        have fewer := (audited.wellFormed.evictable audited.clock).evictLru_size occupied
        by_cases others : ∃ other ∈ table.candidates, other.key ≠ entry.key
        · have rest := ih later (spared others) (budget ▸ limited) (by omega)
          rw [budget] at rest
          refine ⟨fun spares => rest.1 (spares ⟨limited, excess⟩).2, fun fails => rest.2 ?_⟩
          exact fun spares => fails (fun _ => ⟨others, spares⟩)
        · refine ⟨fun spares => absurd (spares ⟨limited, excess⟩).1 others, fun _ => ?_⟩
          exact (Table.evictWhileOver_removals bytes fuel _).absent later.wellFormed (taken others)
      · have stops : ¬ (table.maxMemoryBudget < table.allocatedBytes + bytes ∧ 0 < table.size) :=
          fun both => excess both.1
        rw [if_neg stops]
        refine ⟨fun _ => ⟨newest, Nat.le_of_not_lt excess⟩, fun fails => absurd ?_ fails⟩
        exact fun both => absurd both.2 excess

/-- Making room keeps the newest entry when every round spares it, and takes it away otherwise. -/
theorem Table.Audited.makeRoom_newest (audited : table.Audited extra)
    (newest : table.Newest entry) (bytes : Nat)
    : (table.makeRoom bytes).2.lookup entry.key
      = if Table.Spares entry.key bytes table.size table then some entry else none := by
  by_cases limited : 0 < table.maxMemoryBudget
  · obtain ⟨spared, taken⟩ := audited.evictWhileOver_newest newest limited bytes le_rfl
    simp only [Table.makeRoom, if_pos limited]
    split
    · next spares => exact (spared spares).1.found
    · next fails => exact taken fails
  · have unlimited : table.maxMemoryBudget = 0 := Nat.eq_zero_of_not_pos limited
    have spares : Table.Spares entry.key bytes table.size table := by
      cases table.size with
      | zero => trivial
      | succ rounds => exact fun both => absurd both.1 limited
    rw [Table.makeRoom_of_unlimited unlimited, if_pos spares]
    exact newest.found

/-- Making room fails exactly when the bytes would not fit into the empty table. -/
theorem Table.Audited.makeRoom_eq_false (audited : table.Audited extra) (bytes : Nat)
    : (table.makeRoom bytes).1 = false
      ↔ 0 < table.maxMemoryBudget ∧ table.TooSmallFor extra bytes := by
  constructor
  · intro failed
    refine ⟨?_, audited.makeRoom_fails failed⟩
    by_contra unlimited
    rw [Table.makeRoom_of_unlimited (Nat.eq_zero_of_not_pos unlimited)] at failed
    contradiction
  · rintro ⟨limited, small⟩
    obtain ⟨later, buckets, budget⟩ := audited.removals
      (Table.evictWhileOver_removals bytes table.size table)
    have total := later.accounted.exact
    rw [buckets] at total
    rw [Table.TooSmallFor] at small
    simp only [Table.makeRoom, if_pos limited, budget]
    exact decide_eq_false (by omega)

-- Linking a node

/-- The node is not linked: an allocation fails, or it would not fit into the empty table. -/
def Table.NodeRefused (extra : Nat) (table : Table) (bytes : Nat) (env : CallEnv) : Prop :=
  env.alloc .node = false ∨ env.alloc .value = false
  ∨ 0 < table.maxMemoryBudget ∧ table.TooSmallFor extra bytes

/-- Room is made for a node and its memory is there, but the container under the key was evicted to
make that room.
-/
def Table.EvictsOwn (table : Table) (key : CString) (bytes : Nat) (env : CallEnv) : Prop :=
  (table.makeRoom bytes).1 = true ∧ env.alloc .node = true ∧ env.alloc .value = true
    ∧ (table.makeRoom bytes).2.lookup key = none

/-- The newest entry is evicted exactly in a round that has no other entry to choose from. -/
theorem Table.Audited.evictsOwn_iff (audited : table.Audited extra)
    (newest : table.Newest entry) (bytes : Nat) (env : CallEnv)
    : table.EvictsOwn entry.key bytes env
      ↔ ¬ table.NodeRefused extra bytes env
        ∧ ¬ Table.Spares entry.key bytes table.size table := by
  rw [Table.EvictsOwn, Table.NodeRefused, ← audited.makeRoom_eq_false bytes,
    audited.makeRoom_newest newest bytes, not_or, not_or]
  simp only [Bool.not_eq_false, ite_eq_right_iff, reduceCtorEq, imp_false]
  tauto

/-- What linking a node to the newest entry comes to. -/
inductive Table.LinkOutcome (extra : Nat) (table : Table) (entry : Entry) (bytes : Nat)
    (env : CallEnv) (payload : Payload) (result : Int) : Linking × Table → Prop where
  | refused {status : Int} {after : Table} (reason : table.NodeRefused extra bytes env)
      (negative : status < 0)
      : table.LinkOutcome extra entry bytes env payload result (.failed status, after)
  | freed {after : Table} (taken : table.EvictsOwn entry.key bytes env)
      : table.LinkOutcome extra entry bytes env payload result (.undefined, after)
  | linked {after : Table} (accepted : ¬ table.NodeRefused extra bytes env)
      (spared : Table.Spares entry.key bytes table.size table)
      (found : after.lookup entry.key = some { entry with value := payload })
      : table.LinkOutcome extra entry bytes env payload result (.linked result, after)

theorem Table.Audited.linkNode_outcome (audited : table.Audited extra)
    (newest : table.Newest entry) {link : Payload → Option (Payload × Int)} {payload : Payload}
    {result : Int} (links : link entry.value = some (payload, result)) (bytes : Nat)
    (env : CallEnv)
    : table.LinkOutcome extra entry bytes env payload result
        (table.linkNode entry.key bytes link env) := by
  have kept := audited.makeRoom_newest newest bytes
  have roomWf := ((table.makeRoom_path bytes).keeps audited.wellFormed).wellFormed
  simp only [Table.linkNode]
  split
  · next failed =>
      exact .refused (.inr (.inr ((audited.makeRoom_eq_false bytes).mp failed))) (by decide)
  · next made =>
      split
      · next unallocated =>
          rw [Bool.and_eq_false_iff] at unallocated
          exact .refused (unallocated.imp_right .inl) (by decide)
      · next allocated =>
          have accepted : ¬ table.NodeRefused extra bytes env := by
            rintro (noNode | noValue | small)
            · simp [noNode] at allocated
            · simp [noValue] at allocated
            · exact made ((audited.makeRoom_eq_false bytes).mpr small)
          by_cases spares : Table.Spares entry.key bytes table.size table
          · rw [if_pos spares] at kept
            simp only [kept, Option.bind_some, links]
            exact .linked accepted spares
              (roomWf.lookup_modifyEntry kept (fun entry => { entry with value := payload })
                (fun _ => rfl))
          · rw [if_neg spares] at kept
            simp only [kept, Option.bind_none]
            exact .freed ((audited.evictsOwn_iff newest bytes env).mpr ⟨accepted, spares⟩)

-- Pushes and adds

/-- The list a push finds or creates under the key, with the table by then. -/
def Table.openList (table : Table) (key : CString) (env : CallEnv) : Opened × Table :=
  table.openContainer key Payload.isList (.list DList.empty)
    (sizeofEntry + key.length + 1 + sizeofList) [.entry, .key, .list] env

/-- The set an add finds or creates under the key, with the table by then. -/
def Table.openSet (table : Table) (key : CString) (env : CallEnv) : Opened × Table :=
  table.openContainer key Payload.isSet (.set KvSet.empty)
    (sizeofEntry + key.length + 1 + sizeofSet + initialSetBuckets * sizeofPointer)
    [.entry, .key, .set, .setBuckets] env

theorem Table.lpush_failed {opened : Table} {err : Int}
    (opens : table.openList key env = (.error err, opened)) (value : CString)
    : table.lpush key value env = (.failed err, opened) := by
  rw [Table.openList] at opens
  simp only [Table.lpush, opens]

theorem Table.lpush_opened {opened : Table} (opens : table.openList key env = (.ok (), opened))
    (value : CString)
    : table.lpush key value env
      = opened.linkNode key (listNodeBytes value) (pushFrontPayload value) env := by
  rw [Table.openList] at opens
  simp only [Table.lpush, opens, listNodeBytes]

theorem Table.sadd_failed {opened : Table} {err : Int}
    (opens : table.openSet key env = (.error err, opened)) (value : CString)
    : table.sadd key value env = (.failed err, opened) := by
  rw [Table.openSet] at opens
  simp only [Table.sadd, opens]

theorem Table.sadd_opened {opened : Table} {entry : Entry} {chains : KvSet}
    (opens : table.openSet key env = (.ok (), opened)) (found : opened.lookup key = some entry)
    (isSet : entry.value = .set chains) (value : CString)
    : table.sadd key value env
      = if chains.contains value then (.failed 0, opened)
        else opened.linkNode key (setNodeBytes value) (addPayload value) env := by
  rw [Table.openSet] at opens
  obtain ⟨entryKey, payload, expireAtMs, time⟩ := entry
  obtain rfl : payload = .set chains := isSet
  simp only [Table.sadd, opens, found, setNodeBytes]

theorem Table.find_lruClock (table : Table) (key : CString) (now : Int64)
    : (table.findEntryUnlocked key now).2.lruClock = table.lruClock := by
  simp only [Table.findEntryUnlocked]
  split
  · rfl
  · split <;> rfl

/-- Finding or creating a container counts one access. -/
theorem Table.openContainer_lruClock (table : Table) (key : CString) (wanted : Payload → Bool)
    (fresh : Payload) (overhead : Nat) (sites : List AllocSite) (env : CallEnv)
    : (table.openContainer key wanted fresh overhead sites env).2.lruClock
      ≤ table.lruClock + 1 := by
  have looked := table.find_lruClock key env.now
  have room := ((table.findEntryUnlocked key env.now).2.makeRoom_removals overhead).lruClock
  simp only [Table.openContainer]
  split
  · split
    · simp [Table.touch, looked]
    · simp [looked]
  · split_ifs
    · simp [looked]
    · simp [room, looked]
    · simp [room, looked]
    · simp [Table.insertEntry, Table.charge, room, looked]

/-- A container that was found or created is the newest entry of a table with exact books. -/
theorem Table.Audited.openContainer_newest (audited : table.Audited extra)
    (clock : table.lruClock + 1 < uint64Max) (validKey : ValidKey key) {wanted : Payload → Bool}
    {fresh : Payload} (valid : fresh.WellFormed) (sized : fresh.Sized)
    (isWanted : wanted fresh = true) {overhead : Nat}
    (bytesExact : overhead = sizeofEntry + (key.length + 1) + fresh.footprint)
    (empty : fresh.values = []) {sites : List AllocSite} {env : CallEnv}
    (opened : (table.openContainer key wanted fresh overhead sites env).1 = .ok ())
    : let later := (table.openContainer key wanted fresh overhead sites env).2
      later.Audited extra
      ∧ ∃ entry, entry.key = key ∧ later.Newest entry ∧ wanted entry.value = true
          ∧ entryIsExpired entry env.now = false := by
  have path :=
    (audited.wellFormed.openContainer validKey wanted valid sized bytesExact empty sites env).path
  have counted := table.openContainer_lruClock key wanted fresh overhead sites env
  obtain ⟨entry, found, isContainer, live, time⟩ :=
    audited.wellFormed.openContainer_lookup validKey valid isWanted opened
  have same := (Table.WellFormed.mem_of_lookup found).2
  exact ⟨⟨(path.keeps audited.wellFormed).wellFormed,
    (audited.accounted.path audited.wellFormed path).1, by omega⟩,
    entry, same, ⟨same.symm ▸ found, time⟩, isContainer, live⟩

/-- A push that succeeds is defined, and its length and value are those of the list under the key.
The books stay exact.
-/
structure PushTakesEffect (extra : Nat) (key value : CString) (now : Int64)
    (pushed : Option Int × Store) : Prop where
  defined : pushed.1 ≠ none
  bound : ∀ n, pushed.1 = some n → 1 ≤ n →
    ∃ entry links, pushed.2.table.lookup key = some entry
      ∧ entryIsExpired entry now = false
      ∧ entry.value = .list links
      ∧ (links.toList.length : Int) = n
      ∧ links.toList.head? = some value
  books : pushed.2.table.allocatedBytes
    = pushed.2.table.bucketCount * sizeofPointer + extra
      + (pushed.2.table.entries.map Entry.footprint).sum

/-- An add that answers 1 is defined, and the value is in the set under the key. The books stay
exact.
-/
structure AddTakesEffect (extra : Nat) (key value : CString) (now : Int64)
    (added : Option Int × Store) : Prop where
  defined : added.1 ≠ none
  bound : added.1 = some 1 →
    ∃ entry chains, added.2.table.lookup key = some entry
      ∧ entryIsExpired entry now = false
      ∧ entry.value = .set chains
      ∧ value ∈ chains.members
  books : added.2.table.allocatedBytes
    = added.2.table.bucketCount * sizeofPointer + extra
      + (added.2.table.entries.map Entry.footprint).sum

/-- Cut to an `int`, a positive length is still itself. -/
def LengthFits (length : Nat) : Prop :=
  1 ≤ toCInt length → toCInt length = length

/-- No round of evictions between finding the list and linking the node has only that list to
choose from, unless the node is refused anyway; and the new length fits the result.
-/
def PushSafe (extra : Nat) (store : Store) (key value : CString) (env : CallEnv) : Prop :=
  ValidKey key → ValidValue value → ∀ opened, store.table.openList key env = (.ok (), opened) →
    opened.NodeRefused extra (listNodeBytes value) env
    ∨ Table.Spares key (listNodeBytes value) opened.size opened
      ∧ ∀ entry links, opened.lookup key = some entry → entry.value = .list links →
          LengthFits (links.toList.length + 1)

/-- No round of evictions between finding the set and linking the node has only that set to choose
from, unless the value is a member already or the node is refused anyway.
-/
def AddSafe (extra : Nat) (store : Store) (key value : CString) (env : CallEnv) : Prop :=
  ValidKey key → ValidValue value → ∀ opened, store.table.openSet key env = (.ok (), opened) →
    (∃ entry chains, opened.lookup key = some entry ∧ entry.value = .set chains
      ∧ value ∈ chains.members)
    ∨ opened.NodeRefused extra (setNodeBytes value) env
    ∨ Table.Spares key (setNodeBytes value) opened.size opened

/-- What a push promises of its table part. -/
def PushedAs (key value : CString) (now : Int64) (pushed : Linking × Table) : Prop :=
  pushed.1.reply ≠ none
  ∧ ∀ n, pushed.1.reply = some n → 1 ≤ n →
      ∃ entry links, pushed.2.lookup key = some entry
        ∧ entryIsExpired entry now = false
        ∧ entry.value = .list links
        ∧ (links.toList.length : Int) = n
        ∧ links.toList.head? = some value

/-- What an add promises of its table part. -/
def AddedAs (key value : CString) (now : Int64) (added : Linking × Table) : Prop :=
  added.1.reply ≠ none
  ∧ (added.1.reply = some 1 →
      ∃ entry chains, added.2.lookup key = some entry
        ∧ entryIsExpired entry now = false
        ∧ entry.value = .set chains
        ∧ value ∈ chains.members)

/-- A negative code promises nothing. -/
theorem pushedAs_failed {value : CString} {now : Int64} {status : Int} (negative : status < 0)
    (after : Table)
    : PushedAs key value now (.failed status, after) := by
  refine ⟨by simp [Linking.reply], fun n same positive => ?_⟩
  have code := Option.some.inj same
  omega

theorem addedAs_failed {value : CString} {now : Int64} {status : Int} (other : status < 1)
    (after : Table)
    : AddedAs key value now (.failed status, after) := by
  refine ⟨by simp [Linking.reply], fun same => ?_⟩
  have code := Option.some.inj same
  omega

/-- A push that has linked its node keeps its promise exactly when the length fits the result. -/
theorem pushedAs_linked_iff {value : CString} {now : Int64} {after : Table} {entry : Entry}
    {links : KvList} (listWf : ListWellFormed links) (validValue : ValidValue value)
    (found : after.lookup key = some { entry with value := .list (links.pushFront value) })
    (live : entryIsExpired entry now = false)
    : PushedAs key value now (.linked (toCInt (links.pushFront value).count), after)
      ↔ LengthFits (links.toList.length + 1) := by
  obtain ⟨pushedWf, contents⟩ := listWf.pushFront validValue
  have length : (links.pushFront value).toList.length = links.toList.length + 1 := by
    rw [contents, List.length_cons]
  rw [pushedWf.count_eq, length]
  constructor
  · rintro ⟨_, bound⟩ positive
    obtain ⟨_, pushed, there, _, isPushed, same, _⟩ := bound _ rfl positive
    rw [found, Option.some.injEq] at there
    subst there
    obtain rfl := Payload.list.inj isPushed
    rw [← same, length]
  · intro fits
    refine ⟨by simp [Linking.reply], fun n same positive => ?_⟩
    obtain rfl := Option.some.inj same
    refine ⟨_, _, found, live, rfl, ?_, by rw [contents, List.head?_cons]⟩
    rw [length]
    exact (fits positive).symm

/-- The table part of a push keeps its promise exactly when the list survives the evictions and its
length fits.
-/
theorem Table.Audited.pushedAs_iff (audited : table.Audited extra)
    (clock : table.lruClock + 1 < uint64Max) {key value : CString} (validKey : ValidKey key)
    (validValue : ValidValue value) (env : CallEnv)
    : PushedAs key value env.now (table.lpush key value env)
      ↔ ∀ opened, table.openList key env = (.ok (), opened) →
          opened.NodeRefused extra (listNodeBytes value) env
          ∨ Table.Spares key (listNodeBytes value) opened.size opened
            ∧ ∀ entry links, opened.lookup key = some entry → entry.value = .list links →
                LengthFits (links.toList.length + 1) := by
  cases opens : table.openList key env with
  | mk status opened =>
      cases status with
      | error err =>
          rw [Table.lpush_failed opens]
          refine iff_of_true ?_ (fun other same => by simp at same)
          exact pushedAs_failed (Table.openContainer_error (congrArg Prod.fst opens)) opened
      | ok done =>
          rw [Table.lpush_opened opens]
          have opensList : (table.openContainer key Payload.isList (.list DList.empty)
              (sizeofEntry + key.length + 1 + sizeofList) [.entry, .key, .list] env)
              = (.ok (), opened) := opens
          have container := audited.openContainer_newest clock validKey
            (show (Payload.list DList.empty).WellFormed from listWellFormed_empty) trivial rfl
            (emptyList_bytes key) rfl (congrArg Prod.fst opensList)
          rw [opensList] at container
          obtain ⟨openedAudited, entry, rfl, newest, isList, live⟩ := container
          obtain ⟨entryKey, payload, expireAtMs, time⟩ := entry
          obtain ⟨links, rfl⟩ : ∃ links, payload = .list links := Payload.exists_of_isList isList
          have listWf : ListWellFormed links :=
            openedAudited.wellFormed.value_of_lookup newest.found
          have outcome := openedAudited.linkNode_outcome newest
            (show pushFrontPayload value (.list links) = some _ from rfl)
            (listNodeBytes value) env
          simp only
          generalize opened.linkNode _ (listNodeBytes value) (pushFrontPayload value) env
            = linked at outcome ⊢
          cases outcome with
          | @refused status after reason negative =>
              refine iff_of_true (pushedAs_failed negative after) (fun other same => ?_)
              obtain ⟨_, rfl⟩ := same
              exact .inl reason
          | freed taken =>
              obtain ⟨accepted, taken⟩ := (openedAudited.evictsOwn_iff newest _ env).mp taken
              refine iff_of_false (fun pushed => pushed.1 rfl) (fun safe => ?_)
              exact (safe opened rfl).elim accepted (fun spared => taken spared.1)
          | linked accepted spared found =>
              rw [pushedAs_linked_iff listWf validValue found live]
              constructor
              · intro fits other same
                obtain ⟨_, rfl⟩ := same
                refine .inr ⟨spared, fun entry others here isList => ?_⟩
                rw [newest.found, Option.some.injEq] at here
                subst here
                obtain rfl := Payload.list.inj isList
                exact fits
              · intro safe
                rcases safe opened rfl with refused | ⟨_, fits⟩
                · exact absurd refused accepted
                · exact fits _ links newest.found rfl

/-- The table part of an add keeps its promise exactly when the set survives the evictions. -/
theorem Table.Audited.addedAs_iff (audited : table.Audited extra)
    (clock : table.lruClock + 1 < uint64Max) {key : CString} (validKey : ValidKey key)
    (value : CString) (env : CallEnv)
    : AddedAs key value env.now (table.sadd key value env)
      ↔ ∀ opened, table.openSet key env = (.ok (), opened) →
          (∃ entry chains, opened.lookup key = some entry ∧ entry.value = .set chains
            ∧ value ∈ chains.members)
          ∨ opened.NodeRefused extra (setNodeBytes value) env
          ∨ Table.Spares key (setNodeBytes value) opened.size opened := by
  cases opens : table.openSet key env with
  | mk status opened =>
      cases status with
      | error err =>
          have negative : err < 0 := Table.openContainer_error (congrArg Prod.fst opens)
          rw [Table.sadd_failed opens]
          refine iff_of_true ?_ (fun other same => by simp at same)
          exact addedAs_failed (by omega) opened
      | ok done =>
          have opensSet : (table.openContainer key Payload.isSet (.set KvSet.empty)
              (sizeofEntry + key.length + 1 + sizeofSet + initialSetBuckets * sizeofPointer)
              [.entry, .key, .set, .setBuckets] env) = (.ok (), opened) := opens
          have container := audited.openContainer_newest clock validKey
            (show (Payload.set KvSet.empty).WellFormed from setWellFormed_empty) sized_emptySet rfl
            (emptySet_bytes key) members_empty (congrArg Prod.fst opensSet)
          rw [opensSet] at container
          obtain ⟨openedAudited, entry, rfl, newest, isSet, live⟩ := container
          obtain ⟨entryKey, payload, expireAtMs, time⟩ := entry
          obtain ⟨chains, rfl⟩ : ∃ chains, payload = .set chains := Payload.exists_of_isSet isSet
          have setWf : chains.WellFormed :=
            openedAudited.wellFormed.value_of_lookup newest.found
          rw [Table.sadd_opened opens newest.found rfl]
          by_cases contained : chains.contains value = true
          · rw [if_pos contained]
            refine iff_of_true (addedAs_failed (by decide) opened) (fun other same => ?_)
            obtain ⟨_, rfl⟩ := same
            exact .inl ⟨_, chains, newest.found, rfl, setWf.contains_iff.mp contained⟩
          · rw [if_neg contained]
            have missing : value ∉ chains.members :=
              fun member => contained (setWf.contains_iff.mpr member)
            have members := (setWf.add_perm missing).2
            have outcome := openedAudited.linkNode_outcome newest
              (show addPayload value (.set chains) = some _ from rfl) (setNodeBytes value) env
            generalize opened.linkNode _ (setNodeBytes value) (addPayload value) env
              = linked at outcome ⊢
            cases outcome with
            | @refused status after reason negative =>
                refine iff_of_true (addedAs_failed (by omega) after) (fun other same => ?_)
                obtain ⟨_, rfl⟩ := same
                exact .inr (.inl reason)
            | freed taken =>
                obtain ⟨accepted, taken⟩ := (openedAudited.evictsOwn_iff newest _ env).mp taken
                refine iff_of_false (fun added => added.1 rfl) (fun safe => ?_)
                rcases safe opened rfl with
                  ⟨other, others, here, isSet, member⟩ | refused | spared
                · rw [newest.found, Option.some.injEq] at here
                  subst here
                  obtain rfl := Payload.set.inj isSet
                  exact missing member
                · exact accepted refused
                · exact taken spared
            | linked accepted spared found =>
                refine iff_of_true ⟨by simp [Linking.reply], fun _ => ?_⟩ (fun other same => ?_)
                · exact ⟨_, _, found, live, rfl, members.mem_iff.mpr List.mem_cons_self⟩
                · obtain ⟨_, rfl⟩ := same
                  exact .inr (.inr spared)

/-- Under any memory budget a push or an add that succeeds has taken effect exactly when the
evictions between finding the container and linking the node never have only the container to
choose from; a push must also return a length that fits an `int`. Otherwise the code links the node
to a container that it has freed.
Witness: the container was used last, so a round takes it only if nothing else is in the buckets
drawn.
-/
theorem insertion_takes_effect_iff {path : Option CString} (books : store.Books path)
    (clock : store.table.lruClock + 1 < uint64Max) (key value : CString) (env : CallEnv)
    : (PushTakesEffect (pathBytes path) key value env.now
          (kvLpush store (some key) (some value) env)
        ↔ PushSafe (pathBytes path) store key value env)
      ∧ (AddTakesEffect (pathBytes path) key value env.now
          (kvSadd store (some key) (some value) env)
        ↔ AddSafe (pathBytes path) store key value env) := by
  have audited : store.table.Audited (pathBytes path) :=
    ⟨books.wellFormed, books.accounted, by omega⟩
  constructor
  · have exactBooks := (books.accounted.path books.wellFormed
      (kvLpush_stores books.wellFormed (some key) (some value) env).path).1.exact
    rcases kvLpush_eq store key value env with
      ⟨err, negative, invalid, refused⟩ | ⟨validKey, validValue, reply, table⟩
    · refine iff_of_true ?_ (fun validKey validValue => absurd ⟨validKey, validValue⟩ invalid)
      have promise := @pushedAs_failed key value env.now err negative store.table
      rw [refused] at exactBooks ⊢
      exact ⟨promise.1, promise.2, exactBooks⟩
    · have promise := audited.pushedAs_iff clock validKey validValue env
      rw [PushedAs, ← reply, ← table] at promise
      constructor
      · exact fun effect _ _ => promise.mp ⟨effect.defined, effect.bound⟩
      · intro safe
        obtain ⟨defined, bound⟩ := promise.mpr (safe validKey validValue)
        exact ⟨defined, bound, exactBooks⟩
  · have exactBooks := (books.accounted.path books.wellFormed
      (kvSadd_stores books.wellFormed (some key) (some value) env).path).1.exact
    rcases kvSadd_eq store key value env with
      ⟨err, negative, invalid, refused⟩ | ⟨validKey, validValue, reply, table⟩
    · refine iff_of_true ?_ (fun validKey validValue => absurd ⟨validKey, validValue⟩ invalid)
      have promise := @addedAs_failed key value env.now err (by omega) store.table
      rw [refused] at exactBooks ⊢
      exact ⟨promise.1, promise.2, exactBooks⟩
    · have promise := audited.addedAs_iff clock validKey value env
      rw [AddedAs, ← reply, ← table] at promise
      constructor
      · exact fun effect _ _ => promise.mp ⟨effect.defined, effect.bound⟩
      · intro safe
        obtain ⟨defined, bound⟩ := promise.mpr (safe validKey validValue)
        exact ⟨defined, bound, exactBooks⟩

/-- A budget that has no room for the node evicts the string next to the set, and the add takes
effect.
-/
theorem insertion_takes_effect_iff_evicting
    : ∃ start,
        kvInitFull 4 0 290 none [] 7 (.at 0) (fun _ => .at 0) = .ok start
        ∧ let store := (start.run
            [⟨.op (.set (some ⟨[115], by decide⟩) (some ⟨[120], by decide⟩)), .at 1, 3⟩]).2
          AddTakesEffect (pathBytes none) ⟨[107], by decide⟩ ⟨[97], by decide⟩ 2
              (kvSadd store (some ⟨[107], by decide⟩) (some ⟨[97], by decide⟩) (.at 2))
          ∧ store.table.size = 1
          ∧ (kvSadd store (some ⟨[107], by decide⟩) (some ⟨[97], by decide⟩) (.at 2)).2.table.size
            = 1 := by
  refine ⟨_, rfl, ?_, by decide +kernel, by decide +kernel⟩
  have books := (@kvInitFull_books _ 4 0 290 none [] 7 (.at 0) (fun _ => .at 0) rfl).1.run
    [⟨.op (.set (some ⟨[115], by decide⟩) (some ⟨[120], by decide⟩)), .at 1, 3⟩]
  refine (insertion_takes_effect_iff books (by decide +kernel) ⟨[107], by decide⟩ ⟨[97], by decide⟩
    (.at 2)).2.mpr ?_
  intro _ _ opened same
  obtain rfl : _ = opened := congrArg Prod.snd same
  exact .inr (.inr (by decide +kernel))

/-- A budget of 100 bytes has room for an empty list and for a node, but not for both: the first
push evicts the list it has just created and links the node to it.
-/
theorem push_links_to_freed_list
    : ∃ start,
        kvInitFull 1 0 100 none [] 7 (.at 0) (fun _ => .at 0) = .ok start
        ∧ ¬ PushTakesEffect (pathBytes none) ⟨[107], by decide⟩ ⟨[97], by decide⟩ 1
            (kvLpush start (some ⟨[107], by decide⟩) (some ⟨[97], by decide⟩) (.at 1))
        ∧ (kvLpush start (some ⟨[107], by decide⟩) (some ⟨[97], by decide⟩) (.at 1)).1 = none
        ∧ (kvLpush start (some ⟨[107], by decide⟩) (some ⟨[97], by decide⟩) (.at 1)).2.table.size
            = 0 := by
  refine ⟨_, rfl, fun effect => effect.defined (by decide +kernel), by decide +kernel,
    by decide +kernel⟩

end MiniKv
