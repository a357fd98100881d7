import MiniKv.Invariants.Mutations
import MiniKv.Invariants.Reachable

/-! What a failed mutation leaves in memory. A push to a list and an add to a set link the new
container before they have memory for its first node; every other failure is found before anything
is changed.
-/

namespace MiniKv

open MiniKv.Foundations.DoublyLinked

variable {table : Table} {store : Store} {env : CallEnv} {key value : CString}

-- Failures

/-- No entry has a deadline. -/
def Table.TtlFree (table : Table) : Prop :=
  ∀ entry ∈ table.entries, entry.expireAtMs = 0

/-- The operations that change the keys or their values. -/
def Op.changesValues : Op → Bool
  | .set _ _ | .delete _ | .lpush _ _ | .rpop _ | .sadd _ _ | .srem _ _ => true
  | _ => false

/-- The reply is an error code. A push, an add and a removal return a count when they succeed, so
their error codes are the negative ones.
-/
def Op.reportsError : Op → Reply (List CString) → Bool
  | .set _ _, .status code => code ≠ kvOk
  | .delete _, .status code => code ≠ kvOk
  | .rpop _, .popped code _ => code ≠ kvOk
  | .lpush _ _, .status code => code < 0
  | .sadd _ _, .status code => code < 0
  | .srem _ _, .status code => code < 0
  | _, _ => false

/-- The two allocations of a node succeed. -/
def CallEnv.allocatesNode (env : CallEnv) : Bool :=
  env.alloc .node && env.alloc .value

/-- A push or an add creates its container: the key is new, the store is not full, and the
allocations of the entry and the container succeed.
-/
structure Table.Creates (table : Table) (key : CString) (sites : List AllocSite) (env : CallEnv)
    : Prop where
  absent : table.lookup key = none
  notFull : table.atCapacity = false
  allocated : sites.all env.alloc = true

/-- The call creates a container and then has no memory for its first node. -/
def Op.Orphans (table : Table) (env : CallEnv) : Op → Prop
  | .lpush (some key) (some value) =>
      ValidKey key ∧ ValidValue value ∧ table.Creates key [.entry, .key, .list] env
        ∧ env.allocatesNode = false
  | .sadd (some key) (some value) =>
      ValidKey key ∧ ValidValue value ∧ table.Creates key [.entry, .key, .set, .setBuckets] env
        ∧ env.allocatesNode = false
  | _ => False

/-- The call pushes to a list whose new length, cast to `int`, is negative. -/
def Op.Miscounts (table : Table) (env : CallEnv) : Op → Prop
  | .lpush (some key) (some value) =>
      ValidValue value ∧ env.allocatesNode = true
        ∧ ∃ entry links, table.lookup key = some entry ∧ entry.value = .list links
          ∧ toCInt (links.count + 1) < 0
  | _ => False

-- Finding, opening and linking without a budget and without deadlines

theorem Table.TtlFree.findEntry (ttlFree : table.TtlFree) (key : CString) (now : Int64)
    : table.findEntryUnlocked key now = (table.lookup key, table) := by
  refine Table.findEntry_of_live (fun entry found => ?_)
  simp [entryIsExpired, ttlFree entry (Table.WellFormed.mem_of_lookup found).1]

/-- Opening a container: refused with nothing changed, found, or created. -/
theorem Table.TtlFree.openContainer_cases (ttlFree : table.TtlFree) (wf : table.WellFormed)
    (unlimited : table.maxMemoryBudget = 0) (key : CString) (wanted : Payload → Bool)
    (fresh : Payload) (overhead : Nat) (sites : List AllocSite) (env : CallEnv)
    : (∃ err, table.openContainer key wanted fresh overhead sites env = (.error err, table)
          ∧ ¬ table.Creates key sites env
          ∧ ∀ entry, table.lookup key = some entry → wanted entry.value = false)
      ∨ (∃ entry, table.lookup key = some entry ∧ wanted entry.value = true
          ∧ table.openContainer key wanted fresh overhead sites env = (.ok (), table.touch key))
      ∨ table.Creates key sites env
        ∧ table.openContainer key wanted fresh overhead sites env
          = (.ok (), table.insertEntry key fresh overhead) := by
  rw [wf.openContainer_eq unlimited, ttlFree.findEntry]
  cases found : table.lookup key with
  | some entry =>
      have occupied : ¬ table.Creates key sites env :=
        fun creates => absurd (found.symm.trans creates.absent) (by simp)
      cases hasType : wanted entry.value with
      | true => exact .inr (.inl ⟨entry, rfl, hasType, by simp [hasType]⟩)
      | false =>
          refine .inl ⟨kvErrWrongType, by simp [hasType], occupied, ?_⟩
          rintro _ ⟨⟩
          exact hasType
  | none =>
      cases full : table.atCapacity with
      | true =>
          refine .inl ⟨kvErrCapacityFull, by simp [full], ?_, by rintro _ ⟨⟩⟩
          exact fun creates => absurd (full.symm.trans creates.notFull) (by decide)
      | false =>
          cases allocated : sites.all env.alloc with
          | true => exact .inr (.inr ⟨⟨found, full, allocated⟩, by simp [full]⟩)
          | false =>
              refine .inl ⟨kvErrInternal, by simp [full], ?_, by rintro _ ⟨⟩⟩
              exact fun creates => absurd (allocated.symm.trans creates.allocated) (by decide)

theorem Table.linkNode_starved (unlimited : table.maxMemoryBudget = 0)
    (starved : env.allocatesNode = false) (key : CString) (nodeOverhead : Nat)
    (link : Payload → Option (Payload × Int))
    : table.linkNode key nodeOverhead link env = (.failed kvErrInternal, table) := by
  rw [CallEnv.allocatesNode] at starved
  simp only [Table.linkNode, Table.makeRoom_of_unlimited unlimited, starved, Bool.true_eq_false,
    if_false, if_true]

theorem Table.linkNode_linked (unlimited : table.maxMemoryBudget = 0)
    (allocated : env.allocatesNode = true) {entry : Entry}
    (found : table.lookup key = some entry) {link : Payload → Option (Payload × Int)}
    {payload : Payload} {result : Int} (links : link entry.value = some (payload, result))
    (nodeOverhead : Nat)
    : table.linkNode key nodeOverhead link env
      = (.linked result, (table.setPayload key payload).charge nodeOverhead) := by
  rw [CallEnv.allocatesNode] at allocated
  simp only [Table.linkNode, Table.makeRoom_of_unlimited unlimited, allocated, found,
    Option.bind_some, links, Bool.true_eq_false, if_false]

/-- A new container changes the map. -/
theorem Table.Creates.logical_ne {sites : List AllocSite} (creates : table.Creates key sites env)
    (wf : table.WellFormed) (validKey : ValidKey key) {fresh : Payload} (valid : fresh.WellFormed)
    (overhead : Nat)
    : (table.insertEntry key fresh overhead).logical ≠ table.logical := by
  intro same
  have shown := wf.logical_lookup key
  rw [creates.absent, Option.map_none, ← same,
    (wf.insertEntry creates.absent validKey valid overhead).logical, Finmap.lookup_insert] at shown
  cases shown

-- Pushing and adding

/-- A push or an add that returns an error code has left the map as it was. -/
def Linking.Unharmed (table : Table) (linking : Linking × Table) : Prop :=
  ∀ status, linking.1.reply = some status → status < 0 → linking.2.logical = table.logical

theorem Payload.isList_iff {payload : Payload}
    : payload.isList = true ↔ ∃ links, payload = .list links := by
  cases payload <;> simp [Payload.isList]

theorem Table.WellFormed.lookup_touch (wf : table.WellFormed) {entry : Entry}
    (found : table.lookup key = some entry)
    : (table.touch key).lookup key
      = some { entry with lastAccessedTime := table.lruClock + 1 } :=
  wf.lookup_modifyEntry found _ (fun _ => rfl)

/-- A longer list changes the map. -/
theorem Table.WellFormed.pushed_logical_ne (wf : table.WellFormed) (validValue : ValidValue value)
    {entry : Entry} {links : KvList} (found : table.lookup key = some entry)
    (shown : entry.value = .list links) {nodeOverhead : Nat}
    : (((table.touch key).setPayload key (.list (links.pushFront value))).charge
        nodeOverhead).logical
      ≠ table.logical := by
  have listed := wf.value_of_lookup found
  rw [shown] at listed
  obtain ⟨pushedWf, pushed⟩ := ListWellFormed.pushFront listed validValue
  have becomes := ((wf.touch found).wellFormed.modifyEntry (wf.lookup_touch found)
    (fun entry => { entry with value := .list (links.pushFront value) }) (fun _ => rfl) rfl
    pushedWf).charge nodeOverhead
  have before := wf.logical_lookup key
  rw [found, Option.map_some, Entry.binding, shown] at before
  intro same
  rw [← same, Table.setPayload, becomes.logical, Finmap.lookup_insert, Option.some.injEq] at before
  have contents := congrArg Binding.content before
  simp [Entry.binding, Payload.content, pushed] at contents

theorem Linking.unharmed_of_logical {linking : Linking} {after : Table}
    (same : after.logical = table.logical)
    : Linking.Unharmed table (linking, after) :=
  fun _ _ _ => same

theorem Linking.unharmed_linked {result : Int} (counted : 0 ≤ result) (after : Table)
    : Linking.Unharmed table (.linked result, after) := by
  rintro status ⟨⟩ negative
  omega

theorem Linking.not_unharmed {status : Int} {linking : Linking} {after : Table}
    (reply : linking.reply = some status) (negative : status < 0)
    (changed : after.logical ≠ table.logical)
    : ¬ Linking.Unharmed table (linking, after) :=
  fun unharmed => changed (unharmed status reply negative)

theorem Table.TtlFree.lpush_unharmed_iff (ttlFree : table.TtlFree) (wf : table.WellFormed)
    (unlimited : table.maxMemoryBudget = 0) (validKey : ValidKey key)
    (validValue : ValidValue value)
    : Linking.Unharmed table (table.lpush key value env)
      ↔ ¬ (Op.lpush (some key) (some value)).Orphans table env
        ∧ ¬ (Op.lpush (some key) (some value)).Miscounts table env := by
  have validFresh : (Payload.list DList.empty).WellFormed := listWellFormed_empty
  rw [Table.lpush]
  rcases ttlFree.openContainer_cases wf unlimited key Payload.isList (.list DList.empty)
      (sizeofEntry + key.length + 1 + sizeofList) [.entry, .key, .list] env with
    ⟨err, refused, notCreated, notList⟩ | ⟨entry, found, isList, opened⟩ | ⟨creates, opened⟩
  · simp only [refused]
    refine iff_of_true (Linking.unharmed_of_logical rfl) ⟨fun orphans => ?_, fun miscounts => ?_⟩
    · exact notCreated orphans.2.2.1
    · obtain ⟨_, _, entry, links, found, shown, _⟩ := miscounts
      exact absurd (notList entry found) (by simp [shown, Payload.isList])
  · simp only [opened]
    have touched := wf.touch found
    have room := touched.maxMemoryBudget.trans unlimited
    have notCreated : ¬ (Op.lpush (some key) (some value)).Orphans table env :=
      fun orphans => absurd (found.symm.trans orphans.2.2.1.absent) (by simp)
    cases allocated : env.allocatesNode with
    | false =>
        rw [Table.linkNode_starved room allocated]
        refine iff_of_true (Linking.unharmed_of_logical touched.logical) ⟨notCreated, ?_⟩
        exact fun miscounts => absurd (allocated.symm.trans miscounts.2.1) (by decide)
    | true =>
        obtain ⟨links, shown⟩ := Payload.isList_iff.mp isList
        have linked := Table.linkNode_linked room allocated (wf.lookup_touch found)
          (show pushFrontPayload value entry.value = some (.list (links.pushFront value), _) by
            rw [shown]; rfl) (sizeofListNode + value.length + 1)
        rw [linked]
        by_cases negative : toCInt (links.count + 1) < 0
        · refine iff_of_false (Linking.not_unharmed rfl negative ?_) (fun sane => ?_)
          · exact wf.pushed_logical_ne validValue found shown
          · exact sane.2 ⟨validValue, allocated, entry, links, found, shown, negative⟩
        · refine iff_of_true (Linking.unharmed_linked (not_lt.mp negative) _) ⟨notCreated, ?_⟩
          rintro ⟨_, _, other, others, same, listed, below⟩
          obtain rfl := Option.some.inj (found.symm.trans same)
          obtain rfl := Payload.list.inj (shown.symm.trans listed)
          exact negative below
  · simp only [opened]
    have inserted := wf.insertEntry creates.absent validKey validFresh
      (sizeofEntry + key.length + 1 + sizeofList)
    have room := inserted.maxMemoryBudget.trans unlimited
    have notFound : ¬ (Op.lpush (some key) (some value)).Miscounts table env := by
      rintro ⟨_, _, entry, _, found, _⟩
      exact absurd (creates.absent.symm.trans found) (by simp)
    cases allocated : env.allocatesNode with
    | false =>
        rw [Table.linkNode_starved room allocated]
        refine iff_of_false (Linking.not_unharmed rfl (by decide) ?_) (fun sane => ?_)
        · exact creates.logical_ne wf validKey validFresh _
        · exact sane.1 ⟨validKey, validValue, creates, allocated⟩
    | true =>
        rw [Table.linkNode_linked room allocated
          (wf.lookup_insertEntry creates.absent validKey validFresh _) rfl]
        have counted : 0 ≤ toCInt (DList.empty.pushFront value).count :=
          show 0 ≤ toCInt 1 by decide
        refine iff_of_true (Linking.unharmed_linked counted _) ⟨fun orphans => ?_, notFound⟩
        exact absurd (allocated.symm.trans orphans.2.2.2) (by decide)

theorem Table.TtlFree.sadd_unharmed_iff (ttlFree : table.TtlFree) (wf : table.WellFormed)
    (unlimited : table.maxMemoryBudget = 0) (validKey : ValidKey key)
    (validValue : ValidValue value)
    : Linking.Unharmed table (table.sadd key value env)
      ↔ ¬ (Op.sadd (some key) (some value)).Orphans table env := by
  have validFresh : (Payload.set KvSet.empty).WellFormed := setWellFormed_empty
  rw [Table.sadd]
  rcases ttlFree.openContainer_cases wf unlimited key Payload.isSet (.set KvSet.empty)
      (sizeofEntry + key.length + 1 + sizeofSet + initialSetBuckets * sizeofPointer)
      [.entry, .key, .set, .setBuckets] env with
    ⟨err, refused, notCreated, _⟩ | ⟨entry, found, isSet, opened⟩ | ⟨creates, opened⟩
  · simp only [refused]
    exact iff_of_true (Linking.unharmed_of_logical rfl)
      (fun orphans => notCreated orphans.2.2.1)
  · have touched := wf.touch found
    have room := touched.maxMemoryBudget.trans unlimited
    have there := wf.lookup_touch found
    have notCreated : ¬ (Op.sadd (some key) (some value)).Orphans table env :=
      fun orphans => absurd (found.symm.trans orphans.2.2.1.absent) (by simp)
    obtain ⟨entryKey, payload, deadline, time⟩ := entry
    obtain ⟨chains, rfl⟩ : ∃ chains, payload = .set chains := Payload.exists_of_isSet isSet
    simp only [opened, there]
    refine iff_of_true ?_ notCreated
    split
    · exact Linking.unharmed_of_logical touched.logical
    · cases allocated : env.allocatesNode with
      | false =>
          rw [Table.linkNode_starved room allocated]
          exact Linking.unharmed_of_logical touched.logical
      | true =>
          rw [Table.linkNode_linked room allocated there rfl]
          exact Linking.unharmed_linked (by decide) _
  · have inserted := wf.insertEntry creates.absent validKey validFresh
      (sizeofEntry + key.length + 1 + sizeofSet + initialSetBuckets * sizeofPointer)
    have room := inserted.maxMemoryBudget.trans unlimited
    have there := wf.lookup_insertEntry creates.absent validKey validFresh
      (sizeofEntry + key.length + 1 + sizeofSet + initialSetBuckets * sizeofPointer)
    have absent : KvSet.empty.contains value = false := by
      rw [Bool.eq_false_iff, ne_eq, setWellFormed_empty.contains_iff, members_empty]
      exact List.not_mem_nil
    simp only [opened, there, absent, Bool.false_eq_true, if_false]
    cases allocated : env.allocatesNode with
    | false =>
        rw [Table.linkNode_starved room allocated]
        refine iff_of_false (Linking.not_unharmed rfl (by decide) ?_) (fun sane => ?_)
        · exact creates.logical_ne wf validKey validFresh _
        · exact sane ⟨validKey, validValue, creates, allocated⟩
    | true =>
        rw [Table.linkNode_linked room allocated there rfl]
        refine iff_of_true (Linking.unharmed_linked (by decide) _) (fun orphans => ?_)
        exact absurd (allocated.symm.trans orphans.2.2.2) (by decide)

-- The operations

theorem kvSetInternal_failed_table (unlimited : store.table.maxMemoryBudget = 0)
    {key value : Option CString} (failed : (kvSetInternal store key value env).1 ≠ kvOk)
    : (kvSetInternal store key value env).2.table = store.table := by
  simp only [kvSetInternal] at failed ⊢
  split at failed
  · rfl
  · next checkedKey =>
      split at failed
      · rfl
      · next checkedValue =>
          split_ifs at failed with stored
          · exact absurd rfl failed
          · simp only [if_neg stored]
            rcases Table.storeString_unlimited unlimited _ _ env 0 with ⟨_, worked⟩ | ⟨_, same⟩
            · exact absurd worked stored
            · exact same

/-- A failed `kv_set` may have doubled the bucket array, and has done nothing else. -/
theorem kvSet_failed_logical (sound : store.Sound) {key value : Option CString}
    (failed : (kvSet store key value env).1 ≠ kvOk)
    : (kvSet store key value env).2.table.logical = store.table.logical := by
  have grown := sound.wellFormed.growIfLoaded env
  have room := grown.maxMemoryBudget.trans sound.unlimited
  simp only [kvSet] at failed ⊢
  split at failed
  · rfl
  · split at failed
    · rfl
    · split_ifs at failed ⊢ with closed notLogged notApplied
      · rw [@kvSetInternal_failed_table { store with table := store.table.growIfLoaded env } env
          room key value failed]
        exact grown.logical
      · exact grown.logical
      · rw [@kvSetInternal_failed_table ⟨store.table.growIfLoaded env, _⟩ env room key value
          notApplied]
        exact grown.logical
      · exact absurd failed notApplied

theorem kvDeleteInternal_failed_table {key : Option CString} {nth : Nat}
    (failed : (kvDeleteInternal store key env nth).1 ≠ kvOk)
    : (kvDeleteInternal store key env nth).2.table = store.table := by
  simp only [kvDeleteInternal] at failed ⊢
  split at failed
  · rfl
  · split at failed
    · rfl
    · exact absurd rfl failed

theorem kvDelete_failed_table {key : Option CString} (failed : (kvDelete store key env).1 ≠ kvOk)
    : (kvDelete store key env).2.table = store.table := by
  simp only [kvDelete] at failed ⊢
  split at failed
  · rfl
  · split_ifs at failed ⊢ with closed notLogged notApplied
    · exact kvDeleteInternal_failed_table failed
    · rfl
    · exact kvDeleteInternal_failed_table notApplied
    · exact absurd failed notApplied

theorem kvRpop_failed_table (ttlFree : store.table.TtlFree) {key : Option CString}
    (failed : (kvRpop store key env).1.1 ≠ kvOk)
    : (kvRpop store key env).2.table = store.table := by
  simp only [kvRpop] at failed ⊢
  cases key with
  | none => rfl
  | some key =>
      simp only [ttlFree.findEntry] at failed ⊢
      split at failed
      · rfl
      · split at failed
        · split at failed
          · rfl
          · split_ifs at failed ⊢ <;> first | rfl | exact absurd rfl failed
        · rfl

theorem kvSrem_failed_table (ttlFree : store.table.TtlFree) {key value : Option CString}
    (failed : (kvSrem store key value env).1 < 0)
    : (kvSrem store key value env).2.table = store.table := by
  cases key with
  | none => rfl
  | some key =>
      cases value with
      | none => rfl
      | some value =>
          simp only [kvSrem, ttlFree.findEntry] at failed ⊢
          split at failed
          · rfl
          · split at failed
            · split_ifs at failed ⊢ <;>
                first | rfl | exact absurd failed (show ¬ (1 : Int) < 0 by decide)
            · rfl

/-- The reply of a push or an add is an error code exactly when its status is negative. -/
theorem unharmed_iff {op : Op}
    (counts : ∀ status, op.reportsError (.status status) = decide (status < 0))
    (undefined : op.reportsError .undefined = false) (linking : Linking × Table)
    : (op.reportsError (.ofResult linking.1.reply) = true → linking.2.logical = table.logical)
      ↔ Linking.Unharmed table linking := by
  rw [Linking.Unharmed]
  cases linking.1.reply with
  | none => simp [Reply.ofResult, undefined]
  | some status => simp [Reply.ofResult, counts]

/-- A call that changes values and returns an error code leaves the map as it was, unless it
orphans a container or miscounts.
-/
theorem Op.failed_logical_iff (sound : store.Sound) (ttlFree : store.table.TtlFree)
    (env : CallEnv) {op : Op} (changes : op.changesValues = true)
    : (op.reportsError (op.call env store).1 = true →
        (op.call env store).2.table.logical = store.table.logical)
      ↔ ¬ op.Orphans store.table env ∧ ¬ op.Miscounts store.table env := by
  have wf := sound.wellFormed
  cases op with
  | set key value =>
      refine iff_of_true (fun failed => ?_) ⟨not_false, not_false⟩
      exact kvSet_failed_logical sound (of_decide_eq_true failed)
  | delete key =>
      refine iff_of_true (fun failed => ?_) ⟨not_false, not_false⟩
      exact congrArg Table.logical (kvDelete_failed_table (of_decide_eq_true failed))
  | rpop key =>
      refine iff_of_true (fun failed => ?_) ⟨not_false, not_false⟩
      exact congrArg Table.logical (kvRpop_failed_table ttlFree (of_decide_eq_true failed))
  | srem key value =>
      refine iff_of_true (fun failed => ?_) ⟨not_false, not_false⟩
      exact congrArg Table.logical (kvSrem_failed_table ttlFree (of_decide_eq_true failed))
  | lpush key value =>
      cases key with
      | none => exact iff_of_true (fun _ => rfl) ⟨not_false, not_false⟩
      | some key =>
          cases value with
          | none => exact iff_of_true (fun _ => rfl) ⟨not_false, not_false⟩
          | some value =>
              simp only [Op.call, Prod.map, id_eq]
              rcases kvLpush_eq store key value env with
                ⟨err, _, invalid, refused⟩ | ⟨validKey, validValue, reply, after⟩
              · rw [refused]
                refine iff_of_true (fun _ => rfl) ⟨fun orphans => ?_, fun miscounts => ?_⟩
                · exact invalid ⟨orphans.1, orphans.2.1⟩
                · obtain ⟨validValue, _, entry, _, found, _⟩ := miscounts
                  exact invalid ⟨wf.key_of_lookup found, validValue⟩
              · rw [reply, after, unharmed_iff (fun _ => rfl) rfl]
                exact ttlFree.lpush_unharmed_iff wf sound.unlimited validKey validValue
  | sadd key value =>
      cases key with
      | none => exact iff_of_true (fun _ => rfl) ⟨not_false, not_false⟩
      | some key =>
          cases value with
          | none => exact iff_of_true (fun _ => rfl) ⟨not_false, not_false⟩
          | some value =>
              simp only [Op.call, Prod.map, id_eq]
              rcases kvSadd_eq store key value env with
                ⟨err, _, invalid, refused⟩ | ⟨validKey, validValue, reply, after⟩
              · rw [refused]
                exact iff_of_true (fun _ => rfl)
                  ⟨fun orphans => invalid ⟨orphans.1, orphans.2.1⟩, not_false⟩
              · rw [reply, after, unharmed_iff (fun _ => rfl) rfl,
                  ttlFree.sadd_unharmed_iff wf sound.unlimited validKey validValue]
                exact (and_iff_left not_false).symm
  | _ => contradiction

/-- On a store without deadlines and without a memory budget, a failed call leaves the map and the
number of keys as they were, whatever allocation or write failed, exactly when it does not run out
of memory between creating a container and its first node, and no list length is negative as an
`int`.
-/
theorem failed_mutation_unchanged_iff (sound : store.Sound) (ttlFree : store.table.TtlFree)
    (env : CallEnv) {op : Op} (changes : op.changesValues = true)
    : (op.reportsError (op.call env store).1 = true →
        (op.call env store).2.table.logical = store.table.logical
          ∧ (op.call env store).2.table.size = store.table.size)
      ↔ ¬ op.Orphans store.table env ∧ ¬ op.Miscounts store.table env := by
  rw [← op.failed_logical_iff sound ttlFree env changes]
  have kept := (op.call_path env sound.wellFormed).keeps sound.wellFormed
  refine ⟨fun unchanged failed => (unchanged failed).1, fun unchanged failed => ?_⟩
  have same := unchanged failed
  exact ⟨same, by rw [← kept.wellFormed.card_keys, same, sound.wellFormed.card_keys]⟩

/-- A `kv_set` that has no memory for the value. -/
theorem failed_mutation_unchanged_iff_set
    : let store := Store.fresh 1 0 0 7 []
      let env : CallEnv := { CallEnv.at 0 with alloc := fun site => site ≠ .value }
      let op : Op := .set (some ⟨[107], by decide⟩) (some ⟨[97], by decide⟩)
      (op.call env store).1 = .status kvErrInternal
        ∧ (op.call env store).2.table.logical = store.table.logical
        ∧ (op.call env store).2.table.size = store.table.size := by
  refine ⟨by decide +kernel, ?_⟩
  refine (failed_mutation_unchanged_iff ⟨Store.fresh_wellFormed (by decide) _ _ _ _, rfl⟩ ?_ _
    rfl).mpr ⟨not_false, not_false⟩ (by decide +kernel)
  intro entry member
  exact absurd member (by simp [Table.entries, Store.fresh])

/-- A push to a new key that has memory for the entry and the list but not for the node returns
`KV_ERR_INTERNAL` and leaves an empty list behind.
-/
theorem failed_push_leaves_empty_list
    : let store := Store.fresh 1 0 0 7 []
      let env : CallEnv := { CallEnv.at 0 with alloc := fun site => site ≠ .node }
      let op : Op := .lpush (some ⟨[107], by decide⟩) (some ⟨[97], by decide⟩)
      (op.call env store).1 = .status kvErrInternal
        ∧ store.table.logical.lookup ⟨[107], by decide⟩ = none
        ∧ (op.call env store).2.table.logical.lookup ⟨[107], by decide⟩ = some ⟨.list [], 0⟩
        ∧ store.table.size = 0
        ∧ (op.call env store).2.table.size = 1 := by
  refine ⟨?_, ?_, ?_, ?_, ?_⟩ <;> decide +kernel

end MiniKv
