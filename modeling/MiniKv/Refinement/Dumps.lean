import MiniKv.Invariants.WellFormed
import MiniKv.Semantics.Occupied

/-! The records of a dump. Applied to a map without the entry's key, the records of an entry
bind it: pushes from the tail rebuild the list, adds in any order the set.
-/

namespace MiniKv

open MiniKv.Foundations.FiniteMaps

variable {map : LogicalMap} {key : CString}

/-- A binding without a deadline survives a lookup. -/
theorem LogicalMap.expire_of_persistent {content : Content} (now : Int64)
    (found : map.lookup key = some ⟨content, 0⟩)
    : LogicalMap.expire map now key = map :=
  LogicalMap.expire_of_live found (Binding.isExpired_of_deadline (.inl rfl))

/-- Pushing onto a list that is there, by induction on the values. -/
theorem applyRecords_lpush_onto {items : List CString} (now : Int64) (values : List CString)
    (found : map.lookup key = some ⟨.list items, 0⟩)
    : applyRecords 0 now (values.map (Record.lpush key)) map
      = map.insert key ⟨.list (values.reverse ++ items), 0⟩ := by
  induction values generalizing map items with
  | nil => exact (insert_of_lookup_some found).symm
  | cons value rest ih =>
      have pushed : (Record.lpush key value).apply 0 now map
          = map.insert key ⟨.list (value :: items), 0⟩ := by
        simp only [Record.apply, LogicalMap.lpush, LogicalMap.expire_of_persistent now found, found]
        rfl
      rw [List.map_cons, applyRecords_cons, pushed, ih (Finmap.lookup_insert _),
        Finmap.insert_insert, List.reverse_cons, List.append_assoc, List.singleton_append]

/-- Pushing values under a key that is not bound creates their list. -/
theorem applyRecords_lpush (now : Int64) {values : List CString} (some : values ≠ [])
    (unbound : map.lookup key = none)
    : applyRecords 0 now (values.map (Record.lpush key)) map
      = map.insert key ⟨.list values.reverse, 0⟩ := by
  cases values with
  | nil => contradiction
  | cons value rest =>
      have created : (Record.lpush key value).apply 0 now map
          = map.insert key ⟨.list [value], 0⟩ := by
        simp only [Record.apply, LogicalMap.lpush, LogicalMap.expire_of_lookup_none now unbound,
          unbound, LogicalMap.full_zero, Bool.false_eq_true, if_false]
        rfl
      rw [List.map_cons, applyRecords_cons, created,
        applyRecords_lpush_onto now rest (Finmap.lookup_insert _), Finmap.insert_insert,
        List.reverse_cons]

/-- Adding to a set that is there, by induction on the values. -/
theorem applyRecords_sadd_onto {members : Finset CString} (now : Int64) (values : List CString)
    (found : map.lookup key = some ⟨.set members, 0⟩)
    : applyRecords 0 now (values.map (Record.sadd key)) map
      = map.insert key ⟨.set (members ∪ values.toFinset), 0⟩ := by
  induction values generalizing map members with
  | nil =>
      rw [List.toFinset_nil, Finset.union_empty]
      exact (insert_of_lookup_some found).symm
  | cons value rest ih =>
      have live := LogicalMap.expire_of_persistent now found
      rw [List.map_cons, applyRecords_cons]
      by_cases present : value ∈ members
      · have kept : (Record.sadd key value).apply 0 now map = map := by
          simp only [Record.apply, LogicalMap.sadd, live, found, present, if_true]
          rfl
        rw [kept, ih found, List.toFinset_cons, Finset.union_insert,
          Finset.insert_eq_of_mem (Finset.mem_union_left _ present)]
      · have added : (Record.sadd key value).apply 0 now map
            = map.insert key ⟨.set (insert value members), 0⟩ := by
          simp only [Record.apply, LogicalMap.sadd, live, found, present, if_false]
          rfl
        rw [added, ih (Finmap.lookup_insert _), Finmap.insert_insert, List.toFinset_cons,
          Finset.insert_union, Finset.union_insert]

/-- Adding values under a key that is not bound creates their set. -/
theorem applyRecords_sadd (now : Int64) {values : List CString} (some : values ≠ [])
    (unbound : map.lookup key = none)
    : applyRecords 0 now (values.map (Record.sadd key)) map
      = map.insert key ⟨.set values.toFinset, 0⟩ := by
  cases values with
  | nil => contradiction
  | cons value rest =>
      have created : (Record.sadd key value).apply 0 now map
          = map.insert key ⟨.set {value}, 0⟩ := by
        simp only [Record.apply, LogicalMap.sadd, LogicalMap.expire_of_lookup_none now unbound,
          unbound, LogicalMap.full_zero, Bool.false_eq_true, if_false]
        rfl
      rw [List.map_cons, applyRecords_cons, created,
        applyRecords_sadd_onto now rest (Finmap.lookup_insert _), Finmap.insert_insert,
        List.toFinset_cons, Finset.insert_eq]

theorem apply_set_new (now : Int64) (value : CString) (unbound : map.lookup key = none)
    : (Record.set key value).apply 0 now map = map.insert key ⟨.string value, 0⟩ := by
  simp only [Record.apply, LogicalMap.set, unbound, LogicalMap.full_zero, Bool.false_eq_true,
    if_false]
  rfl

/-- The records that rebuild the value of an entry, without its deadline. -/
def Entry.valueRecords (entry : Entry) : List Record :=
  match entry.value with
  | .string value => [.set entry.key value]
  | .list list => list.toListBackward.map (Record.lpush entry.key)
  | .set set => set.members.map (Record.sadd entry.key)

/-- An entry that records can rebuild: no empty container, no negative deadline. -/
structure Entry.Dumpable (entry : Entry) : Prop where
  wellFormed : entry.WellFormed
  occupied : entry.binding.content.Occupied
  deadline : entry.expireAtMs = 0 ∨ 0 < entry.expireAtMs

theorem Entry.Dumpable.values_ne_nil {entry : Entry} (dumpable : entry.Dumpable)
    : entry.value.values ≠ [] := by
  obtain ⟨⟨_, valid⟩, occupied, _⟩ := dumpable
  obtain ⟨key, payload, expireAtMs, time⟩ := entry
  intro empty
  cases payload with
  | string value => exact List.cons_ne_nil _ _ empty
  | list links =>
      rw [Payload.values, (ListWellFormed.links valid).toListBackward_eq] at empty
      exact occupied (List.reverse_eq_nil_iff.mp empty)
  | set chains => exact occupied ((List.toFinset_eq_empty_iff chains.members).mpr empty)

theorem Entry.Dumpable.applyRecords_value {entry : Entry} (dumpable : entry.Dumpable)
    (now : Int64) (unbound : map.lookup entry.key = none)
    : applyRecords 0 now entry.valueRecords map
      = map.insert entry.key ⟨entry.value.content, 0⟩ := by
  have some := dumpable.values_ne_nil
  obtain ⟨⟨_, valid⟩, _, _⟩ := dumpable
  obtain ⟨key, payload, expireAtMs, time⟩ := entry
  cases payload with
  | string value => exact apply_set_new now value unbound
  | list links =>
      have pushed := applyRecords_lpush now some unbound
      rwa [Payload.values, (ListWellFormed.links valid).toListBackward_eq,
        List.reverse_reverse, ← (ListWellFormed.links valid).toListBackward_eq] at pushed
  | set chains => exact applyRecords_sadd now some unbound

theorem Table.WellFormed.dumpable {table : Table} (wf : table.WellFormed)
    (occupied : table.logical.Occupied)
    (deadlines : Each (fun binding => binding.expireAt = 0 ∨ 0 < binding.expireAt) table.logical)
    : ∀ entry ∈ table.entries, entry.Dumpable := by
  intro entry member
  have bound := wf.logical_of_mem member
  exact ⟨wf.entries entry member, occupied _ _ bound, deadlines _ _ bound⟩

/-- The records of an entry bind it. -/
theorem Entry.Dumpable.applyRecords_dump {entry : Entry} (dumpable : entry.Dumpable)
    (now : Int64) (unbound : map.lookup entry.key = none)
    : applyRecords 0 now entry.dump map = map.insert entry.key entry.binding := by
  have whole : entry.dump = entry.valueRecords
      ++ (if 0 < entry.expireAtMs then [.pexpireat entry.key entry.expireAtMs] else []) := by
    obtain ⟨key, payload, expireAtMs, time⟩ := entry
    cases payload <;> rfl
  rw [whole, applyRecords_append, dumpable.applyRecords_value now unbound]
  rcases dumpable.deadline with none | positive
  · rw [none, if_neg (by decide)]
    simp only [applyRecords_nil, Entry.binding, none]
  · rw [if_pos positive]
    simp only [applyRecords_cons, applyRecords_nil, Record.apply, LogicalMap.setDeadline,
      Finmap.lookup_insert, Finmap.insert_insert]
    rfl

/-- The records of entries with distinct keys bind them all, by induction on the entries. -/
theorem applyRecords_dumps (now : Int64) {entries : List Entry}
    (dumpable : ∀ entry ∈ entries, entry.Dumpable) (distinct : (entries.map Entry.key).Nodup)
    (unbound : ∀ entry ∈ entries, map.lookup entry.key = none)
    : applyRecords 0 now (entries.flatMap Entry.dump) map
      = entries.foldl (fun map entry => map.insert entry.key entry.binding) map := by
  induction entries generalizing map with
  | nil => rfl
  | cons entry rest ih =>
      rw [List.map_cons, List.nodup_cons] at distinct
      have first := (dumpable entry List.mem_cons_self).applyRecords_dump now
        (unbound entry List.mem_cons_self)
      rw [List.flatMap_cons, applyRecords_append, first, List.foldl_cons]
      refine ih (fun other member => dumpable other (List.mem_cons_of_mem _ member)) distinct.2 ?_
      intro other member
      have different : other.key ≠ entry.key :=
        fun same => distinct.1 (same ▸ List.mem_map_of_mem member)
      rw [Finmap.lookup_insert_of_ne _ different]
      exact unbound other (List.mem_cons_of_mem _ member)

/-- The records of an entry carry its values. -/
theorem Entry.WellFormed.dump_carries {entry : Entry} (wf : entry.WellFormed)
    {property : CString → Prop} (all : entry.binding.content.All property)
    : ∀ record ∈ entry.dump, record.Carries property := by
  intro record member
  obtain ⟨validKey, valid⟩ := wf
  obtain ⟨key, payload, expireAtMs, time⟩ := entry
  rw [Entry.dump] at member
  rcases List.mem_append.mp member with ofValue | ofDeadline
  · cases payload with
    | string value =>
        obtain rfl := List.mem_singleton.mp ofValue
        exact Record.carries_value rfl validKey valid all
    | list links =>
        obtain ⟨value, held, rfl⟩ := List.mem_map.mp ofValue
        have inside : value ∈ links.toList := by
          rw [(ListWellFormed.links valid).toListBackward_eq] at held
          exact List.mem_reverse.mp held
        exact Record.carries_value rfl validKey (ListWellFormed.bounded valid value inside)
          (all value inside)
    | set chains =>
        obtain ⟨value, held, rfl⟩ := List.mem_map.mp ofValue
        exact Record.carries_value rfl validKey (KvSet.WellFormed.bounded valid value held)
          (all value (List.mem_toFinset.mpr held))
  · split at ofDeadline
    · obtain rfl := List.mem_singleton.mp ofDeadline
      exact Record.carries_key _ rfl validKey
    · simp at ofDeadline

end MiniKv
