import MiniKv.Invariants.Footprints
import MiniKv.Invariants.Removals

/-! What the operations are made of: the primitive changes of the table, each under the tests the
code makes before it. Every operation is a path of such changes, and what each change keeps is
kept along the path.
-/

namespace MiniKv

open MiniKv.Foundations.ChainedTable

/-- The budget, if there is one, has room for that many more bytes. -/
def Table.Fits (table : Table) (bytes : Nat) : Prop :=
  0 < table.maxMemoryBudget → table.allocatedBytes + bytes ≤ table.maxMemoryBudget

/-- A new value that owns so many bytes more than the old one. -/
structure Payload.Grows (stored : List CString) (old new : Payload) (bytes : Nat) : Prop where
  valid : new.WellFormed
  sized : old.Sized → new.Sized
  exact : new.footprint = old.footprint + bytes
  values : new.values ⊆ old.values ++ stored

/-- (Change stored before refunded after) is one primitive change, in which `allocated_bytes` is
asked to go down by `refunded` bytes and no values are stored but the given ones.
-/
inductive Table.Change (stored : List CString) : Table → Nat → Table → Prop where
  | draw (table : Table) (prng : UInt32) : Change stored table 0 { table with prng }
  | free {table : Table} {cursor : Cursor Entry} {index : Nat}
      (prev : cursor.prev = trailing cursor.pos)
      (here : (bucket table.buckets index)[cursor.pos]? = some cursor.item)
      : Change stored table cursor.item.freedBytes (table.expireAndDeleteUnlocked cursor index)
  | access {table : Table} {key : CString} {entry : Entry}
      (found : table.lookup key = some entry)
      : Change stored table 0 (table.touch key)
  | deadline {table : Table} {key : CString} {entry : Entry}
      (found : table.lookup key = some entry) (expireAtMs : Int64)
      : Change stored table 0 (table.modifyEntry key (fun entry => { entry with expireAtMs }))
  | insert {table : Table} {key : CString} {value : Payload} {bytes : Nat}
      (absent : table.lookup key = none) (validKey : ValidKey key) (valid : value.WellFormed)
      (sized : value.Sized) (exact : bytes = sizeofEntry + (key.length + 1) + value.footprint)
      (values : value.values ⊆ stored) (notFull : table.atCapacity = false)
      (fits : table.Fits bytes)
      : Change stored table 0 (table.insertEntry key value bytes)
  | grow {table : Table} {key : CString} {entry : Entry} {value : Payload} {bytes : Nat}
      (found : table.lookup key = some entry) (grows : entry.value.Grows stored value bytes)
      (fits : table.Fits bytes)
      : Change stored table 0 ((table.setPayload key value).charge bytes)
  | shrink {table : Table} {key : CString} {entry : Entry} {value : Payload} {bytes : Nat}
      (found : table.lookup key = some entry) (valid : value.WellFormed)
      (sized : entry.value.Sized → value.Sized)
      (exact : entry.value.footprint = value.footprint + bytes)
      (values : value.values ⊆ entry.value.values ++ stored)
      : Change stored table bytes ((table.setPayload key value).refund bytes)
  | resize {table : Table} {count : Nat} (positive : 0 < count)
      (fits : table.Fits (count * sizeofPointer))
      : Change stored table (table.bucketCount * sizeofPointer)
          (Table.refund
            { table.charge (count * sizeofPointer) with
              buckets := rehash Entry.key hashKey table.buckets count }
            (table.bucketCount * sizeofPointer))

/-- Primitive changes, one after the other. -/
def Table.Path : Table → Table → Prop :=
  Relation.ReflTransGen (fun before after =>
    ∃ stored refunded, Table.Change stored before refunded after)

/-- A path that stores no values but the given ones. -/
def Table.Stores (stored : List CString) : Table → Table → Prop :=
  Relation.ReflTransGen (fun before after => ∃ refunded, Table.Change stored before refunded after)

variable {table after : Table} {stored : List CString}

theorem Table.Path.refl (table : Table) : table.Path table :=
  Relation.ReflTransGen.refl

theorem Table.Path.trans {first second third : Table} (early : first.Path second)
    (late : second.Path third)
    : first.Path third :=
  Relation.ReflTransGen.trans early late

theorem Table.Change.of_nil {refunded : Nat} (change : Table.Change [] table refunded after)
    : Table.Change stored table refunded after := by
  have widens : ∀ {old new : List CString}, new ⊆ old ++ [] → new ⊆ old ++ stored := by
    intro old new values
    rw [List.append_nil] at values
    exact List.subset_append_of_subset_left stored values
  cases change with
  | draw prng => exact .draw _ prng
  | free prev here => exact .free prev here
  | access found => exact .access found
  | deadline found expireAtMs => exact .deadline found expireAtMs
  | insert absent validKey valid sized exact values notFull fits =>
      have none := List.subset_nil.mp values
      exact .insert absent validKey valid sized exact (none ▸ List.nil_subset _) notFull fits
  | grow found grows fits =>
      obtain ⟨valid, sized, exact, values⟩ := grows
      exact .grow found ⟨valid, sized, exact, widens values⟩ fits
  | shrink found valid sized exact values =>
      exact .shrink found valid sized exact (widens values)
  | resize positive fits => exact .resize positive fits

namespace Table.Stores

theorem refl (stored : List CString) (table : Table) : table.Stores stored table :=
  Relation.ReflTransGen.refl

theorem trans {first second third : Table} (early : first.Stores stored second)
    (late : second.Stores stored third)
    : first.Stores stored third :=
  Relation.ReflTransGen.trans early late

theorem of_change {refunded : Nat} (change : Table.Change stored table refunded after)
    : table.Stores stored after :=
  Relation.ReflTransGen.single ⟨refunded, change⟩

theorem of_nil (stores : table.Stores [] after) : table.Stores stored after := by
  induction stores with
  | refl => exact .refl stored table
  | tail _ last ih => exact ih.tail ⟨last.choose, last.choose_spec.of_nil⟩

theorem path (stores : table.Stores stored after) : table.Path after := by
  induction stores with
  | refl => exact .refl table
  | tail _ last ih => exact Relation.ReflTransGen.tail ih ⟨stored, last⟩

end Table.Stores

-- The representation invariant

/-- A change that keeps the invariant and the limits, whatever it does to the map. -/
def Table.Keeps (before after : Table) : Prop :=
  before.Becomes after after.logical

theorem Table.Becomes.keeps {before after : Table} {map : LogicalMap}
    (becomes : before.Becomes after map)
    : before.Keeps after :=
  ⟨becomes.wellFormed, rfl, becomes.maxCapacity, becomes.maxMemoryBudget⟩

theorem Table.Keeps.refl (wf : table.WellFormed) : table.Keeps table :=
  Table.Becomes.refl wf

theorem Table.Keeps.trans {first second third : Table} (early : first.Keeps second)
    (late : second.Keeps third)
    : first.Keeps third :=
  Table.Becomes.trans early late

theorem Table.Change.keeps {refunded : Nat} (change : Table.Change stored table refunded after)
    (wf : table.WellFormed)
    : table.Keeps after := by
  cases change with
  | draw prng => exact ⟨wf.congr rfl rfl rfl, rfl, rfl, rfl⟩
  | free prev here => exact (wf.expireAndDelete prev here).1.keeps
  | access found => exact (wf.touch found).keeps
  | @deadline key entry found expireAtMs =>
      exact (wf.modifyEntry found (fun entry => { entry with expireAtMs }) (fun _ => rfl) rfl
        (wf.entries entry (Table.WellFormed.mem_of_lookup found).1).value).keeps
  | insert absent validKey valid => exact (wf.insertEntry absent validKey valid _).keeps
  | @grow key entry value bytes found grows =>
      exact ((wf.modifyEntry found (fun entry => { entry with value }) (fun _ => rfl) rfl
        grows.valid).charge bytes).keeps
  | @shrink key entry value bytes found valid =>
      exact ((wf.modifyEntry found (fun entry => { entry with value }) (fun _ => rfl) rfl
        valid).refund _).keeps
  | resize positive => exact (wf.rehashed positive).1.keeps

/-- What every change keeps of a well-formed table is kept along a path, by induction on its
length.
-/
theorem Table.Path.preserves (path : table.Path after) (Property : Table → Prop)
    (step : ∀ {before next : Table} {stored : List CString} {refunded : Nat},
      before.WellFormed → Property before → Table.Change stored before refunded next →
        Property next)
    (wf : table.WellFormed) (holds : Property table)
    : Property after ∧ table.Keeps after := by
  induction path with
  | refl => exact ⟨holds, .refl wf⟩
  | tail _ last ih =>
      obtain ⟨stored, refunded, change⟩ := last
      exact ⟨step ih.2.wellFormed ih.1 change, ih.2.trans (change.keeps ih.2.wellFormed)⟩

theorem Table.Path.keeps (path : table.Path after) (wf : table.WellFormed)
    : table.Keeps after :=
  (path.preserves (fun _ => True) (fun _ _ _ => trivial) wf trivial).2

theorem Table.Stores.keeps (stores : table.Stores stored after) (wf : table.WellFormed)
    : table.Keeps after :=
  stores.path.keeps wf

-- The functions the operations share

/-- (Adds count before after) says that the array is the old one, with at most `count` entries more
in it than before.
-/
structure Table.Adds (count : Nat) (before after : Table) : Prop where
  bucketCount : after.bucketCount = before.bucketCount
  size : after.size ≤ before.size + count
  autoResize : after.autoResize = before.autoResize

theorem Table.Adds.refl (table : Table) : Table.Adds 0 table table :=
  ⟨rfl, le_rfl, rfl⟩

theorem Table.Adds.trans {first second third : Table} {few more : Nat}
    (early : Table.Adds few first second) (late : Table.Adds more second third)
    : Table.Adds (few + more) first third where
  bucketCount := late.bucketCount.trans early.bucketCount
  size := by
    have first := early.size
    have second := late.size
    omega
  autoResize := late.autoResize.trans early.autoResize

/-- Primitive changes that insert nothing and leave the array in place, one after the other. -/
def Table.QuietPath : Table → Table → Prop :=
  Relation.ReflTransGen (fun before after =>
    (∃ refunded, Table.Change [] before refunded after) ∧ Table.Adds 0 before after)

namespace Table.QuietPath

theorem refl (table : Table) : table.QuietPath table :=
  Relation.ReflTransGen.refl

theorem trans {first second third : Table} (early : first.QuietPath second)
    (late : second.QuietPath third)
    : first.QuietPath third :=
  Relation.ReflTransGen.trans early late

theorem stores (quiet : table.QuietPath after) : table.Stores stored after := by
  induction quiet with
  | refl => exact .refl stored table
  | tail _ last ih => exact ih.trans (.of_nil (.single last.1))

theorem path (quiet : table.QuietPath after) : table.Path after :=
  (@stores _ _ [] quiet).path

theorem adds (quiet : table.QuietPath after) : Table.Adds 0 table after := by
  induction quiet with
  | refl => exact .refl table
  | tail _ last ih => exact ih.trans last.2

theorem keeps (quiet : table.QuietPath after) (wf : table.WellFormed) : table.Keeps after :=
  quiet.path.keeps wf

theorem draw (table : Table) (prng : UInt32) : table.QuietPath { table with prng } :=
  .single ⟨⟨_, Table.Change.draw table prng⟩, rfl, le_rfl, rfl⟩

theorem free {cursor : Cursor Entry} {index : Nat} (prev : cursor.prev = trailing cursor.pos)
    (here : (bucket table.buckets index)[cursor.pos]? = some cursor.item)
    : table.QuietPath (table.expireAndDeleteUnlocked cursor index) :=
  .single ⟨⟨_, Table.Change.free prev here⟩, List.length_modify .., Nat.sub_le .., rfl⟩

theorem access {key : CString} {entry : Entry} (found : table.lookup key = some entry)
    : table.QuietPath (table.touch key) :=
  .single ⟨⟨_, Table.Change.access found⟩, List.length_modify .., le_rfl, rfl⟩

theorem deadline {key : CString} {entry : Entry} (found : table.lookup key = some entry)
    (expireAtMs : Int64)
    : table.QuietPath (table.modifyEntry key (fun entry => { entry with expireAtMs })) :=
  .single ⟨⟨_, Table.Change.deadline found expireAtMs⟩, List.length_modify .., le_rfl, rfl⟩

theorem shrink {key : CString} {entry : Entry} {value : Payload} {bytes : Nat}
    (found : table.lookup key = some entry) (valid : value.WellFormed)
    (sized : entry.value.Sized → value.Sized)
    (exact : entry.value.footprint = value.footprint + bytes)
    (values : value.values ⊆ entry.value.values)
    : table.QuietPath ((table.setPayload key value).refund bytes) :=
  .single ⟨⟨_, Table.Change.shrink found valid sized exact
    (List.subset_append_of_subset_left [] values)⟩, List.length_modify .., le_rfl, rfl⟩

end Table.QuietPath

theorem Table.Removals.quiet {Lost : Binding → Prop} (removals : Table.Removals Lost table after)
    : table.QuietPath after := by
  induction removals with
  | refl => exact .refl _
  | tail _ last ih =>
      cases last with
      | draw prng => exact ih.trans (.draw _ prng)
      | free prev here lost => exact ih.trans (.free prev here)

theorem Table.Removals.path {Lost : Binding → Prop} (removals : Table.Removals Lost table after)
    : table.Path after :=
  removals.quiet.path

theorem Table.Removals.stores {Lost : Binding → Prop} (removals : Table.Removals Lost table after)
    : table.Stores stored after :=
  removals.quiet.stores

/-- A walk that ends on an entry, and freeing that entry. -/
theorem Table.expireAndDelete_quiet {key : CString} {cursor : Cursor Entry}
    (met : table.seekEntry key = some cursor)
    : table.QuietPath (table.expireAndDeleteUnlocked cursor (hashKey key table.bucketCount)) := by
  obtain ⟨_, prev, here⟩ := Table.seekEntry_some met
  exact .free prev here

theorem Table.find_quiet (table : Table) (key : CString) (now : Int64)
    : table.QuietPath (table.findEntryUnlocked key now).2 := by
  simp only [Table.findEntryUnlocked]
  split
  · exact .refl table
  · next met =>
      split
      · exact Table.expireAndDelete_quiet met
      · exact .refl table

/-- Making room removes entries until the bytes fit. -/
theorem Table.makeRoom_fits {bytes : Nat} (made : (table.makeRoom bytes).1 ≠ false)
    : (table.makeRoom bytes).2.Fits bytes := by
  intro limited
  simp only [Table.makeRoom] at made limited ⊢
  split at made
  · next budget =>
      rw [if_pos budget]
      simpa using made
  · next unlimited =>
      rw [if_neg unlimited] at limited
      exact absurd limited unlimited

theorem Table.resize_stores (table : Table) (newBucketCount : Nat) (env : CallEnv)
    : table.Stores [] (table.kvResizeUnlocked newBucketCount env).2 := by
  simp only [Table.kvResizeUnlocked]
  split
  · exact .refl [] table
  · next nonzero =>
      split
      · exact .refl [] table
      · next within =>
          have fits : table.Fits (newBucketCount * sizeofPointer) := by
            intro limited
            simpa [limited] using within
          split
          · exact .refl [] table
          · exact .of_change (.resize (Nat.pos_of_ne_zero nonzero) fits)

theorem Table.growIfLoaded_stores (table : Table) (env : CallEnv)
    : table.Stores [] (table.growIfLoaded env) := by
  rw [Table.growIfLoaded]
  split
  · exact table.resize_stores _ env
  · exact .refl [] table

/-- Writing a deadline through the entry pointer, whether or not the key is there. -/
theorem Table.setDeadline_quiet (table : Table) (key : CString) (expireAtMs : Int64)
    : table.QuietPath (table.modifyEntry key (fun entry => { entry with expireAtMs })) := by
  cases found : table.lookup key with
  | none =>
      rw [Table.modifyEntry_of_lookup_none found]
      exact .refl table
  | some entry => exact .deadline found expireAtMs

end MiniKv
