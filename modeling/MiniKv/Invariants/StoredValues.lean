import MiniKv.Invariants.Reachable

/-! The values in a table come from its callers: whatever holds of the values that are stored and
of the value an operation is given holds of the values that are stored behind it.
-/

namespace MiniKv

open MiniKv.Foundations.ChainedTable

def Table.AllValues (Property : CString → Prop) (table : Table) : Prop :=
  ∀ entry ∈ table.entries, ∀ value ∈ entry.value.values, Property value

variable {Property : CString → Prop} {table after : Table} {stored : List CString}
  {key : CString} {entry : Entry}

theorem Table.AllValues.of_lookup (all : table.AllValues Property)
    (found : table.lookup key = some entry)
    : ∀ value ∈ entry.value.values, Property value :=
  all entry (Table.WellFormed.mem_of_lookup found).1

theorem Table.AllValues.modified (all : table.AllValues Property) (wf : table.WellFormed)
    (found : table.lookup key = some entry)
    {change : Entry → Entry} (keeps : ∀ old : Entry, (change old).key = old.key)
    (fresh : ∀ value ∈ stored, Property value)
    (values : (change entry).value.values ⊆ entry.value.values ++ stored)
    : (table.modifyEntry key change).AllValues Property := by
  obtain ⟨_, rest, before, exchanged⟩ := wf.modifyEntry_entries found change keeps
  intro other member
  rcases List.mem_cons.mp (exchanged.mem_iff.mp member) with rfl | kept
  · intro value inside
    rcases List.mem_append.mp (values inside) with old | given
    · exact all.of_lookup found value old
    · exact fresh value given
  · exact all other (before.mem_iff.mpr (List.mem_cons_of_mem _ kept))

theorem Table.Change.allValues {refunded : Nat} (change : Table.Change stored table refunded after)
    (wf : table.WellFormed) (fresh : ∀ value ∈ stored, Property value)
    (all : table.AllValues Property)
    : after.AllValues Property := by
  cases change with
  | draw prng => exact all
  | @free cursor index prev here =>
      have removal : Table.Removal (fun _ => True) table
          (table.expireAndDeleteUnlocked cursor index) := .free prev here trivial
      exact fun entry member => all entry (removal.removals.mem wf member)
  | access found =>
      exact all.modified wf found (fun _ => rfl) fresh (List.subset_append_left _ _)
  | deadline found expireAtMs =>
      exact all.modified wf found (fun _ => rfl) fresh (List.subset_append_left _ _)
  | @insert key value bytes absent _ _ _ _ values =>
      intro other member
      rcases List.mem_cons.mp ((wf.insertEntry_placed absent value bytes).2.mem_iff.mp member)
        with rfl | kept
      · exact fun value inside => fresh value (values inside)
      · exact all other kept
  | grow found grows => exact all.modified wf found (fun _ => rfl) fresh grows.values
  | shrink found _ _ _ values => exact all.modified wf found (fun _ => rfl) fresh values
  | resize positive =>
      exact fun entry member => all entry ((wf.rehashed positive).2.2.mem_iff.mp member)

theorem Table.Stores.allValues (stores : table.Stores stored after) (wf : table.WellFormed)
    (fresh : ∀ value ∈ stored, Property value) (all : table.AllValues Property)
    : after.AllValues Property := by
  induction stores with
  | refl => exact all
  | tail early last ih =>
      obtain ⟨refunded, change⟩ := last
      exact change.allValues (Table.Stores.keeps early wf).wellFormed fresh ih

theorem Op.call_allValues {store : Store} (op : Op) (env : CallEnv)
    (all : store.table.AllValues Property) (wf : store.table.WellFormed)
    (fresh : ∀ value ∈ op.stored, Property value)
    : (op.call env store).2.table.AllValues Property :=
  (op.call_stores env wf).allValues wf fresh all

end MiniKv
