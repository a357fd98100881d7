import MiniKv.Correctness.ExpirySweep
import MiniKv.Foundations.SignedWords
import MiniKv.Persistence.Snapshot

/-! The tests for a key that has not expired. Lookups, the dump of the log rewrite and the sweep
drop an entry with `0 < deadline <= now`; `kv_save` writes one with `deadline = 0` or
`now < deadline`; `kv_pttl` subtracts.
-/

namespace MiniKv

open MiniKv.Foundations.ChainedTable
open MiniKv.Foundations.SignedWords

variable {store : Store} {table : Table} {key : CString} {entry : Entry} {now : Int64}

/-- A client sees the key. -/
def Store.Sees (store : Store) (key : CString) (now : Int64) : Prop :=
  (kvExists store (some key) (.at now)).1 = 1

theorem Store.sees_iff_find
    : store.Sees key now ↔ ((store.table.findEntryUnlocked key now).1).isSome := by
  cases found : (store.table.findEntryUnlocked key now).1 with
  | none => simp [Store.Sees, kvExists, CallEnv.at, found]
  | some entry => simp [Store.Sees, kvExists, CallEnv.at, found]

/-- An entry is seen unless its deadline is in the past. -/
theorem Store.sees_iff (found : store.table.lookup key = some entry)
    : store.Sees key now ↔ entryIsExpired entry now = false := by
  rw [Store.sees_iff_find, Table.findEntry_fst, found, Option.isSome_filter]
  simp

/-- A sweep that ends at a cap as large as the table leaves nothing. -/
theorem Sweeps.emptied {swept : Nat × Table} {removed : List Entry}
    (sweeps : Sweeps now (0, table) swept removed) (sized : table.size = table.entries.length)
    (uncapped : table.size ≤ swept.1) (entry : Entry)
    : entry ∉ swept.2.entries := by
  intro left
  have occupied := List.length_pos_of_mem left
  have count := sweeps.count
  have size := sweeps.size
  rw [← sweeps.sized sized] at occupied
  dsimp only at count size
  omega

theorem entryIsExpired_eq_false
    : entryIsExpired entry now = false ↔ entry.expireAtMs.toInt ≤ 0
      ∨ now.toInt < entry.expireAtMs.toInt := by
  rw [← Bool.not_eq_true, entryIsExpired_iff, Int64.lt_iff_toInt_lt, Int64.le_iff_toInt_le,
    Int64.toInt_zero]
  omega

/-- What `kv_pttl` returns for a key that is seen. -/
theorem kvPttl_of_seen (found : store.table.lookup key = some entry)
    (seen : entryIsExpired entry now = false)
    : kvPttl store (some key) (.at now)
      = (if entry.expireAtMs = 0 then -1
          else if entry.expireAtMs - now < 0 then 0 else entry.expireAtMs - now, store) := by
  have sought : store.table.findEntryUnlocked key now = (some entry, store.table) := by
    rw [Table.findEntry_of_live, found]
    intro other same
    rwa [← Option.some.inj (found.symm.trans same)]
  simp only [kvPttl, CallEnv.at, sought]
  split <;> rfl

/-- A deadline ahead that the difference can express. -/
theorem kvPttl_ahead (found : store.table.lookup key = some entry)
    (seen : entryIsExpired entry now = false) (nonzero : entry.expireAtMs.toInt ≠ 0)
    (ahead : now.toInt < entry.expireAtMs.toInt)
    (near : entry.expireAtMs.toInt - now.toInt < 2 ^ 63)
    : ∃ remaining, kvPttl store (some key) (.at now) = (remaining, store)
        ∧ 0 ≤ remaining ∧ remaining.toInt = entry.expireAtMs.toInt - now.toInt := by
  have difference : (entry.expireAtMs - now).toInt = entry.expireAtMs.toInt - now.toInt :=
    toInt_sub_iff.mpr ⟨by omega, near⟩
  have positive : ¬ entry.expireAtMs - now < 0 := by
    rw [Int64.lt_iff_toInt_lt, difference, Int64.toInt_zero]
    omega
  have deadline : entry.expireAtMs ≠ 0 := fun none => nonzero (by rw [none, Int64.toInt_zero])
  refine ⟨_, kvPttl_of_seen found seen, ?_⟩
  rw [if_neg deadline, if_neg positive]
  exact ⟨Int64.not_lt.mp positive, difference⟩

/-- A deadline that was accepted is the one of the key. -/
theorem kvPexpireat_lookup (wf : store.table.WellFormed) {deadline : Int64} {env : CallEnv}
    (accepted : (kvPexpireat store (some key) deadline env).1 = 1)
    : ∃ entry : Entry, (kvPexpireat store (some key) deadline env).2.table.lookup key
        = some { entry with expireAtMs := deadline } := by
  have looked := (store.table.find_quiet key env.now).keeps wf
  have same := (wf.findEntry key env.now).2
  simp only [kvPexpireat] at accepted ⊢
  cases sought : (store.table.findEntryUnlocked key env.now).1 with
  | none => simp [sought] at accepted
  | some entry =>
      exact ⟨entry, looked.wellFormed.lookup_modifyEntry (same.trans sought) _ (fun _ => rfl)⟩

end MiniKv
