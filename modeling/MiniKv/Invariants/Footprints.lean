import MiniKv.Invariants.Containers

/-! The bytes a store owns, written down as sums over its contents, and how they change when one
value does. What `expire_and_delete_unlocked` gives back for an entry is its share of the sum.
-/

namespace MiniKv

open MiniKv.Foundations.ChainedTable
open MiniKv.Foundations.DoublyLinked

/-- The bytes of one list node with its value. -/
def listNodeBytes (value : CString) : Nat :=
  sizeofListNode + value.length + 1

/-- The bytes of one set node with its value. -/
def setNodeBytes (value : CString) : Nat :=
  sizeofSetNode + value.length + 1

/-- The bytes behind `value_ptr`: a string, a list with its nodes, or a set with its 16 bucket
pointers and its nodes.
-/
def Payload.footprint : Payload → Nat
  | .string value => value.length + 1
  | .list links => sizeofList + (links.toList.map listNodeBytes).sum
  | .set chains =>
      sizeofSet + initialSetBuckets * sizeofPointer + (chains.members.map setNodeBytes).sum

/-- The bytes an entry owns. -/
def Entry.footprint (entry : Entry) : Nat :=
  sizeofEntry + (entry.key.length + 1) + entry.value.footprint

/-- A set has the bucket array it was created with. -/
def Payload.Sized : Payload → Prop
  | .set chains => chains.bucketCount = initialSetBuckets
  | _ => True

theorem foldl_add_eq_sum {bytes : CString → Nat} (values : List CString) (start : Nat)
    : values.foldl (fun freed value => freed + bytes value) start
      = start + (values.map bytes).sum := by
  induction values generalizing start with
  | nil => simp
  | cons value rest ih =>
      rw [List.foldl_cons, ih, List.map_cons, List.sum_cons]
      omega

/-- Freeing an entry gives back exactly what it owns. -/
theorem Entry.freedBytes_eq {entry : Entry} (sized : entry.value.Sized)
    : entry.freedBytes = entry.footprint := by
  obtain ⟨key, payload, expireAtMs, time⟩ := entry
  cases payload with
  | string value => simp only [Entry.freedBytes, Entry.footprint, Payload.footprint]; omega
  | list links =>
      have bytes : listDestroyBytes links = sizeofList + (links.toList.map listNodeBytes).sum :=
        foldl_add_eq_sum links.toList sizeofList
      simp only [Entry.freedBytes, Entry.footprint, Payload.footprint, bytes]
      omega
  | set chains =>
      have buckets : chains.bucketCount = initialSetBuckets := sized
      have bytes : setDestroyBytes chains
          = sizeofSet + chains.bucketCount * sizeofPointer
            + (chains.members.map setNodeBytes).sum :=
        foldl_add_eq_sum chains.members (sizeofSet + chains.bucketCount * sizeofPointer)
      simp only [Entry.freedBytes, Entry.footprint, Payload.footprint, bytes, buckets]
      omega

theorem ListWellFormed.footprint_pushFront {list : KvList} (wf : ListWellFormed list)
    {value : CString} (valid : ValidValue value)
    : (Payload.list (list.pushFront value)).footprint
      = (Payload.list list).footprint + listNodeBytes value := by
  simp only [Payload.footprint, (wf.pushFront valid).2, List.map_cons, List.sum_cons]
  omega

/-- Popping gives back the node of the popped value. -/
theorem ListWellFormed.footprint_popBack {list rest : KvList} (wf : ListWellFormed list)
    {value : CString} (popped : list.popBack = some (value, rest))
    : ListWellFormed rest
      ∧ (Payload.list list).footprint = (Payload.list rest).footprint + listNodeBytes value := by
  obtain ⟨restWf, shape⟩ := wf.popBack_eq popped
  refine ⟨restWf, ?_⟩
  simp only [Payload.footprint, shape]
  rw [List.map_append, List.sum_append, List.map_singleton, List.sum_singleton]
  omega

theorem KvSet.WellFormed.footprint_add {set : KvSet} (wf : set.WellFormed) {value : CString}
    (missing : value ∉ set.members)
    : (Payload.set (set.add value)).footprint
      = (Payload.set set).footprint + setNodeBytes value := by
  have members := ((wf.add_perm missing).2.map setNodeBytes).sum_eq
  rw [List.map_cons, List.sum_cons] at members
  simp only [Payload.footprint, members]
  omega

theorem KvSet.WellFormed.footprint_remove {set : KvSet} (wf : set.WellFormed) {value : CString}
    (present : value ∈ set.members)
    : (Payload.set set).footprint
      = (Payload.set (set.remove value)).footprint + setNodeBytes value := by
  have members := ((wf.remove_perm present).2.map setNodeBytes).sum_eq
  rw [List.map_cons, List.sum_cons] at members
  simp only [Payload.footprint, members]
  omega

theorem KvSet.sized_add {set : KvSet} (value : CString) (sized : (Payload.set set).Sized)
    : (Payload.set (set.add value)).Sized := by
  have buckets : set.bucketCount = initialSetBuckets := sized
  simpa [Payload.Sized, KvSet.bucketCount, KvSet.add] using buckets

theorem KvSet.sized_remove {set : KvSet} (value : CString) (sized : (Payload.set set).Sized)
    : (Payload.set (set.remove value)).Sized := by
  have buckets : set.bucketCount = initialSetBuckets := sized
  simpa [Payload.Sized, KvSet.bucketCount, KvSet.remove] using buckets

end MiniKv
