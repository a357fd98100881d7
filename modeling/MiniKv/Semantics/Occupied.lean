import MiniKv.Semantics.Histories

/-! Containers without elements. The machine never keeps one: a list or set that loses its last
element disappears with it.
-/

namespace MiniKv

open MiniKv.Foundations.FiniteMaps

def Content.Occupied : Content → Prop
  | .string _ => True
  | .list items => items ≠ []
  | .set members => members ≠ ∅

def LogicalMap.Occupied (map : LogicalMap) : Prop :=
  Each (fun binding => binding.content.Occupied) map

variable {map : LogicalMap} {key : CString}

namespace LogicalMap.Occupied

theorem empty : LogicalMap.Occupied ∅ :=
  Each.empty

theorem erase (occupied : map.Occupied) : LogicalMap.Occupied (map.erase key) :=
  Each.erase occupied

theorem expire (occupied : map.Occupied) (now : Int64) (key : CString)
    : (LogicalMap.expire map now key).Occupied := by
  rw [LogicalMap.expire]
  split
  · split
    · exact occupied.erase
    · exact occupied
  · exact occupied

theorem setDeadline (occupied : map.Occupied) (key : CString) (expireAt : Int64)
    : (LogicalMap.setDeadline map key expireAt).Occupied := by
  rw [LogicalMap.setDeadline]
  split
  · next binding found => exact Each.insert occupied (occupied key binding found)
  · exact occupied

theorem set (occupied : map.Occupied) (capacity : Nat) (key value : CString)
    : (LogicalMap.set map capacity key value).map.Occupied := by
  rw [LogicalMap.set]
  split
  · exact Each.insert occupied trivial
  · exact occupied
  · split
    · exact occupied
    · exact Each.insert occupied trivial

theorem delete (occupied : map.Occupied) (key : CString)
    : (LogicalMap.delete map key).map.Occupied := by
  rw [LogicalMap.delete]
  split
  · exact occupied.erase
  · exact occupied

theorem lpush (occupied : map.Occupied) (capacity : Nat) (now : Int64) (key value : CString)
    : (LogicalMap.lpush map capacity now key value).map.Occupied := by
  have looked := occupied.expire now key
  simp only [LogicalMap.lpush]
  split
  · exact Each.insert looked (List.cons_ne_nil _ _)
  · exact looked
  · split
    · exact looked
    · exact Each.insert looked (List.cons_ne_nil _ _)

theorem rpop (occupied : map.Occupied) (now : Int64) (key : CString)
    : (LogicalMap.rpop map now key).map.Occupied := by
  have looked := occupied.expire now key
  simp only [LogicalMap.rpop]
  split
  · split
    · split
      · exact looked.erase
      · next rest => exact Each.insert looked rest
    · exact looked
  · exact looked
  · exact looked

theorem sadd (occupied : map.Occupied) (capacity : Nat) (now : Int64) (key value : CString)
    : (LogicalMap.sadd map capacity now key value).map.Occupied := by
  have looked := occupied.expire now key
  simp only [LogicalMap.sadd]
  split
  · split
    · exact looked
    · exact Each.insert looked (Finset.insert_ne_empty _ _)
  · exact looked
  · split
    · exact looked
    · exact Each.insert looked (Finset.singleton_ne_empty _)

theorem srem (occupied : map.Occupied) (now : Int64) (key value : CString)
    : (LogicalMap.srem map now key value).map.Occupied := by
  have looked := occupied.expire now key
  simp only [LogicalMap.srem]
  split
  · split
    · split
      · exact looked.erase
      · next rest => exact Each.insert looked rest
    · exact looked
  · exact looked
  · exact looked

end LogicalMap.Occupied

theorem Record.apply_occupied (record : Record) (occupied : map.Occupied) (capacity : Nat)
    (now : Int64)
    : (record.apply capacity now map).Occupied := by
  cases record with
  | set key value => exact occupied.set capacity key value
  | delete key => exact occupied.delete key
  | lpush key value => exact occupied.lpush capacity now key value
  | rpop key => exact occupied.rpop now key
  | sadd key value => exact occupied.sadd capacity now key value
  | srem key value => exact occupied.srem now key value
  | pexpireat key expireAtMs => exact occupied.setDeadline key expireAtMs

theorem Op.outcome_occupied (op : Op) (occupied : map.Occupied) (capacity : Nat)
    (logging : Bool) (now : Int64)
    : (op.outcome capacity logging now map).map.Occupied := by
  cases op.outcome_leaves capacity logging now map with
  | silent _ _ same =>
      rcases same with same | ⟨key, same⟩
      · rwa [same]
      · rw [same]
        exact occupied.expire now key
  | @recorded record _ _ _ applied => exact applied ▸ record.apply_occupied occupied capacity now

end MiniKv
