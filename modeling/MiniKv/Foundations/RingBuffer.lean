import Mathlib.Data.List.Rotate
import Mathlib.Data.Nat.ModEq

/-! Bounded queues in a circular array. The elements stand from a head index on and wrap around at
the end of the array; a count tells how many there are, and the tail is where the next one goes.
-/

namespace MiniKv.Foundations.RingBuffer

variable {α : Type} {slots : List α} {head tail count : Nat}

/-- The elements in the order of their arrival. -/
def contents (slots : List α) (head count : Nat) : List α :=
  (slots.rotate head).take count

/-- The indices fit the array, and the tail is `count` slots behind the head. -/
structure Laid (slots : List α) (head tail count : Nat) : Prop where
  inside : head < slots.length
  bounded : count ≤ slots.length
  behind : tail = (head + count) % slots.length

theorem length_contents (bounded : count ≤ slots.length)
    : (contents slots head count).length = count := by
  rw [contents, List.length_take, List.length_rotate, min_eq_left bounded]

theorem Laid.empty (slots : List α) (some : 0 < slots.length) : Laid slots 0 0 0 :=
  ⟨some, Nat.zero_le _, (Nat.mod_eq_of_lt some).symm⟩

/-- Writing at the tail appends an element. -/
theorem Laid.contents_push (laid : Laid slots head tail count) (room : count < slots.length)
    (element : α)
    : contents (slots.set tail element) head (count + 1)
      = contents slots head count ++ [element] := by
  have tailInside : tail < slots.length := laid.behind ▸ Nat.mod_lt _ (by omega)
  apply List.ext_getElem?
  intro index
  rw [contents, List.getElem?_take]
  rcases Nat.lt_trichotomy index count with before | rfl | beyond
  · have later : index < slots.length := before.trans room
    -- Offsets below the count are slots other than the tail.
    have apart : tail ≠ (index + head) % slots.length := by
      intro same
      rw [laid.behind, Nat.add_comm index] at same
      have equal : Nat.ModEq slots.length count index := Nat.ModEq.add_left_cancel' head same
      rw [Nat.ModEq, Nat.mod_eq_of_lt room, Nat.mod_eq_of_lt later] at equal
      omega
    rw [if_pos (by omega), List.getElem?_rotate (by simpa using later), List.length_set,
      List.getElem?_set_ne apart,
      List.getElem?_append_left (by rw [length_contents laid.bounded]; exact before),
      contents, List.getElem?_take_of_lt before, List.getElem?_rotate later]
  · rw [if_pos (by omega), List.getElem?_rotate (by simpa using room), List.length_set,
      Nat.add_comm index, ← laid.behind, List.getElem?_set_self tailInside,
      List.getElem?_append_right (by rw [length_contents laid.bounded]),
      length_contents laid.bounded, Nat.sub_self, List.getElem?_cons_zero]
  · rw [if_neg (by omega), List.getElem?_eq_none]
    rw [List.length_append, length_contents laid.bounded, List.length_singleton]
    omega

theorem Laid.push (laid : Laid slots head tail count) (room : count < slots.length) (element : α)
    : Laid (slots.set tail element) head ((tail + 1) % slots.length) (count + 1) := by
  refine ⟨by simpa using laid.inside, by simpa using Nat.succ_le_of_lt room, ?_⟩
  rw [List.length_set, laid.behind, Nat.mod_add_mod, Nat.add_assoc]

/-- The element at the head is the one that came first. -/
theorem Laid.contents_pop (laid : Laid slots head tail (count + 1))
    : ∃ element, slots[head]? = some element
        ∧ contents slots head (count + 1)
          = element :: contents slots ((head + 1) % slots.length) count := by
  have inside := laid.inside
  refine ⟨slots[head], List.getElem?_eq_getElem inside, ?_⟩
  rw [contents, contents, List.rotate_mod]
  apply List.ext_getElem?
  intro index
  cases index with
  | zero =>
      rw [List.getElem?_take_of_lt (Nat.succ_pos _), List.getElem?_rotate (by omega), Nat.zero_add,
        Nat.mod_eq_of_lt inside, List.getElem?_cons_zero, List.getElem?_eq_getElem inside]
  | succ index =>
      rw [List.getElem?_cons_succ, List.getElem?_take, List.getElem?_take]
      by_cases before : index < count
      · have bounded := laid.bounded
        rw [if_pos (by omega), if_pos before, List.getElem?_rotate (by omega),
          List.getElem?_rotate (by omega)]
        congr 2
        omega
      · rw [if_neg (by omega), if_neg before]

theorem Laid.pop (laid : Laid slots head tail (count + 1))
    : Laid slots ((head + 1) % slots.length) tail count := by
  refine ⟨Nat.mod_lt _ (Nat.zero_lt_of_lt laid.inside), Nat.le_of_succ_le laid.bounded, ?_⟩
  rw [laid.behind, Nat.mod_add_mod]
  congr 1
  omega

end MiniKv.Foundations.RingBuffer
