import Mathlib.Tactic

/-! Lists of which one place changes: the threads of a machine of which one takes a step. -/

namespace MiniKv.Foundations.Places

variable {α β : Type} {things : List α} {index : Nat} {old : α}

/-- A list around one of its places, and the list with something else there. -/
theorem exists_around (here : things[index]? = some old)
    : ∃ before after, things = before ++ old :: after
        ∧ ∀ new, things.set index new = before ++ new :: after := by
  obtain ⟨inside, found⟩ := List.getElem?_eq_some_iff.mp here
  refine ⟨things.take index, things.drop (index + 1), ?_, fun new => ?_⟩
  · rw [← found, ← List.drop_eq_getElem_cons inside, List.take_append_drop]
  · rw [List.set_eq_take_append_cons_drop, if_pos inside]

theorem filterMap_cons_toList (f : α → Option β) (first : α) (rest : List α)
    : (first :: rest).filterMap f = (f first).toList ++ rest.filterMap f := by
  cases shown : f first with
  | none => rw [List.filterMap_cons_none shown, Option.toList_none, List.nil_append]
  | some value => rw [List.filterMap_cons_some shown, Option.toList_some, List.singleton_append]

theorem filterMap_around (f : α → Option β) (before after : List α) (middle : α)
    : (before ++ middle :: after).filterMap f
      = before.filterMap f ++ ((f middle).toList ++ after.filterMap f) := by
  rw [List.filterMap_append, filterMap_cons_toList]

/-- What is seen of a place is exchanged with what is seen of its new content. -/
theorem filterMap_set_perm (f : α → Option β) (here : things[index]? = some old) (new : α)
    : ((f new).toList ++ things.filterMap f).Perm
        ((f old).toList ++ (things.set index new).filterMap f) := by
  obtain ⟨before, after, split, placed⟩ := exists_around here
  rw [placed new, split, filterMap_around, filterMap_around]
  calc List.Perm ((f new).toList ++ (before.filterMap f ++ ((f old).toList ++ after.filterMap f)))
        ((f new).toList ++ ((f old).toList ++ (before.filterMap f ++ after.filterMap f))) :=
        (List.perm_append_comm_assoc _ _ _).append_left _
    List.Perm _ ((f old).toList ++ ((f new).toList ++ (before.filterMap f ++ after.filterMap f))) :=
        List.perm_append_comm_assoc _ _ _
    List.Perm _ ((f old).toList ++ (before.filterMap f ++ ((f new).toList ++ after.filterMap f))) :=
        (List.perm_append_comm_assoc _ _ _).append_left _

end MiniKv.Foundations.Places
