import Mathlib.Tactic

/-! Updates that touch one key each and change what the key shows as a function of what it showed.
The order of such updates matters key by key only.
-/

namespace MiniKv.Foundations.KeyedUpdates

variable {ω κ β : Type} [DecidableEq κ] {target : ω → κ} {change : ω → β → β}

/-- What the keys show after one update. -/
def update (target : ω → κ) (change : ω → β → β) (view : κ → β) (op : ω) : κ → β :=
  Function.update view (target op) (change op (view (target op)))

/-- What a key shows after some updates depends on the updates of that key. -/
theorem foldl_update_apply (ops : List ω) (view : κ → β) (key : κ)
    : ops.foldl (update target change) view key
      = (ops.filter (fun op => target op = key)).foldl (fun shown op => change op shown)
          (view key) := by
  induction ops generalizing view with
  | nil => rfl
  | cons op ops ih =>
      rw [List.foldl_cons, ih, List.filter_cons]
      by_cases same : target op = key
      · subst same
        rw [update, Function.update_self, if_pos (decide_eq_true rfl), List.foldl_cons]
      · rw [update, Function.update_of_ne (Ne.symm same), if_neg (by simpa using same)]

/-- Updates that are in the same order for every key have the same effect. -/
theorem foldl_update_congr {left right : List ω}
    (same : ∀ key, left.filter (fun op => target op = key)
      = right.filter (fun op => target op = key)) (view : κ → β)
    : left.foldl (update target change) view = right.foldl (update target change) view := by
  funext key
  rw [foldl_update_apply, foldl_update_apply, same]

end MiniKv.Foundations.KeyedUpdates
