import Mathlib.Tactic

/-! Texts that are put together from parts, some of which are marked, and the change of one element
of a marked part.
-/

namespace MiniKv.Foundations.MarkedParts

variable {α : Type}

/-- The text of parts. -/
def text (parts : List (Bool × List α)) : List α :=
  parts.flatMap Prod.snd

/-- The mark of each place of the text. -/
def marks (parts : List (Bool × List α)) : List Bool :=
  parts.flatMap (fun part => List.replicate part.2.length part.1)

/-- (Altered before after) says that one element of one marked part has changed. -/
inductive Altered : List (Bool × List α) → List (Bool × List α) → Prop where
  | here {old new : α} (front back : List α) (rest : List (Bool × List α)) (differs : new ≠ old)
      : Altered ((true, front ++ old :: back) :: rest) ((true, front ++ new :: back) :: rest)
  | later {before after : List (Bool × List α)} (part : Bool × List α)
      (altered : Altered before after)
      : Altered (part :: before) (part :: after)

theorem text_cons (part : Bool × List α) (parts : List (Bool × List α))
    : text (part :: parts) = part.2 ++ text parts :=
  rfl

theorem text_append (first second : List (Bool × List α))
    : text (first ++ second) = text first ++ text second :=
  List.flatMap_append

theorem text_eq_flatten (parts : List (Bool × List α))
    : text parts = (parts.map Prod.snd).flatten :=
  List.flatMap_def

theorem length_marks (parts : List (Bool × List α))
    : (marks parts).length = (text parts).length := by
  simp [marks, text, List.length_flatMap]

/-- The mark of the first place of a part. -/
theorem marks_append_cons (before after : List (Bool × List α)) (mark : Bool) (element : α)
    (rest : List α)
    : (marks (before ++ (mark, element :: rest) :: after))[(text before).length]? = some mark := by
  have cut : marks (before ++ (mark, element :: rest) :: after)
      = marks before ++ mark :: (List.replicate rest.length mark ++ marks after) := by
    simp [marks, List.replicate_succ]
  rw [cut, ← length_marks, List.getElem?_append_right le_rfl, Nat.sub_self]
  rfl

theorem text_append_cons (before after : List (Bool × List α)) (mark : Bool) (element new : α)
    (rest : List α)
    : (text (before ++ (mark, element :: rest) :: after)).set (text before).length new
      = text before ++ new :: (rest ++ text after) := by
  rw [text_append, text_cons, List.set_append_right _ _ le_rfl, Nat.sub_self]
  rfl

/-- Writing another element to a marked place alters a marked part, by induction on the parts. -/
theorem exists_altered {parts : List (Bool × List α)} {place : Nat} {new : α}
    (marked : (marks parts)[place]? = some true) (differs : (text parts)[place]? ≠ some new)
    : ∃ after, Altered parts after ∧ (text parts).set place new = text after := by
  induction parts generalizing place with
  | nil => simp [marks] at marked
  | cons part rest ih =>
      obtain ⟨mark, elements⟩ := part
      have cut : marks ((mark, elements) :: rest)
          = List.replicate elements.length mark ++ marks rest := rfl
      rw [cut] at marked
      rw [text_cons] at differs ⊢
      dsimp only at differs ⊢
      by_cases inside : place < elements.length
      · rw [List.getElem?_append_left (by simpa using inside),
          List.getElem?_replicate_of_lt inside, Option.some.injEq] at marked
        subst marked
        rw [List.getElem?_append_left inside, List.getElem?_eq_getElem inside,
          ne_eq, Option.some.injEq] at differs
        have whole : elements = elements.take place
            ++ elements[place] :: elements.drop (place + 1) := by
          rw [List.getElem_cons_drop, List.take_append_drop]
        refine ⟨(true, elements.take place ++ new :: elements.drop (place + 1)) :: rest, ?_, ?_⟩
        · nth_rewrite 1 [whole]
          exact .here _ _ _ (Ne.symm differs)
        · rw [List.set_append_left _ _ inside, text_cons, List.set_eq_take_append_cons_drop,
            if_pos inside]
      · have behind : elements.length ≤ place := Nat.not_lt.mp inside
        rw [List.getElem?_append_right (by simpa using behind), List.length_replicate] at marked
        rw [List.getElem?_append_right behind] at differs
        obtain ⟨after, altered, same⟩ := ih marked differs
        refine ⟨(mark, elements) :: after, .later _ altered, ?_⟩
        rw [List.set_append_right _ _ behind, same, text_cons]

/-- Parts that stand one behind the other are altered in one of the two. -/
theorem Altered.of_append {first second after : List (Bool × List α)}
    (altered : Altered (first ++ second) after)
    : (∃ other, Altered first other ∧ after = other ++ second)
      ∨ ∃ other, Altered second other ∧ after = first ++ other := by
  induction first generalizing after with
  | nil => exact .inr ⟨after, altered, rfl⟩
  | cons part rest ih =>
      cases altered with
      | here front back _ differs => exact .inl ⟨_, .here front back rest differs, rfl⟩
      | later _ altered =>
          rcases ih altered with ⟨other, inFirst, rfl⟩ | ⟨other, inSecond, rfl⟩
          · exact .inl ⟨_, .later part inFirst, rfl⟩
          · exact .inr ⟨other, inSecond, rfl⟩

/-- Parts that are not marked are not altered. -/
theorem not_altered_of_unmarked {parts after : List (Bool × List α)}
    (unmarked : ∀ part ∈ parts, part.1 = false)
    : ¬ Altered parts after := by
  intro altered
  induction altered with
  | here front back rest _ =>
      have mark : true = false := unmarked _ List.mem_cons_self
      contradiction
  | later part _ ih => exact ih (fun other member => unmarked other (List.mem_cons_of_mem _ member))

/-- A single part keeps its length. -/
theorem Altered.of_singleton {elements : List α} {after : List (Bool × List α)}
    (altered : Altered [(true, elements)] after)
    : ∃ others : List α, after = [(true, others)] ∧ others.length = elements.length
        ∧ others ≠ elements := by
  cases altered with
  | here front back _ differs =>
      refine ⟨_, rfl, by simp, ?_⟩
      intro same
      exact differs (List.cons.inj (List.append_cancel_left same)).1
  | later _ altered => cases altered

/-- One summand of a sum over the text changes. -/
theorem Altered.sum {before after : List (Bool × List α)} (altered : Altered before after)
    (weight : α → Nat)
    : ∃ old new, new ≠ old
        ∧ ((text after).map weight).sum + weight old
          = ((text before).map weight).sum + weight new := by
  induction altered with
  | @here old new front back rest differs =>
      refine ⟨old, new, differs, ?_⟩
      simp only [text_cons, List.map_append, List.map_cons, List.sum_append, List.sum_cons]
      omega
  | later part _ ih =>
      obtain ⟨old, new, differs, same⟩ := ih
      refine ⟨old, new, differs, ?_⟩
      simp only [text_cons, List.map_append, List.sum_append]
      omega

end MiniKv.Foundations.MarkedParts
