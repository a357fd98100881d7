import MiniKv.Foundations.Runs

/-! Streams of lines. A line ends in a delimiter; cutting a stream gives its complete lines and the
beginning of one more. A stream that arrives in pieces is cut into the same lines when what is left
of each piece is carried over to the next.
-/

namespace MiniKv.Foundations.Lines

open MiniKv.Foundations.Runs

variable {α : Type} [DecidableEq α] {delim : α}

/-- The complete lines of a stream without their delimiters, and what is behind the last one. -/
def cut (delim : α) : List α → List (List α) × List α
  | [] => ([], [])
  | item :: rest =>
      let later := cut delim rest
      if item = delim then ([] :: later.1, later.2)
      else
        match later.1 with
        | [] => ([], item :: later.2)
        | line :: lines => ((item :: line) :: lines, later.2)

/-- The stream of some lines. -/
def join (delim : α) (lines : List (List α)) : List α :=
  lines.flatMap (fun line => line ++ [delim])

omit [DecidableEq α] in
theorem join_cons (delim : α) (line : List α) (lines : List (List α))
    : join delim (line :: lines) = line ++ delim :: join delim lines := by
  simp [join]

theorem cut_line {line : List α} (noDelim : delim ∉ line) (rest : List α)
    : cut delim (line ++ delim :: rest) = (line :: (cut delim rest).1, (cut delim rest).2) := by
  induction line with
  | nil => simp [cut]
  | cons item line ih =>
      rw [List.mem_cons, not_or] at noDelim
      rw [List.cons_append, cut, ih noDelim.2]
      simp only [if_neg (Ne.symm noDelim.1)]

theorem cut_torn {torn : List α} (noDelim : delim ∉ torn) : cut delim torn = ([], torn) := by
  induction torn with
  | nil => rfl
  | cons item torn ih =>
      rw [List.mem_cons, not_or] at noDelim
      rw [cut, ih noDelim.2]
      simp only [if_neg (Ne.symm noDelim.1)]

theorem cut_join_append {lines : List (List α)} (noDelim : ∀ line ∈ lines, delim ∉ line)
    (rest : List α)
    : cut delim (join delim lines ++ rest)
      = (lines ++ (cut delim rest).1, (cut delim rest).2) := by
  induction lines with
  | nil => simp [join]
  | cons line lines ih =>
      rw [join_cons, List.append_assoc, List.cons_append,
        cut_line (noDelim line List.mem_cons_self),
        ih (fun other member => noDelim other (List.mem_cons_of_mem _ member))]
      rfl

/-- Cutting loses nothing but the delimiters, and leaves none of them. -/
theorem cut_spec (delim : α) (stream : List α)
    : join delim (cut delim stream).1 ++ (cut delim stream).2 = stream
      ∧ (∀ line ∈ (cut delim stream).1, delim ∉ line)
      ∧ delim ∉ (cut delim stream).2 := by
  induction stream with
  | nil => simp [cut, join]
  | cons item rest ih =>
      obtain ⟨whole, lines, torn⟩ := ih
      rw [cut]
      by_cases ends : item = delim
      · simp only [if_pos ends, join_cons, List.nil_append, List.cons_append, whole]
        refine ⟨by rw [ends], ?_, torn⟩
        simpa using lines
      · simp only [if_neg ends]
        cases found : (cut delim rest).1 with
        | nil =>
            rw [found] at whole
            refine ⟨congrArg (item :: ·) whole, by simp, ?_⟩
            rw [List.mem_cons, not_or]
            exact ⟨Ne.symm ends, torn⟩
        | cons line others =>
            rw [found] at whole lines
            rw [join_cons] at whole ⊢
            refine ⟨congrArg (item :: ·) whole, ?_, torn⟩
            simp only [List.mem_cons, forall_eq_or_imp, not_or] at lines ⊢
            exact ⟨⟨Ne.symm ends, lines.1⟩, lines.2⟩

/-- Cutting a stream whose beginning has been cut already. -/
theorem cut_append (delim : α) (front rest : List α)
    : cut delim (front ++ rest)
      = ((cut delim front).1 ++ (cut delim ((cut delim front).2 ++ rest)).1,
          (cut delim ((cut delim front).2 ++ rest)).2) := by
  obtain ⟨whole, lines, _⟩ := cut_spec delim front
  conv_lhs => rw [← whole]
  rw [List.append_assoc, cut_join_append lines]

/-- The beginning of a line becomes part of the first line or stays behind the last one. -/
theorem cut_torn_append {torn : List α} (noDelim : delim ∉ torn) (rest : List α)
    : torn.length ≤ (cut delim (torn ++ rest)).2.length
      ∨ ∃ line ∈ (cut delim (torn ++ rest)).1, torn.length ≤ line.length := by
  by_cases complete : delim ∈ rest
  · obtain ⟨line, later, rfl, first⟩ := List.eq_append_cons_of_mem complete
    have joined : delim ∉ torn ++ line := by
      rw [List.mem_append, not_or]
      exact ⟨noDelim, first⟩
    rw [← List.append_assoc, cut_line joined]
    exact .inr ⟨torn ++ line, List.mem_cons_self, by simp⟩
  · have joined : delim ∉ torn ++ rest := by
      rw [List.mem_append, not_or]
      exact ⟨noDelim, complete⟩
    rw [cut_torn joined]
    exact .inl (by simp)

/-- A bound on the lines of a stream holds of those of its beginning. -/
theorem cut_beginning_length {front later : List α} {bound : Nat}
    (lines : ∀ line ∈ (cut delim (front ++ later)).1, line.length ≤ bound)
    (left : (cut delim (front ++ later)).2.length ≤ bound)
    : (∀ line ∈ (cut delim front).1, line.length ≤ bound) ∧ (cut delim front).2.length ≤ bound := by
  rw [cut_append] at lines left
  refine ⟨fun line member => lines line (List.mem_append_left _ member), ?_⟩
  rcases cut_torn_append (cut_spec delim front).2.2 later with within | ⟨line, member, within⟩
  · exact within.trans left
  · exact within.trans (lines line (List.mem_append_right _ member))

/-- However a stream is split into pieces, carrying the rest over gives its lines. -/
theorem run_cut {carry : List α} (noDelim : delim ∉ carry) (pieces : List (List α))
    : let cutting := run (fun carry piece => cut delim (carry ++ piece)) carry pieces
      cutting.1.flatten = (cut delim (carry ++ pieces.flatten)).1
        ∧ cutting.2 = (cut delim (carry ++ pieces.flatten)).2 := by
  induction pieces generalizing carry with
  | nil => simp [run, cut_torn noDelim]
  | cons piece pieces ih =>
      obtain ⟨lines, left⟩ :=
        @ih (cut delim (carry ++ piece)).2 (cut_spec delim (carry ++ piece)).2.2
      simp only [run, List.flatten_cons]
      rw [← List.append_assoc, cut_append delim (carry ++ piece)]
      exact ⟨congrArg ((cut delim (carry ++ piece)).1 ++ ·) lines, left⟩

/-- What is left behind a beginning of a stream is a beginning of one of its lines. -/
theorem cut_beginning {lines : List (List α)} (noDelim : ∀ line ∈ lines, delim ∉ line)
    {front : List α} (begins : front <+: join delim lines)
    : (cut delim front).2 = [] ∨ ∃ line ∈ lines, (cut delim front).2 <+: line := by
  induction lines generalizing front with
  | nil =>
      obtain rfl : front = [] := List.prefix_nil.mp begins
      exact .inl rfl
  | cons line lines ih =>
      have first := noDelim line List.mem_cons_self
      obtain ⟨behind, whole⟩ := begins
      rw [join_cons, List.append_eq_append_iff] at whole
      rcases whole with ⟨missing, within, _⟩ | ⟨further, beyond, behindLine⟩
      · have torn : delim ∉ front :=
          fun member => first (within ▸ List.mem_append_left missing member)
        rw [cut_torn torn]
        exact .inr ⟨line, List.mem_cons_self, missing, within.symm⟩
      · cases further with
        | nil =>
            rw [beyond, List.append_nil, cut_torn first]
            exact .inr ⟨line, List.mem_cons_self, List.prefix_refl line⟩
        | cons item further =>
            obtain ⟨rfl, later⟩ := List.cons.inj behindLine
            rw [beyond, cut_line first]
            rcases ih (fun other member => noDelim other (List.mem_cons_of_mem _ member))
              ⟨behind, later.symm⟩ with nothing | ⟨other, member, begins⟩
            · exact .inl nothing
            · exact .inr ⟨other, List.mem_cons_of_mem _ member, begins⟩

end MiniKv.Foundations.Lines
