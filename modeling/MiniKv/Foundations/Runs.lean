import MiniKv.Foundations.Places

/-! Runs of a deterministic machine: a step takes an input to a reply and a new state. Facts
about one step are carried over to whole runs by an invariant or by a simulation.
-/

namespace MiniKv.Foundations.Runs

open MiniKv.Foundations.Places

variable {σ τ ι ρ ω : Type}

/-- The replies along a run and the state it ends in. -/
def run (step : σ → ι → ρ × σ) : σ → List ι → List ρ × σ
  | state, [] => ([], state)
  | state, input :: rest =>
      let stepped := step state input
      let later := run step stepped.2 rest
      (stepped.1 :: later.1, later.2)

/-- What every allowed step keeps holds at the end of a run of allowed inputs. -/
theorem run_invariant {step : σ → ι → ρ × σ} {Allowed : ι → Prop} {Inv : σ → Prop}
    (keeps : ∀ state input, Inv state → Allowed input → Inv (step state input).2)
    {state : σ} (start : Inv state) {inputs : List ι}
    (allowed : ∀ input ∈ inputs, Allowed input)
    : Inv (run step state inputs).2 := by
  induction inputs generalizing state with
  | nil => exact start
  | cons input rest ih =>
      apply ih (keeps state input start (allowed input List.mem_cons_self))
      exact fun later member => allowed later (List.mem_cons_of_mem _ member)

/-- What every allowed step from a good state replies holds of all replies along a run. -/
theorem run_replies {step : σ → ι → ρ × σ} {Allowed : ι → Prop} {Inv : σ → Prop}
    {Good : ρ → Prop}
    (keeps : ∀ state input, Inv state → Allowed input → Inv (step state input).2)
    (replies : ∀ state input, Inv state → Allowed input → Good (step state input).1)
    {state : σ} (start : Inv state) {inputs : List ι}
    (allowed : ∀ input ∈ inputs, Allowed input)
    : ∀ reply ∈ (run step state inputs).1, Good reply := by
  induction inputs generalizing state with
  | nil => simp [run]
  | cons input rest ih =>
      have first := allowed input List.mem_cons_self
      intro reply member
      rcases List.mem_cons.mp member with rfl | later
      · exact replies state input start first
      · exact ih (keeps state input start first)
          (fun later member => allowed later (List.mem_cons_of_mem _ member)) reply later

/-- Two machines whose related states answer alike and stay related give the same view of
their replies along a run, and end in related states.
-/
theorem run_simulation {step : σ → ι → ρ × σ} {model : τ → ι → ω × τ} {view : ρ → ω}
    {Allowed : ι → Prop} {Related : σ → τ → Prop}
    (simulates : ∀ state abstract input, Related state abstract → Allowed input →
      view (step state input).1 = (model abstract input).1
        ∧ Related (step state input).2 (model abstract input).2)
    {state : σ} {abstract : τ} (start : Related state abstract) {inputs : List ι}
    (allowed : ∀ input ∈ inputs, Allowed input)
    : (run step state inputs).1.map view = (run model abstract inputs).1
      ∧ Related (run step state inputs).2 (run model abstract inputs).2 := by
  induction inputs generalizing state abstract with
  | nil => exact ⟨rfl, start⟩
  | cons input rest ih =>
      obtain ⟨reply, related⟩ :=
        simulates state abstract input start (allowed input List.mem_cons_self)
      obtain ⟨replies, final⟩ :=
        ih related (fun later member => allowed later (List.mem_cons_of_mem _ member))
      refine ⟨?_, final⟩
      simp only [run, List.map_cons, reply, replies]

/-- Where a step hands on what it held, then what it takes in, as what it gives out, then what it
holds, so does a run.
-/
theorem run_conserves {α : Type} {step : σ → ι → ρ × σ} {Inv : σ → Prop} {held : σ → List α}
    {taken given : ρ → Option α}
    (keeps : ∀ state input, Inv state → Inv (step state input).2)
    (conserves : ∀ state input, Inv state →
      held state ++ (taken (step state input).1).toList
        = (given (step state input).1).toList ++ held (step state input).2)
    {state : σ} (start : Inv state) (inputs : List ι)
    : held state ++ (run step state inputs).1.filterMap taken
      = (run step state inputs).1.filterMap given ++ held (run step state inputs).2 := by
  induction inputs generalizing state with
  | nil => exact List.append_nil _
  | cons input rest ih =>
      simp only [run]
      rw [filterMap_cons_toList, filterMap_cons_toList, ← List.append_assoc,
        conserves state input start, List.append_assoc, ih (keeps state input start),
        List.append_assoc]

/-- The same up to order. -/
theorem run_conserves_perm {α : Type} {step : σ → ι → ρ × σ} {Inv : σ → Prop}
    {held : σ → List α} {taken given : ρ → Option α}
    (keeps : ∀ state input, Inv state → Inv (step state input).2)
    (conserves : ∀ state input, Inv state →
      (held state ++ (taken (step state input).1).toList).Perm
        ((given (step state input).1).toList ++ held (step state input).2))
    {state : σ} (start : Inv state) (inputs : List ι)
    : (held state ++ (run step state inputs).1.filterMap taken).Perm
        ((run step state inputs).1.filterMap given ++ held (run step state inputs).2) := by
  induction inputs generalizing state with
  | nil => exact .of_eq (List.append_nil _)
  | cons input rest ih =>
      simp only [run]
      rw [filterMap_cons_toList, filterMap_cons_toList, ← List.append_assoc,
        List.append_assoc (Option.toList _)]
      have first := (conserves state input start).append_right
        ((run step (step state input).2 rest).1.filterMap taken)
      have later := (ih (keeps state input start)).append_left (given (step state input).1).toList
      rw [List.append_assoc (Option.toList _)] at first
      exact first.trans later

-- Conditions on every step

/-- Every step along a run is admitted in the state it is taken in. -/
def Along (step : σ → ι → ρ × σ) (Admits : σ → ι → Prop) : σ → List ι → Prop
  | _, [] => True
  | state, input :: rest => Admits state input ∧ Along step Admits (step state input).2 rest

variable {step : σ → ι → ρ × σ} {Admits : σ → ι → Prop} {Inv Good : σ → Prop}

/-- Conditions that agree where an invariant holds agree along a run. -/
theorem along_congr {Other : σ → ι → Prop} {Allowed : ι → Prop}
    (keeps : ∀ state input, Inv state → Allowed input → Inv (step state input).2)
    (same : ∀ state input, Inv state → Allowed input → (Admits state input ↔ Other state input))
    {state : σ} (start : Inv state) {inputs : List ι} (allowed : ∀ input ∈ inputs, Allowed input)
    : Along step Admits state inputs ↔ Along step Other state inputs := by
  induction inputs generalizing state with
  | nil => exact Iff.rfl
  | cons input rest ih =>
      have first := allowed input List.mem_cons_self
      exact and_congr (same state input start first) (ih (keeps state input start first)
        (fun later member => allowed later (List.mem_cons_of_mem _ member)))

/-- Conditions that agree on the admitted steps from states with an invariant agree along an
admitted run, when the steps that meet the second condition keep the invariant.
-/
theorem along_iff_along {Left Right : σ → ι → Prop}
    (keeps : ∀ state input, Inv state → Admits state input → Right state input →
      Inv (step state input).2)
    (same : ∀ state input, Inv state → Admits state input → (Left state input ↔ Right state input))
    {state : σ} (start : Inv state) {inputs : List ι} (admitted : Along step Admits state inputs)
    : Along step Left state inputs ↔ Along step Right state inputs := by
  induction inputs generalizing state with
  | nil => exact Iff.rfl
  | cons input rest ih =>
      obtain ⟨first, later⟩ := admitted
      have here := same state input start first
      constructor
      · rintro ⟨left, others⟩
        have right := here.mp left
        exact ⟨right, (ih (keeps state input start first right) later).mp others⟩
      · rintro ⟨right, others⟩
        exact ⟨here.mpr right, (ih (keeps state input start first right) later).mpr others⟩

/-- What holds of every step holds along a run. -/
theorem along_of_forall (admits : ∀ state input, Admits state input) (state : σ)
    (inputs : List ι)
    : Along step Admits state inputs := by
  induction inputs generalizing state with
  | nil => trivial
  | cons input rest ih => exact ⟨admits state input, ih (step state input).2⟩

/-- When admitted steps keep an invariant that makes states good, and the other steps lead to a bad
state, all states of a run are good exactly when all its steps are admitted.
-/
theorem always_iff_along_of_invariant (good : ∀ state, Inv state → Good state)
    (keeps : ∀ state input, Inv state → Admits state input → Inv (step state input).2)
    (breaks : ∀ state input, Inv state → Good (step state input).2 → Admits state input)
    {state : σ} (start : Inv state) (inputs : List ι)
    : (∀ earlier, earlier <+: inputs → Good (run step state earlier).2)
      ↔ Along step Admits state inputs := by
  induction inputs generalizing state with
  | nil =>
      refine ⟨fun _ => trivial, fun _ earlier isPrefix => ?_⟩
      rw [List.prefix_nil.mp isPrefix]
      exact good state start
  | cons input rest ih =>
      constructor
      · intro always
        have admitted := breaks state input start (always [input] ⟨rest, rfl⟩)
        refine ⟨admitted, (ih (keeps state input start admitted)).mp ?_⟩
        intro earlier isPrefix
        exact always (input :: earlier) (List.cons_prefix_cons.mpr ⟨rfl, isPrefix⟩)
      · rintro ⟨admitted, later⟩ earlier isPrefix
        cases earlier with
        | nil => exact good state start
        | cons first tail =>
            obtain ⟨rfl, inner⟩ := List.cons_prefix_cons.mp isPrefix
            exact (ih (keeps state first start admitted)).mpr later tail inner

/-- The same where a good state stays good exactly by the admitted steps. -/
theorem always_iff_along (keeps : ∀ state input, Inv state → Inv (step state input).2)
    (sharp : ∀ state input, Inv state → Good state →
      (Good (step state input).2 ↔ Admits state input))
    {state : σ} (start : Inv state) (good : Good state) (inputs : List ι)
    : (∀ earlier, earlier <+: inputs → Good (run step state earlier).2)
      ↔ Along step Admits state inputs := by
  refine @always_iff_along_of_invariant _ _ _ step Admits (fun state => Inv state ∧ Good state) Good
    (fun _ both => both.2) ?_ ?_ state ⟨start, good⟩ inputs
  · intro state input both admitted
    exact ⟨keeps state input both.1, (sharp state input both.1 both.2).mpr admitted⟩
  · intro state input both next
    exact (sharp state input both.1 both.2).mp next

/-- When moreover a bad state stays bad, the last state of the run tells. -/
theorem finally_iff_along (keeps : ∀ state input, Inv state → Inv (step state input).2)
    (sharp : ∀ state input, Inv state →
      (Good (step state input).2 ↔ Good state ∧ Admits state input))
    {state : σ} (start : Inv state) (inputs : List ι)
    : Good (run step state inputs).2 ↔ Good state ∧ Along step Admits state inputs := by
  induction inputs generalizing state with
  | nil => exact (and_iff_left trivial).symm
  | cons input rest ih =>
      calc Good (run step state (input :: rest)).2
          ↔ Good (step state input).2 ∧ Along step Admits (step state input).2 rest :=
            ih (keeps state input start)
        _ ↔ (Good state ∧ Admits state input) ∧ Along step Admits (step state input).2 rest :=
            and_congr_left' (sharp state input start)
        _ ↔ Good state ∧ Along step Admits state (input :: rest) := and_assoc

end MiniKv.Foundations.Runs
