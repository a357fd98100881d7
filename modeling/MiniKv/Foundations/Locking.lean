import Mathlib.Tactic

/-! Programs that take and give back mutexes. A program is the control flow of some code with
everything left out but its mutex operations and the tests that decide about them; threads run such
programs in any interleaving. Programs that take mutexes in a fixed order never wait in a circle.
-/

namespace MiniKv.Foundations.Locking

variable {μ ρ α β : Type}

/-- A program over mutexes of type `μ`. The outcome of a test is left to the run. -/
inductive Program (μ : Type) (α : Type) where
  | done (result : α)
  | acquire (mutex : μ) (next : Program μ α)
  | release (mutex : μ) (next : Program μ α)
  | test (next : Bool → Program μ α)

namespace Program

def bind : Program μ α → (α → Program μ β) → Program μ β
  | .done result, rest => rest result
  | .acquire mutex next, rest => .acquire mutex (next.bind rest)
  | .release mutex next, rest => .release mutex (next.bind rest)
  | .test next, rest => .test (fun outcome => (next outcome).bind rest)

instance instMonadProgram : Monad (Program μ) where
  pure := .done
  bind := .bind

end Program

def acquire (mutex : μ) : Program μ Unit := .acquire mutex (.done ())

def release (mutex : μ) : Program μ Unit := .release mutex (.done ())

def test : Program μ Bool := .test .done

-- Preconditions

variable [DecidableEq μ] [Preorder ρ] {rank : μ → ρ} {held : List μ}

/-- Started with some mutexes held, the program takes only mutexes that rank above all it holds,
gives back only what it holds, and ends as `post` says of its result and what it holds then.
-/
def Ordered (rank : μ → ρ) : Program μ α → List μ → (α → List μ → Prop) → Prop
  | .done result, held, post => post result held
  | .acquire mutex next, held, post =>
      (∀ other ∈ held, rank other < rank mutex) ∧ Ordered rank next (mutex :: held) post
  | .release mutex next, held, post => mutex ∈ held ∧ Ordered rank next (held.erase mutex) post
  | .test next, held, post => ∀ outcome, Ordered rank (next outcome) held post

@[simp]
theorem ordered_acquire (mutex : μ) (post : Unit → List μ → Prop)
    : Ordered rank (acquire mutex) held post
      ↔ (∀ other ∈ held, rank other < rank mutex) ∧ post () (mutex :: held) :=
  .rfl

@[simp]
theorem ordered_release (mutex : μ) (post : Unit → List μ → Prop)
    : Ordered rank (release mutex) held post ↔ mutex ∈ held ∧ post () (held.erase mutex) :=
  .rfl

@[simp]
theorem ordered_test (post : Bool → List μ → Prop)
    : Ordered rank test held post ↔ ∀ outcome, post outcome held :=
  .rfl

/-- By induction on the first program: what it leaves is what the rest starts with. -/
@[simp]
theorem ordered_bind (program : Program μ α) (rest : α → Program μ β)
    (post : β → List μ → Prop)
    : Ordered rank (program >>= rest) held post
      ↔ Ordered rank program held (fun result held => Ordered rank (rest result) held post) := by
  change Ordered rank (program.bind rest) held post ↔ _
  induction program generalizing held with
  | done result => exact .rfl
  | acquire mutex next ih => exact and_congr .rfl ih
  | release mutex next ih => exact and_congr .rfl ih
  | test next ih => exact forall_congr' (fun outcome => ih outcome)

theorem Ordered.mono {program : Program μ α} {post weaker : α → List μ → Prop}
    (ordered : Ordered rank program held post)
    (implies : ∀ result held, post result held → weaker result held)
    : Ordered rank program held weaker := by
  induction program generalizing held with
  | done result => exact implies result held ordered
  | acquire mutex next ih => exact ⟨ordered.1, ih ordered.2⟩
  | release mutex next ih => exact ⟨ordered.1, ih ordered.2⟩
  | test next ih => exact fun outcome => ih outcome (ordered outcome)

/-- A branch on the outcome of a test. -/
theorem Ordered.ifTest {yes no : Program μ α} {post : α → List μ → Prop}
    (onTrue : Ordered rank yes held post) (onFalse : Ordered rank no held post)
    : Ordered rank (do if ← test then yes else no) held post := by
  rw [ordered_bind, ordered_test]
  intro outcome
  cases outcome with
  | true => exact onTrue
  | false => exact onFalse

/-- A mutex above all that is held is taken first. -/
theorem Ordered.acquiring {mutex : μ} {rest : Program μ α} {post : α → List μ → Prop}
    (above : ∀ other ∈ held, rank other < rank mutex)
    (later : Ordered rank rest (mutex :: held) post)
    : Ordered rank (do acquire mutex; rest) held post := by
  rw [ordered_bind, ordered_acquire]
  exact ⟨above, later⟩

/-- The mutex taken last is given back first. -/
theorem Ordered.releasing {mutex : μ} {rest : Program μ α} {post : α → List μ → Prop}
    (later : Ordered rank rest held post)
    : Ordered rank (do release mutex; rest) (mutex :: held) post := by
  rw [ordered_bind, ordered_release, List.erase_cons_head]
  exact ⟨List.mem_cons_self, later⟩

theorem ordered_release_head {mutex : μ} {post : Unit → List μ → Prop} (later : post () held)
    : Ordered rank (release mutex) (mutex :: held) post := by
  rw [ordered_release, List.erase_cons_head]
  exact ⟨List.mem_cons_self, later⟩

/-- In the end the program holds what it held at the start. -/
def Keeps (rank : μ → ρ) (program : Program μ α) (held : List μ) : Prop :=
  Ordered rank program held (fun _ after => after = held)

/-- The rule for calling a program that keeps what is held. -/
theorem Keeps.apply {program : Program μ α} (keeps : Keeps rank program held)
    {post : α → List μ → Prop} (rest : ∀ result, post result held)
    : Ordered rank program held post := by
  refine Ordered.mono keeps ?_
  rintro result _ rfl
  exact rest result

theorem Keeps.andThen {program : Program μ α} {rest : α → Program μ β}
    {post : β → List μ → Prop} (keeps : Keeps rank program held)
    (later : ∀ result, Ordered rank (rest result) held post)
    : Ordered rank (program >>= rest) held post :=
  (ordered_bind program rest post).mpr (keeps.apply later)

theorem keeps_pure (result : α) : Keeps rank (pure result) held :=
  rfl

-- Threads

/-- What a thread has still to do and the mutexes it holds, one entry for each time. -/
structure Thread (μ : Type) where
  program : Program μ Unit
  held : List μ

/-- Threads that share mutexes; a recursive mutex may be taken again by its owner. -/
structure System (μ : Type) where
  recursive : μ → Bool
  threads : List (Thread μ)

/-- A thread is about to take a mutex. -/
def System.Wants (system : System μ) (id : Nat) (mutex : μ) : Prop :=
  ∃ (thread : Thread μ) (next : Program μ Unit),
    system.threads[id]? = some thread ∧ thread.program = .acquire mutex next

def System.Holds (system : System μ) (id : Nat) (mutex : μ) : Prop :=
  ∃ thread : Thread μ, system.threads[id]? = some thread ∧ mutex ∈ thread.held

/-- A thread cannot go on because of a mutex that another one holds, or because of one that it holds
itself and that is not recursive.
-/
def System.WaitsFor (system : System μ) (id other : Nat) : Prop :=
  ∃ mutex, system.Wants id mutex ∧ system.Holds other mutex
    ∧ (other = id → system.recursive mutex = false)

/-- Whether a thread that holds some mutexes can take one now. -/
def System.available (system : System μ) (id : Nat) (held : List μ) (mutex : μ) : Bool :=
  (system.threads.eraseIdx id).all (fun other => mutex ∉ other.held)
    && (system.recursive mutex || mutex ∉ held)

/-- The turn of a thread, with the outcome of the test it may come to. -/
structure Turn where
  id : Nat
  outcome : Bool

/-- What a thread does in its turn. A thread that cannot take its mutex waits. -/
def System.act (system : System μ) (turn : Turn) (thread : Thread μ) : Thread μ :=
  match thread.program with
  | .done _ => thread
  | .acquire mutex next =>
      if system.available turn.id thread.held mutex then ⟨next, mutex :: thread.held⟩ else thread
  | .release mutex next => ⟨next, thread.held.erase mutex⟩
  | .test next => ⟨next turn.outcome, thread.held⟩

def System.step (system : System μ) (turn : Turn) : System μ :=
  { system with threads := system.threads.modify turn.id (system.act turn) }

def System.run (system : System μ) (turns : List Turn) : System μ :=
  turns.foldl System.step system

def System.start (recursive : μ → Bool) (programs : List (Program μ Unit)) : System μ :=
  { recursive, threads := programs.map (fun program => ⟨program, []⟩) }

-- No circular wait

variable {system : System μ}

/-- Every thread keeps the order in all it has still to do. -/
def System.Disciplined (rank : μ → ρ) (system : System μ) : Prop :=
  ∀ thread ∈ system.threads, Ordered rank thread.program thread.held (fun _ _ => True)

theorem System.act_ordered {turn : Turn} {thread : Thread μ}
    (ordered : Ordered rank thread.program thread.held (fun _ _ => True))
    : Ordered rank (system.act turn thread).program (system.act turn thread).held
        (fun _ _ => True) := by
  simp only [System.act]
  cases program : thread.program with
  | done result => exact ordered
  | acquire mutex next =>
      rw [program] at ordered
      simp only
      split
      · exact ordered.2
      · rw [program]
        exact ordered
  | release mutex next =>
      rw [program] at ordered
      exact ordered.2
  | test next =>
      rw [program] at ordered
      exact ordered turn.outcome

theorem System.Disciplined.step (disciplined : system.Disciplined rank) (turn : Turn)
    : (system.step turn).Disciplined rank := by
  intro thread member
  obtain ⟨index, found⟩ := List.mem_iff_getElem?.mp member
  rw [System.step, List.getElem?_modify] at found
  obtain ⟨before, here, rfl⟩ := Option.map_eq_some_iff.mp found
  have ordered := disciplined before (List.mem_of_getElem? here)
  split
  · exact System.act_ordered ordered
  · exact ordered

/-- By induction on the turns. -/
theorem System.Disciplined.run (disciplined : system.Disciplined rank) (turns : List Turn)
    : (system.run turns).Disciplined rank := by
  induction turns generalizing system with
  | nil => exact disciplined
  | cons turn rest ih => exact ih (disciplined.step turn)

/-- A thread wants nothing below what it holds. -/
theorem System.Disciplined.below (disciplined : system.Disciplined rank) {id : Nat}
    {wanted owned : μ} (wants : system.Wants id wanted) (holds : system.Holds id owned)
    : rank owned < rank wanted := by
  obtain ⟨thread, next, here, program⟩ := wants
  obtain ⟨same, found, member⟩ := holds
  obtain rfl := Option.some.inj (here.symm.trans found)
  have ordered := disciplined thread (List.mem_of_getElem? here)
  rw [program] at ordered
  exact ordered.1 owned member

/-- By induction on the chain: the ranks of the mutexes waited for do not go down. -/
theorem System.Disciplined.chain (disciplined : system.Disciplined rank) {id last : Nat}
    (chain : Relation.TransGen system.WaitsFor id last)
    : ∃ wanted owned, system.Wants id wanted ∧ system.Holds last owned
        ∧ rank wanted ≤ rank owned := by
  induction chain with
  | single waits =>
      obtain ⟨mutex, wants, holds, _⟩ := waits
      exact ⟨mutex, mutex, wants, holds, le_refl _⟩
  | tail _ waits ih =>
      obtain ⟨wanted, owned, wants, holds, lower⟩ := ih
      obtain ⟨mutex, alsoWants, alsoHolds, _⟩ := waits
      exact ⟨wanted, mutex, wants, alsoHolds,
        lower.trans (disciplined.below alsoWants holds).le⟩

/-- Threads that take mutexes in the order of their ranks never wait in a circle, not even one for
itself.
-/
theorem System.Disciplined.no_cycle (disciplined : system.Disciplined rank) (id : Nat)
    : ¬ Relation.TransGen system.WaitsFor id id := by
  intro cycle
  obtain ⟨wanted, owned, wants, holds, lower⟩ := disciplined.chain cycle
  exact absurd (disciplined.below wants holds) (not_lt_of_ge lower)

/-- Programs that keep the order from no mutex on stay disciplined in every run. -/
theorem System.start_disciplined {programs : List (Program μ Unit)}
    (keeps : ∀ program ∈ programs, Keeps rank program []) (recursive : μ → Bool)
    (turns : List Turn)
    : ((System.start recursive programs).run turns).Disciplined rank := by
  refine System.Disciplined.run ?_ turns
  intro thread member
  obtain ⟨program, started, rfl⟩ := List.mem_map.mp member
  exact (keeps program started).apply (fun _ => trivial)

end MiniKv.Foundations.Locking
