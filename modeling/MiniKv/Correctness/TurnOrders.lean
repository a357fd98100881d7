import MiniKv.Invariants.Mutations

/-! The order in which threads append their records and the order in which memory sees their calls,
as long as no call fails.
-/

namespace MiniKv

variable {machine : Machine} {turn : Turn} {id : Nat} {thread : Thread}

-- The two orders

/-- The call whose record this turn appends. -/
def Machine.wroteBy (machine : Machine) (turn : Turn) : Option (Nat × Mutation) :=
  match machine.threads[turn.id]? with
  | none => none
  | some thread =>
      match thread.phase with
      | .locked _ =>
          if (thread.mutation.append thread.env machine.store).1 = kvOk then
            some (turn.id, thread.mutation)
          else none
      | _ => none

/-- The call that this turn applies to memory. -/
def Machine.appliedBy (machine : Machine) (turn : Turn) : Option (Nat × Mutation) :=
  match machine.threads[turn.id]? with
  | none => none
  | some thread =>
      match thread.phase with
      | .logged _ _ =>
          if (thread.mutation.apply thread.env machine.store).1 = kvOk then
            some (turn.id, thread.mutation)
          else none
      | _ => none

/-- What the turns of a schedule do, one after the other. -/
def Machine.trace {α : Type} (does : Machine → Turn → Option α) : Machine → List Turn → List α
  | _, [] => []
  | machine, turn :: rest =>
      (does machine turn).toList ++ Machine.trace does (machine.step turn).2 rest

/-- The calls in the order of their records in the log. -/
def Machine.logOrder (machine : Machine) (turns : List Turn) : List (Nat × Mutation) :=
  machine.trace Machine.wroteBy turns

/-- The calls in the order in which memory saw them. -/
def Machine.applyOrder (machine : Machine) (turns : List Turn) : List (Nat × Mutation) :=
  machine.trace Machine.appliedBy turns

/-- The calls for one key. -/
def callsFor (key : CString) (calls : List (Nat × Mutation)) : List (Nat × Mutation) :=
  calls.filter (fun call => call.2.key = key)

theorem callsFor_append (key : CString) (first second : List (Nat × Mutation))
    : callsFor key (first ++ second) = callsFor key first ++ callsFor key second :=
  List.filter_append ..

theorem callsFor_self (call : Nat × Mutation) : callsFor call.2.key [call] = [call] := by
  simp [callsFor]

theorem callsFor_other {key : CString} {call : Nat × Mutation} (other : call.2.key ≠ key)
    : callsFor key [call] = [] := by
  simp [callsFor, other]

-- What a turn can do

/-- The call has failed, whether or not it has returned already. -/
def Thread.spoiled (thread : Thread) : Bool :=
  match thread.phase with
  | .failed _ _ status | .returned status => status ≠ kvOk
  | _ => false

/-- Some call has failed. -/
def Machine.Spoiled (machine : Machine) : Prop :=
  ∃ (id : Nat) (thread : Thread), machine.threads[id]? = some thread ∧ thread.spoiled = true

/-- A call that undoes its record has a reason. -/
def Machine.Honest (machine : Machine) : Prop :=
  ∀ (id : Nat) (thread : Thread), machine.threads[id]? = some thread →
    ∀ all pos status, thread.phase = .failed all pos status → status ≠ kvOk

/-- A turn that fails no call: nothing happens, a lock is taken, a record is appended, or a mutation
is applied.
-/
inductive Machine.Progress (machine : Machine) (turn : Turn) : Machine → Prop where
  | idle (silent : machine.wroteBy turn = none) (still : machine.appliedBy turn = none)
      : Progress machine turn machine
  | took {thread : Thread} (here : machine.threads[turn.id]? = some thread)
      (ready : thread.phase = .ready) (all : Bool)
      (free : (machine.threads.eraseIdx turn.id).all
        (fun other => other.allows machine.numLocks all thread.mutation.key) = true)
      (silent : machine.wroteBy turn = none) (still : machine.appliedBy turn = none)
      : Progress machine turn (machine.advance turn.id (.locked all)
          (thread.mutation.prepare thread.env machine.store))
  | wrote {thread : Thread} (here : machine.threads[turn.id]? = some thread) {all : Bool}
      (locked : thread.phase = .locked all)
      (written : (thread.mutation.append thread.env machine.store).1 = kvOk)
      (appends : machine.wroteBy turn = some (turn.id, thread.mutation))
      (still : machine.appliedBy turn = none)
      : Progress machine turn (machine.advance turn.id
          (.logged all (thread.mutation.append thread.env machine.store).2.1)
          (thread.mutation.append thread.env machine.store).2.2)
  | applied {thread : Thread} (here : machine.threads[turn.id]? = some thread) {all : Bool}
      {pos : Option Nat} (logged : thread.phase = .logged all pos)
      (worked : (thread.mutation.apply thread.env machine.store).1 = kvOk)
      (silent : machine.wroteBy turn = none)
      (applies : machine.appliedBy turn = some (turn.id, thread.mutation))
      : Progress machine turn (machine.advance turn.id (.returned kvOk)
          (thread.mutation.apply thread.env machine.store).2)

theorem Machine.Spoiled.of_advance (here : machine.threads[id]? = some thread) {phase : Phase}
    {store : Store} (spoiled : Thread.spoiled { thread with phase } = true)
    : (machine.advance id phase store).Spoiled :=
  ⟨id, _, Machine.advance_get here phase store, spoiled⟩

/-- Only a thread that is about to append, or to apply, counts in the two orders. -/
theorem Machine.wroteBy_eq_none (other : ∀ thread, machine.threads[turn.id]? = some thread →
      ∀ all, thread.phase ≠ .locked all)
    : machine.wroteBy turn = none := by
  cases here : machine.threads[turn.id]? with
  | none => simp only [Machine.wroteBy, here]
  | some thread =>
      cases phase : thread.phase with
      | locked all => exact absurd phase (other thread here all)
      | _ => simp only [Machine.wroteBy, here, phase]

theorem Machine.appliedBy_eq_none (other : ∀ thread, machine.threads[turn.id]? = some thread →
      ∀ all pos, thread.phase ≠ .logged all pos)
    : machine.appliedBy turn = none := by
  cases here : machine.threads[turn.id]? with
  | none => simp only [Machine.appliedBy, here]
  | some thread =>
      cases phase : thread.phase with
      | logged all pos => exact absurd phase (other thread here all pos)
      | _ => simp only [Machine.appliedBy, here, phase]

/-- A turn makes progress or fails a call. -/
theorem Machine.step_progress (honest : machine.Honest) (turn : Turn)
    : machine.Progress turn (machine.step turn).2 ∨ (machine.step turn).2.Spoiled := by
  have turned := machine.step_turned turn
  generalize machine.step turn = stepped at turned ⊢
  -- Everybody whose call is elsewhere appends nothing and applies nothing.
  have silent {thread : Thread} (here : machine.threads[turn.id]? = some thread)
      (other : ∀ all, thread.phase ≠ .locked all) : machine.wroteBy turn = none :=
    Machine.wroteBy_eq_none fun _ found => Option.some.inj (here.symm.trans found) ▸ other
  have still {thread : Thread} (here : machine.threads[turn.id]? = some thread)
      (other : ∀ all pos, thread.phase ≠ .logged all pos) : machine.appliedBy turn = none :=
    Machine.appliedBy_eq_none fun _ found => Option.some.inj (here.symm.trans found) ▸ other
  cases turned with
  | still waits =>
      refine .inl (.idle (Machine.wroteBy_eq_none ?_) (Machine.appliedBy_eq_none ?_))
      · intro thread found
        rcases waits thread found with ready | ⟨status, returned⟩
        · simp [ready]
        · simp [returned]
      · intro thread found
        rcases waits thread found with ready | ⟨status, returned⟩
        · simp [ready]
        · simp [returned]
  | refused here ready invalid =>
      exact .inr (.of_advance here (decide_eq_true (Mutation.check_error invalid)))
  | took here ready all free =>
      exact .inl (.took here ready all free (silent here (by simp [ready]))
        (still here (by simp [ready])))
  | unwritten here locked failed => exact .inr (.of_advance here (decide_eq_true failed))
  | wrote here locked written =>
      exact .inl (.wrote here locked written
        (by simp only [Machine.wroteBy, here, locked, written, if_true])
        (still here (by simp [locked])))
  | @ended thread here all pos logged settled =>
      by_cases worked : (thread.mutation.apply thread.env machine.store).1 = kvOk
      · rw [worked]
        exact .inl (.applied here logged worked (silent here (by simp [logged]))
          (by simp only [Machine.appliedBy, here, logged, worked, if_true]))
      · exact .inr (.of_advance here (decide_eq_true worked))
  | doomed here logged failed => exact .inr (.of_advance here (decide_eq_true failed))
  | @undid thread here all pos status failed =>
      exact .inr (.of_advance here
        (decide_eq_true (honest turn.id thread here all pos status failed)))

/-- A turn moves one thread: it undoes a record for a reason, and a failed call stays failed. -/
theorem Machine.step_moves (machine : Machine) (turn : Turn)
    : (machine.step turn).2 = machine
      ∨ ∃ (thread : Thread) (phase : Phase) (store : Store),
          machine.threads[turn.id]? = some thread
          ∧ (machine.step turn).2 = machine.advance turn.id phase store
          ∧ (∀ all pos status, phase = .failed all pos status → status ≠ kvOk)
          ∧ (thread.spoiled = true → Thread.spoiled { thread with phase } = true) := by
  have turned := machine.step_turned turn
  generalize machine.step turn = stepped at turned ⊢
  cases turned with
  | still => exact .inl rfl
  | refused here ready =>
      exact .inr ⟨_, .returned _, _, here, rfl, by simp, by simp [Thread.spoiled, ready]⟩
  | took here ready =>
      exact .inr ⟨_, .locked _, _, here, rfl, by simp, by simp [Thread.spoiled, ready]⟩
  | unwritten here locked =>
      exact .inr ⟨_, .returned _, _, here, rfl, by simp, by simp [Thread.spoiled, locked]⟩
  | wrote here locked =>
      exact .inr ⟨_, .logged _ _, _, here, rfl, by simp, by simp [Thread.spoiled, locked]⟩
  | ended here logged =>
      exact .inr ⟨_, .returned _, _, here, rfl, by simp, by simp [Thread.spoiled, logged]⟩
  | doomed here logged failed =>
      refine .inr ⟨_, .failed _ _ _, _, here, rfl, ?_, by simp [Thread.spoiled, logged]⟩
      rintro _ _ _ ⟨⟩
      exact failed
  | undid here failed =>
      exact .inr ⟨_, .returned _, _, here, rfl, by simp, by simp [Thread.spoiled, failed]⟩

theorem Machine.Honest.step (honest : machine.Honest) (turn : Turn)
    : (machine.step turn).2.Honest := by
  rcases machine.step_moves turn with same | ⟨thread, phase, store, here, moved, reason, _⟩
  · rwa [same]
  · rw [moved]
    intro id other found all pos status failed
    by_cases own : id = turn.id
    · subst own
      rw [Machine.advance_get here, Option.some.injEq] at found
      subst found
      exact reason all pos status failed
    · rw [Machine.advance_get_ne own] at found
      exact honest id other found all pos status failed

theorem Machine.Spoiled.step (spoiled : machine.Spoiled) (turn : Turn)
    : (machine.step turn).2.Spoiled := by
  obtain ⟨id, other, found, failed⟩ := spoiled
  rcases machine.step_moves turn with same | ⟨thread, phase, store, here, moved, _, stays⟩
  · rw [same]
    exact ⟨id, other, found, failed⟩
  · rw [moved]
    by_cases own : id = turn.id
    · subst own
      obtain rfl := Option.some.inj (here.symm.trans found)
      exact .of_advance here (stays failed)
    · exact ⟨id, other, (Machine.advance_get_ne own phase store).trans found, failed⟩

theorem Machine.Spoiled.run (spoiled : machine.Spoiled) (turns : List Turn)
    : (machine.run turns).2.Spoiled :=
  @Foundations.Runs.run_invariant _ _ _ Machine.step (fun _ => True) Machine.Spoiled
    (fun _ turn spoiled _ => spoiled.step turn) machine spoiled turns (fun _ _ => trivial)

/-- What every turn without a failure keeps holds at the end of a run in which no call failed, with
the calls in the two orders so far.
-/
theorem Machine.run_progress {Inv : Machine → List (Nat × Mutation) → List (Nat × Mutation) → Prop}
    (keeps : ∀ machine turn after wrote applied, machine.Progress turn after →
      Inv machine wrote applied →
        Inv after (wrote ++ (machine.wroteBy turn).toList)
          (applied ++ (machine.appliedBy turn).toList))
    (honest : machine.Honest) {wrote applied : List (Nat × Mutation)}
    (start : Inv machine wrote applied) {turns : List Turn}
    (whole : ¬ (machine.run turns).2.Spoiled)
    : Inv (machine.run turns).2 (wrote ++ machine.logOrder turns)
        (applied ++ machine.applyOrder turns) := by
  induction turns generalizing machine wrote applied with
  | nil =>
      simp only [Machine.logOrder, Machine.applyOrder, Machine.trace, List.append_nil]
      exact start
  | cons turn rest ih =>
      have later : ¬ (machine.step turn).2.Spoiled := fun spoiled => whole (spoiled.run rest)
      have progress := (machine.step_progress honest turn).resolve_right later
      have ended := ih (honest.step turn) (keeps machine turn _ wrote applied progress start) whole
      simp only [List.append_assoc] at ended
      exact ended

end MiniKv
