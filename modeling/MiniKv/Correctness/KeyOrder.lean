import MiniKv.Correctness.TurnOrders

/-! The log and memory see the calls for a key in one order: a call holds the lock of its key from
its append to its application. The log holds the records in their order.
-/

namespace MiniKv

variable {machine : Machine} {turn : Turn} {id : Nat} {thread : Thread} {store : Store}

-- The order of each key

/-- Threads that hold locks work on different keys. -/
def Machine.Apart (machine : Machine) : Prop :=
  ∀ (first second : Nat) (thread rival : Thread), first ≠ second →
    machine.threads[first]? = some thread → machine.threads[second]? = some rival →
    thread.holdsAll ≠ none → rival.holdsAll ≠ none → thread.mutation.key ≠ rival.mutation.key

/-- The call has its record in the log and is not applied. -/
def Thread.pends (thread : Thread) : Bool :=
  match thread.phase with
  | .logged _ _ => true
  | _ => false

/-- The log and memory have seen the same calls for a key, but for one that still pends. -/
def Machine.InTurn (machine : Machine) (wrote applied : List (Nat × Mutation)) (key : CString)
    : Prop :=
  ((∀ (id : Nat) (thread : Thread), machine.threads[id]? = some thread →
        thread.pends = true → thread.mutation.key ≠ key)
      ∧ callsFor key wrote = callsFor key applied)
    ∨ ∃ (id : Nat) (thread : Thread), machine.threads[id]? = some thread
      ∧ thread.pends = true ∧ thread.mutation.key = key
      ∧ callsFor key wrote = callsFor key applied ++ [(id, thread.mutation)]

theorem Thread.pends_holds (pends : thread.pends = true) : thread.holdsAll ≠ none := by
  cases phase : thread.phase with
  | logged all pos => simp [Thread.holdsAll, phase]
  | _ => simp [Thread.pends, phase] at pends

/-- A thread moves on, and holds locks only if it did or no other thread stands in its way. -/
theorem Machine.Apart.advance (apart : machine.Apart) (here : machine.threads[id]? = some thread)
    {phase : Phase} {store : Store}
    (free : Thread.holdsAll { thread with phase } ≠ none → thread.holdsAll ≠ none
      ∨ ∀ (other : Nat) (rival : Thread), other ≠ id → machine.threads[other]? = some rival →
          rival.holdsAll ≠ none → thread.mutation.key ≠ rival.mutation.key)
    : (machine.advance id phase store).Apart := by
  have own (other : Nat) (rival : Thread) (different : other ≠ id)
      (found : machine.threads[other]? = some rival) (held : rival.holdsAll ≠ none)
      (holds : Thread.holdsAll { thread with phase } ≠ none) :
      thread.mutation.key ≠ rival.mutation.key := by
    rcases free holds with before | taken
    · exact apart id other thread rival different.symm here found before held
    · exact taken other rival different found held
  intro first second left right different foundLeft foundRight holdsLeft holdsRight
  by_cases isFirst : first = id
  · subst isFirst
    rw [Machine.advance_get here, Option.some.injEq] at foundLeft
    rw [Machine.advance_get_ne different.symm] at foundRight
    subst foundLeft
    exact own second right different.symm foundRight holdsRight holdsLeft
  · rw [Machine.advance_get_ne isFirst] at foundLeft
    by_cases isSecond : second = id
    · subst isSecond
      rw [Machine.advance_get here, Option.some.injEq] at foundRight
      subst foundRight
      exact (own first left isFirst foundLeft holdsLeft holdsRight).symm
    · rw [Machine.advance_get_ne isSecond] at foundRight
      exact apart first second left right different foundLeft foundRight holdsLeft holdsRight

/-- While a thread holds locks, no other call pends for its key. -/
theorem Machine.Apart.alone (apart : machine.Apart) (here : machine.threads[id]? = some thread)
    (holds : thread.holdsAll ≠ none) (other : Nat) (rival : Thread) (different : other ≠ id)
    (found : machine.threads[other]? = some rival) (pends : rival.pends = true)
    : rival.mutation.key ≠ thread.mutation.key :=
  apart other id rival thread different found here (Thread.pends_holds pends) holds

/-- A thread that takes its lock keeps apart from all others that hold one. -/
theorem Thread.allows_apart {rival : Thread} {numLocks : Nat} {all : Bool} {key : CString}
    (allows : rival.allows numLocks all key = true) (held : rival.holdsAll ≠ none)
    : key ≠ rival.mutation.key := by
  rintro rfl
  cases holds : rival.holdsAll with
  | none => exact held holds
  | some every => simp [Thread.allows, holds] at allows

/-- By the kind of progress: whoever holds locks keeps away from the others' keys. -/
theorem Machine.Apart.progress {after : Machine} (apart : machine.Apart)
    (progress : machine.Progress turn after)
    : after.Apart := by
  cases progress with
  | idle => exact apart
  | took here ready all free =>
      refine apart.advance here (fun _ => .inr ?_)
      intro other rival different found held
      exact Thread.allows_apart (List.all_eq_true.mp free rival
        (List.mem_eraseIdx_iff_getElem?.mpr ⟨other, different, found⟩)) held
  | wrote here locked =>
      exact apart.advance here (fun _ => .inl (by simp [Thread.holdsAll, locked]))
  | applied here logged =>
      exact apart.advance here (fun _ => .inl (by simp [Thread.holdsAll, logged]))

/-- A thread moves on that is about another key, or pends neither before nor after. -/
theorem Machine.InTurn.frame {wrote applied : List (Nat × Mutation)} {key : CString}
    (inTurn : machine.InTurn wrote applied key) (here : machine.threads[id]? = some thread)
    {phase : Phase} {store : Store}
    (aside : thread.mutation.key = key →
      thread.pends = false ∧ Thread.pends { thread with phase } = false)
    {logged memory : List (Nat × Mutation)} (sameLog : callsFor key logged = callsFor key wrote)
    (sameMemory : callsFor key memory = callsFor key applied)
    : (machine.advance id phase store).InTurn logged memory key := by
  rw [Machine.InTurn, sameLog, sameMemory]
  rcases inTurn with ⟨none, same⟩ | ⟨pending, waiting, found, pends, own, last⟩
  · refine .inl ⟨?_, same⟩
    intro index moved found pends
    by_cases isHere : index = id
    · subst isHere
      rw [Machine.advance_get here, Option.some.injEq] at found
      subst found
      intro own
      exact absurd ((aside own).2.symm.trans pends) Bool.false_ne_true
    · rw [Machine.advance_get_ne isHere] at found
      exact none index moved found pends
  · refine .inr ⟨pending, waiting, ?_, pends, own, last⟩
    have different : pending ≠ id := by
      rintro rfl
      obtain rfl := Option.some.inj (here.symm.trans found)
      exact absurd ((aside own).1.symm.trans pends) Bool.false_ne_true
    rw [Machine.advance_get_ne different]
    exact found

/-- By the kind of progress. A record is appended while nothing pends for its key, and what is
applied is the call that pends: another one for the key would hold the same lock.
-/
theorem Machine.InTurn.progress {after : Machine} {wrote applied : List (Nat × Mutation)}
    (inTurn : ∀ key, machine.InTurn wrote applied key) (apart : machine.Apart)
    (progress : machine.Progress turn after) (key : CString)
    : after.InTurn (wrote ++ (machine.wroteBy turn).toList)
        (applied ++ (machine.appliedBy turn).toList) key := by
  cases progress with
  | idle silent still =>
      rw [silent, still, Option.toList_none, List.append_nil, List.append_nil]
      exact inTurn key
  | took here ready all free silent still =>
      rw [silent, still, Option.toList_none, List.append_nil, List.append_nil]
      exact (inTurn key).frame here (fun _ => ⟨by simp only [Thread.pends, ready], rfl⟩) rfl rfl
  | @wrote thread here all locked written appends still =>
      rw [appends, still, Option.toList_none, Option.toList_some, List.append_nil]
      by_cases own : thread.mutation.key = key
      · subst own
        have alone := apart.alone here (by simp [Thread.holdsAll, locked])
        have same : callsFor thread.mutation.key wrote = callsFor thread.mutation.key applied := by
          rcases inTurn thread.mutation.key with
            ⟨_, same⟩ | ⟨other, rival, found, pends, clash, _⟩
          · exact same
          · have different : other ≠ turn.id := by
              rintro rfl
              obtain rfl := Option.some.inj (here.symm.trans found)
              simp [Thread.pends, locked] at pends
            exact absurd clash (alone other rival different found pends)
        refine .inr ⟨turn.id, _, Machine.advance_get here _ _, rfl, rfl, ?_⟩
        rw [callsFor_append, callsFor_self (turn.id, thread.mutation), same]
      · refine (inTurn key).frame here (fun same => absurd same own) ?_ rfl
        rw [callsFor_append, @callsFor_other key (turn.id, thread.mutation) own, List.append_nil]
  | @applied thread here all pos logged worked silent applies =>
      rw [silent, applies, Option.toList_none, Option.toList_some, List.append_nil]
      have pends : thread.pends = true := by simp only [Thread.pends, logged]
      by_cases own : thread.mutation.key = key
      · subst own
        have alone := apart.alone here (Thread.pends_holds pends)
        refine .inl ⟨?_, ?_⟩
        · intro other rival found waits
          by_cases isHere : other = turn.id
          · subst isHere
            rw [Machine.advance_get here, Option.some.injEq] at found
            subst found
            exact absurd waits Bool.false_ne_true
          · rw [Machine.advance_get_ne isHere] at found
            exact alone other rival isHere found waits
        · rw [callsFor_append, callsFor_self (turn.id, thread.mutation)]
          rcases inTurn thread.mutation.key with
            ⟨none, _⟩ | ⟨other, rival, found, waits, clash, last⟩
          · exact absurd rfl (none turn.id thread here pends)
          · have isHere : other = turn.id := by
              by_contra different
              exact alone other rival different found waits clash
            subst isHere
            obtain rfl := Option.some.inj (here.symm.trans found)
            exact last
      · refine (inTurn key).frame here (fun same => absurd same own) rfl ?_
        rw [callsFor_append, @callsFor_other key (turn.id, thread.mutation) own, List.append_nil]

-- The log

theorem Mutation.append_ok (mutation : Mutation) {env : CallEnv} (opened : store.aof.fp ≠ none)
    (written : (mutation.append env store).1 = kvOk)
    : (mutation.append env store).2.2.aof.fp ≠ none
      ∧ (mutation.append env store).2.2.aof.log = store.aof.log ++ mutation.record := by
  rw [mutation.append_opened env opened] at written ⊢
  have fits := Aof.writeAofRecord_fits opened written
  have whole := Aof.writeAofRecord_ok opened written
  obtain ⟨pos, position⟩ := Option.ne_none_iff_exists'.mp opened
  simp [Aof.writeAofRecord, fits, whole, position]

/-- The log is open and holds the records of some calls behind what it held. -/
def Machine.Logged (machine : Machine) (base : List UInt8) (wrote : List (Nat × Mutation)) : Prop :=
  machine.store.aof.fp ≠ none
    ∧ machine.store.aof.log = base ++ wrote.flatMap (fun call => call.2.record)

theorem Machine.Logged.progress {after : Machine} {base : List UInt8}
    {wrote : List (Nat × Mutation)} (logged : machine.Logged base wrote)
    (progress : machine.Progress turn after)
    : after.Logged base (wrote ++ (machine.wroteBy turn).toList) := by
  cases progress with
  | idle silent =>
      rw [silent, Option.toList_none, List.append_nil]
      exact logged
  | @took thread here ready all free silent =>
      rw [silent, Option.toList_none, List.append_nil]
      simp only [Machine.Logged, Machine.advance_store, thread.mutation.prepare_aof]
      exact logged
  | @wrote thread here all locked written appends =>
      obtain ⟨opened, log⟩ := thread.mutation.append_ok logged.1 written
      rw [appends, Option.toList_some, Machine.Logged, Machine.advance_store, log, logged.2]
      exact ⟨opened, by simp⟩
  | @applied thread here all pos pends worked silent =>
      obtain ⟨stream, log, _⟩ := thread.mutation.apply_stream thread.env machine.store
      rw [silent, Option.toList_none, List.append_nil, Machine.Logged, Machine.advance_store,
        stream, log]
      exact logged

end MiniKv
