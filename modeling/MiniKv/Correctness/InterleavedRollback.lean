import MiniKv.Invariants.Mutations

/-! Rollbacks of interleaved calls. A failing call truncates the log to where it ended before its
own record, whoever has appended since. The log stays exact as long as rollbacks nest: whoever
truncates wrote the last record that is still there.
-/

namespace MiniKv

/-- Every file is truncated by the thread whose record is the last one in it; the numbers are the
threads whose records are in the log, the last one first.
-/
def Nested : List Nat → List (Option LogEvent) → Prop
  | _, [] => True
  | stack, none :: rest => Nested stack rest
  | stack, some (.wrote id) :: rest => Nested (id :: stack) rest
  | stack, some (.undid id) :: rest => stack.head? = some id ∧ Nested stack.tail rest

/-- The records of some of the calls, one after the other. -/
def recordText (calls : List (Mutation × CallEnv)) (ids : List Nat) : List UInt8 :=
  ids.flatMap (fun id => ((calls[id]?).map (fun call => call.1.record)).getD [])

/-- Where the log ended before a thread on the stack wrote its record. -/
def savedAt (calls : List (Mutation × CallEnv)) (base : List UInt8)
    : List Nat → Nat → Option Nat
  | [], _ => none
  | top :: below, id =>
      if id = top then some (base ++ recordText calls below.reverse).length
      else savedAt calls base below id

/-- A thread has saved that position and will undo its record or has returned success; without a
position it has no record in the log.
-/
def Phase.Agrees : Phase → Option Nat → Prop
  | .ready, saved => saved = none
  | .locked _, saved => saved = none
  | .logged _ pos, saved => saved ≠ none ∧ pos = saved
  | .failed _ pos status, saved => saved ≠ none ∧ pos = saved ∧ status ≠ kvOk
  | .returned status, saved => saved ≠ none ↔ status = kvOk

/-- The log is a base and the records of a stack of threads, and every thread knows its place. -/
structure Machine.Stacked (machine : Machine) (calls : List (Mutation × CallEnv))
    (base : List UInt8) (stack : List Nat)
    : Prop where
  threads : machine.threads.map (fun thread => (thread.mutation, thread.env)) = calls
  position : machine.store.aof.fp = some machine.store.aof.log.length
  log : machine.store.aof.log = base ++ recordText calls stack.reverse
  nodup : stack.Nodup
  present : ∀ id ∈ stack, (machine.threads[id]?).isSome
  agrees : ∀ (id : Nat) (thread : Thread), machine.threads[id]? = some thread →
    thread.phase.Agrees (savedAt calls base stack id)

variable {machine : Machine} {calls : List (Mutation × CallEnv)} {base : List UInt8}
  {stack : List Nat} {id : Nat} {thread : Thread}

theorem savedAt_ne_none_iff : savedAt calls base stack id ≠ none ↔ id ∈ stack := by
  induction stack with
  | nil => simp [savedAt]
  | cons top below ih =>
      simp only [savedAt, List.mem_cons]
      split
      · next same => simp [same]
      · next different => simpa [different] using ih

theorem savedAt_of_not_mem (missing : id ∉ stack) : savedAt calls base stack id = none :=
  not_not.mp (fun saved => missing (savedAt_ne_none_iff.mp saved))

theorem savedAt_cons_ne {other : Nat} (different : other ≠ id)
    : savedAt calls base (id :: stack) other = savedAt calls base stack other :=
  if_neg different

theorem recordText_snoc (ids : List Nat) (id : Nat)
    : recordText calls (ids ++ [id])
      = recordText calls ids ++ ((calls[id]?).map (fun call => call.1.record)).getD [] := by
  simp [recordText]

theorem Machine.Stacked.call_get (stacked : machine.Stacked calls base stack)
    (here : machine.threads[id]? = some thread)
    : calls[id]? = some (thread.mutation, thread.env) := by
  rw [← stacked.threads, List.getElem?_map, here, Option.map_some]

/-- A thread moves on: the stack may change for it alone, and the log must follow the stack. -/
theorem Machine.Stacked.advance (stacked : machine.Stacked calls base stack)
    (here : machine.threads[id]? = some thread) {after : List Nat} {phase : Phase} {store : Store}
    (position : store.aof.fp = some store.aof.log.length)
    (log : store.aof.log = base ++ recordText calls after.reverse) (nodup : after.Nodup)
    (present : ∀ other ∈ after, other = id ∨ other ∈ stack)
    (others : ∀ other, other ≠ id → savedAt calls base after other = savedAt calls base stack other)
    (own : phase.Agrees (savedAt calls base after id))
    : (machine.advance id phase store).Stacked calls base after := by
  refine ⟨?_, position, log, nodup, ?_, ?_⟩
  · rw [← stacked.threads]
    apply List.ext_getElem?
    intro index
    by_cases same : index = id
    · subst same
      rw [List.getElem?_map, List.getElem?_map, Machine.advance_get here, here]
      rfl
    · rw [List.getElem?_map, List.getElem?_map, Machine.advance_get_ne same]
  · intro other member
    by_cases same : other = id
    · rw [same, Machine.advance_get here, Option.isSome_some]
    · rw [Machine.advance_get_ne same]
      exact stacked.present other ((present other member).resolve_left same)
  · intro other moved found
    by_cases same : other = id
    · subst same
      rw [Machine.advance_get here, Option.some.injEq] at found
      exact found ▸ own
    · rw [Machine.advance_get_ne same] at found
      rw [others other same]
      exact stacked.agrees other moved found

/-- A thread moves on without touching the log. -/
theorem Machine.Stacked.advance_quiet (stacked : machine.Stacked calls base stack)
    (here : machine.threads[id]? = some thread) {phase : Phase} {store : Store}
    (position : store.aof.fp = machine.store.aof.fp)
    (log : store.aof.log = machine.store.aof.log)
    (own : phase.Agrees (savedAt calls base stack id))
    : (machine.advance id phase store).Stacked calls base stack := by
  refine stacked.advance here ?_ (log.trans stacked.log) stacked.nodup (fun _ => .inr)
    (fun _ _ => rfl) own
  rw [position, log, stacked.position]

-- The steps of a call

/-- An append that is not torn writes the whole record and saves the end of the log, or fails and
leaves the log alone.
-/
theorem Mutation.append_cases {store : Store} (mutation : Mutation) {env : CallEnv}
    (whole : ∀ written, env.io ≠ .failed written)
    (position : store.aof.fp = some store.aof.log.length)
    : ((mutation.append env store).1 = kvOk
        ∧ (mutation.append env store).2.1 = some store.aof.log.length
        ∧ (mutation.append env store).2.2.aof.log = store.aof.log ++ mutation.record
        ∧ (mutation.append env store).2.2.aof.fp
          = some (store.aof.log ++ mutation.record).length)
      ∨ ((mutation.append env store).1 ≠ kvOk
        ∧ (mutation.append env store).2.2.aof.log = store.aof.log
        ∧ (mutation.append env store).2.2.aof.fp = store.aof.fp) := by
  rw [mutation.append_opened env (by simp [position])]
  simp only [Aof.writeAofRecord]
  by_cases fits : mutation.record.length < aofRecordBufSize
  · simp only [fits, if_true, position]
    cases io : env.io with
    | ok => exact .inl ⟨rfl, rfl, rfl, by simp⟩
    | refused => exact .inr ⟨show kvErrIo ≠ kvOk by decide, rfl, rfl⟩
    | failed written => exact absurd io (whole written)
  · simp only [fits, if_false, position]
    cases io : env.io with
    | failed written => exact absurd io (whole written)
    | _ => exact .inr ⟨show kvErrIo ≠ kvOk by decide, rfl, position⟩

/-- A turn keeps the stack, or pushes a thread, or pops it if it is on top. -/
def StacksAfter (calls : List (Mutation × CallEnv)) (base : List UInt8) (stack : List Nat)
    (stepped : Option LogEvent × Machine)
    : Prop :=
  match stepped.1 with
  | none => stepped.2.Stacked calls base stack
  | some (.wrote id) => stepped.2.Stacked calls base (id :: stack)
  | some (.undid id) => stack.head? = some id → stepped.2.Stacked calls base stack.tail

theorem ftruncate_append (kept rest : List UInt8)
    : ftruncate (kept ++ rest) kept.length = kept := by
  simp [ftruncate]

/-- A record is written: the thread is pushed. -/
theorem Machine.Stacked.push (stacked : machine.Stacked calls base stack)
    (here : machine.threads[id]? = some thread) {all : Bool}
    (locked : thread.phase = .locked all) {store : Store}
    (position : store.aof.fp = some store.aof.log.length)
    (log : store.aof.log = machine.store.aof.log ++ thread.mutation.record)
    : (machine.advance id (.logged all (some machine.store.aof.log.length)) store).Stacked calls
        base (id :: stack) := by
  have agrees := stacked.agrees id thread here
  rw [locked] at agrees
  have missing : id ∉ stack := fun member => savedAt_ne_none_iff.mpr member agrees
  have pushed : (Phase.logged all (some machine.store.aof.log.length)).Agrees
      (savedAt calls base (id :: stack) id) := by
    simp only [savedAt, if_true, Phase.Agrees]
    rw [stacked.log]
    exact ⟨by simp, rfl⟩
  have grown : store.aof.log = base ++ recordText calls (id :: stack).reverse := by
    rw [log, stacked.log, List.reverse_cons, recordText_snoc, stacked.call_get here]
    simp
  exact stacked.advance here position grown (List.nodup_cons.mpr ⟨missing, stacked.nodup⟩)
    (fun _ => List.mem_cons.mp) (fun other different => savedAt_cons_ne different) pushed

/-- The thread on top of the stack undoes its record. -/
theorem Machine.Stacked.pop {below : List Nat} (stacked : machine.Stacked calls base (id :: below))
    (here : machine.threads[id]? = some thread) {all : Bool} {pos : Option Nat} {status : Int}
    (phase : thread.phase = .failed all pos status)
    : (machine.advance id (.returned status) (machine.store.rollback pos)).Stacked calls base
        below := by
  obtain ⟨_, saved, failure⟩ := phase ▸ stacked.agrees id thread here
  simp only [savedAt, if_true] at saved
  have unique := List.nodup_cons.mp stacked.nodup
  have before := stacked.log
  rw [List.reverse_cons, recordText_snoc, ← List.append_assoc] at before
  have cut : (machine.store.rollback pos).aof.log = base ++ recordText calls below.reverse := by
    simp only [Store.rollback, Aof.rollbackAofRecord, stacked.position, saved, before]
    exact ftruncate_append _ _
  have position : (machine.store.rollback pos).aof.fp
      = some (base ++ recordText calls below.reverse).length := by
    simp only [Store.rollback, Aof.rollbackAofRecord, stacked.position, saved]
  have undone : (Phase.returned status).Agrees (savedAt calls base below id) := by
    rw [savedAt_of_not_mem unique.1]
    exact iff_of_false (by simp) failure
  exact stacked.advance here (by rw [position, cut]) cut unique.2
    (fun _ member => .inr (List.mem_cons_of_mem _ member))
    (fun other different => (savedAt_cons_ne different).symm) undone

/-- A call fails before it has a record. -/
theorem Phase.agrees_unwritten {saved : Option Nat} (none : saved = none) {status : Int}
    (failed : status ≠ kvOk)
    : (Phase.returned status).Agrees saved :=
  iff_of_false (not_not.mpr none) failed

/-- What one turn does to the stack, by what the thread does. -/
theorem Machine.Stacked.step (stacked : machine.Stacked calls base stack)
    (whole : ∀ call ∈ calls, ∀ written, call.2.io ≠ .failed written) (turn : Turn)
    : StacksAfter calls base stack (machine.step turn) := by
  have turned := machine.step_turned turn
  generalize machine.step turn = stepped at turned ⊢
  cases turned with
  | still => exact stacked
  | @refused thread here ready err invalid =>
      have agrees := ready ▸ stacked.agrees turn.id thread here
      exact stacked.advance_quiet here rfl rfl
        (Phase.agrees_unwritten agrees (Mutation.check_error invalid))
  | @took thread here ready all free =>
      have agrees := ready ▸ stacked.agrees turn.id thread here
      have same := thread.mutation.prepare_aof thread.env machine.store
      exact stacked.advance_quiet here (congrArg Aof.fp same) (congrArg Aof.log same)
        (show (Phase.locked all).Agrees _ from agrees)
  | @unwritten thread here all locked failed =>
      have agrees := locked ▸ stacked.agrees turn.id thread here
      rcases thread.mutation.append_cases
          (whole _ (List.mem_of_getElem? (stacked.call_get here))) stacked.position with
        ⟨written, _⟩ | ⟨_, log, position⟩
      · exact absurd written failed
      · exact stacked.advance_quiet here position log (Phase.agrees_unwritten agrees failed)
  | @wrote thread here all locked written =>
      rcases thread.mutation.append_cases
          (whole _ (List.mem_of_getElem? (stacked.call_get here))) stacked.position with
        ⟨_, pos, log, position⟩ | ⟨failed, _⟩
      · rw [pos]
        exact stacked.push here locked (by rw [position, log]) log
      · exact absurd written failed
  | @ended thread here all pos logged settled =>
      have agrees := logged ▸ stacked.agrees turn.id thread here
      obtain ⟨position, log, _⟩ := thread.mutation.apply_stream thread.env machine.store
      have worked : (thread.mutation.apply thread.env machine.store).1 = kvOk := by
        rcases settled with worked | closed
        · exact worked
        · rw [position, stacked.position] at closed
          contradiction
      exact stacked.advance_quiet here position log (iff_of_true agrees.1 worked)
  | @doomed thread here all pos logged failed =>
      have agrees := logged ▸ stacked.agrees turn.id thread here
      obtain ⟨position, log, _⟩ := thread.mutation.apply_stream thread.env machine.store
      exact stacked.advance_quiet here position log ⟨agrees.1, agrees.2, failed⟩
  | undid here phase =>
      intro top
      cases stack with
      | nil => contradiction
      | cons first below =>
          obtain rfl := Option.some.inj top
          exact stacked.pop here phase

/-- By induction on the turns, with the stack and the machine generalized. -/
theorem Machine.Stacked.run (stacked : machine.Stacked calls base stack)
    (whole : ∀ call ∈ calls, ∀ written, call.2.io ≠ .failed written) (turns : List Turn)
    (nested : Nested stack (machine.run turns).1)
    : ∃ after, (machine.run turns).2.Stacked calls base after := by
  induction turns generalizing machine stack with
  | nil => exact ⟨stack, stacked⟩
  | cons turn rest ih =>
      have first := stacked.step whole turn
      have events : (machine.run (turn :: rest)).1
          = (machine.step turn).1 :: ((machine.step turn).2.run rest).1 := rfl
      change ∃ after, ((machine.step turn).2.run rest).2.Stacked calls base after
      rw [events] at nested
      simp only [StacksAfter] at first
      cases event : (machine.step turn).1 with
      | none =>
          rw [event] at first nested
          exact ih first nested
      | some logged =>
          rw [event] at first nested
          cases logged with
          | wrote id => exact ih first nested
          | undid id => exact ih (first nested.1) nested.2

theorem Machine.start_stacked {store : Store}
    (atEnd : store.aof.fp = some store.aof.log.length) (numLocks : Nat)
    (calls : List (Mutation × CallEnv))
    : (Machine.start store numLocks calls).Stacked calls store.aof.log [] := by
  refine ⟨by simp [Machine.start, Function.comp_def], atEnd, ?_, List.nodup_nil, by simp, ?_⟩
  · simp [recordText, Machine.start]
  · intro id thread found
    simp only [Machine.start, List.getElem?_map, Option.map_eq_some_iff] at found
    obtain ⟨call, _, rfl⟩ := found
    rfl

/-- Any number of threads in any interleaving: when rollbacks nest, no append is torn and the stream
stands at the end of the log, the log gains exactly the records of the calls that returned success.
-/
theorem interleaved_log_exact {store : Store} (atEnd : store.aof.fp = some store.aof.log.length)
    (numLocks : Nat) {calls : List (Mutation × CallEnv)}
    (whole : ∀ call ∈ calls, ∀ written, call.2.io ≠ .failed written) (turns : List Turn)
    (nested : Nested [] ((Machine.start store numLocks calls).run turns).1)
    (finished : ∀ thread ∈ ((Machine.start store numLocks calls).run turns).2.threads,
      ∃ status, thread.phase = .returned status)
    : ∃ order : List Nat,
        order.Nodup
        ∧ (∀ id, id ∈ order
          ↔ ∃ thread, ((Machine.start store numLocks calls).run turns).2.threads[id]? = some thread
              ∧ thread.phase = .returned kvOk)
        ∧ ((Machine.start store numLocks calls).run turns).2.store.aof.log
          = store.aof.log ++ recordText calls order := by
  obtain ⟨after, stacked⟩ := (Machine.start_stacked atEnd numLocks calls).run whole turns nested
  refine ⟨after.reverse, List.nodup_reverse.mpr stacked.nodup, fun id => ?_, stacked.log⟩
  rw [List.mem_reverse]
  constructor
  · intro member
    obtain ⟨thread, found⟩ := Option.isSome_iff_exists.mp (stacked.present id member)
    obtain ⟨status, returned⟩ := finished thread (List.mem_of_getElem? found)
    have agrees := stacked.agrees id thread found
    rw [returned] at agrees
    have success := agrees.mp (savedAt_ne_none_iff.mpr member)
    exact ⟨thread, found, success ▸ returned⟩
  · rintro ⟨thread, found, returned⟩
    have agrees := stacked.agrees id thread found
    rw [returned] at agrees
    exact savedAt_ne_none_iff.mp (agrees.mpr rfl)

/-- A failing delete that runs from its append to its truncation inside a set. -/
theorem interleaved_log_exact_inside
    : ∃ (start : Store) (calls : List (Mutation × CallEnv)) (turns : List Turn),
        kvInitFull 32 0 0 (some ⟨[97], by decide⟩) [] 7 (.at 0) (fun _ => .at 0) = .ok start
        ∧ calls = [(.set ⟨[107], by decide⟩ ⟨[118], by decide⟩, .at 1),
          (.delete ⟨[109], by decide⟩, .at 1)]
        ∧ turns.map Turn.id = [0, 0, 1, 1, 1, 1, 0]
        ∧ ∃ order : List Nat,
            order.Nodup
            ∧ (∀ id, id ∈ order
              ↔ ∃ thread,
                  ((Machine.start start (numLocks 32) calls).run turns).2.threads[id]? = some thread
                  ∧ thread.phase = .returned kvOk)
            ∧ ((Machine.start start (numLocks 32) calls).run turns).2.store.aof.log
              = start.aof.log ++ recordText calls order := by
  obtain ⟨start, calls, turns, started, named, order, atEnd, events, phases⟩ :
      ∃ (start : Store) (calls : List (Mutation × CallEnv)) (turns : List Turn),
        kvInitFull 32 0 0 (some ⟨[97], by decide⟩) [] 7 (.at 0) (fun _ => .at 0) = .ok start
        ∧ calls = [(.set ⟨[107], by decide⟩ ⟨[118], by decide⟩, .at 1),
          (.delete ⟨[109], by decide⟩, .at 1)]
        ∧ turns.map Turn.id = [0, 0, 1, 1, 1, 1, 0]
        ∧ start.aof.fp = some start.aof.log.length
        ∧ ((Machine.start start (numLocks 32) calls).run turns).1
          = [none, some (.wrote 0), none, some (.wrote 1), none, some (.undid 1), none]
        ∧ ((Machine.start start (numLocks 32) calls).run turns).2.threads.map Thread.phase
          = [.returned kvOk, .returned kvErrNotFound] := by
    refine ⟨_, _,
      [⟨0, false⟩, ⟨0, false⟩, ⟨1, false⟩, ⟨1, false⟩, ⟨1, false⟩, ⟨1, false⟩, ⟨0, false⟩],
      rfl, rfl, rfl, rfl, ?_, ?_⟩
    · decide +kernel
    · decide +kernel
  refine ⟨start, calls, turns, started, named, order, ?_⟩
  refine interleaved_log_exact atEnd (numLocks 32) ?_ turns ?_ ?_
  · intro call member written
    simp only [named, List.mem_cons, List.not_mem_nil, or_false] at member
    rcases member with rfl | rfl <;> simp [CallEnv.at]
  · rw [events]
    exact ⟨rfl, trivial⟩
  · intro thread member
    have found := List.mem_map_of_mem (f := Thread.phase) member
    rw [phases] at found
    simp only [List.mem_cons, List.not_mem_nil, or_false] at found
    rcases found with returned | returned <;> exact ⟨_, returned⟩

/-- A delete of a missing key appends its record; a set appends behind it and succeeds; the delete
then truncates both records.
-/
theorem rollback_erases_other_record
    : ∃ start, kvInitFull 32 0 0 (some ⟨[97], by decide⟩) [] 7 (.at 0) (fun _ => .at 0) = .ok start
        ∧ let calls : List (Mutation × CallEnv) :=
            [(.delete ⟨[109], by decide⟩, .at 1),
              (.set ⟨[107], by decide⟩ ⟨[118], by decide⟩, .at 1)]
          let turns : List Turn :=
            [⟨0, false⟩, ⟨0, false⟩, ⟨1, false⟩, ⟨1, false⟩, ⟨1, false⟩, ⟨0, false⟩, ⟨0, false⟩]
          let ended := ((Machine.start start (numLocks 32) calls).run turns).2
          kvLockIndex (numLocks 32) ⟨[109], by decide⟩
            ≠ kvLockIndex (numLocks 32) ⟨[107], by decide⟩
          ∧ ended.threads.map Thread.phase = [.returned kvErrNotFound, .returned kvOk]
          ∧ ended.store.aof.log = [] := by
  refine ⟨_, rfl, ?_⟩
  decide +kernel

end MiniKv
