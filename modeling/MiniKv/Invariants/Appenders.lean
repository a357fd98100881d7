import MiniKv.Invariants.Mutations
import MiniKv.Store.Appenders

/-! Single steps of the threads that append to the rewrite buffer, and a thread that runs alone: it
does what its call does.
-/

namespace MiniKv

variable {store : Store} {env : CallEnv} {machine : Appenders} {id : Nat} {appender : Appender}

-- The rewrite buffer as a part of the file

theorem Aof.appendAofRewriteBuffer_withBuffer (aof : Aof) (data : List UInt8) (allocated : Bool)
    : (aof.appendAofRewriteBuffer data allocated).withBuffer aof = aof := by
  simp only [Aof.appendAofRewriteBuffer]
  split
  · rfl
  · split
    · split <;> rfl
    · split
      · rfl
      · split
        · rfl
        · split <;> rfl

/-- Appending to the rewrite buffer changes nothing else. -/
theorem Aof.appendFragments_withBuffer (aof : Aof) (env : CallEnv)
    (fragments : List (List UInt8)) (nth : Nat)
    : (aof.appendFragments env fragments nth).withBuffer aof = aof := by
  induction fragments generalizing aof nth with
  | nil => rfl
  | cons data rest ih =>
      have first := aof.appendAofRewriteBuffer_withBuffer data (env.alloc (.rewriteBuffer nth))
      have later := congrArg (Aof.withBuffer · aof)
        (ih (aof.appendAofRewriteBuffer data (env.alloc (.rewriteBuffer nth))) (nth + 1))
      exact later.trans first

theorem Aof.writeAofRecord_withBuffer (aof : Aof) (record : List UInt8) (io : IoOutcome)
    : (aof.writeAofRecord record io).2.2.withBuffer aof = (aof.writeAofRecord record io).2.2 := by
  simp only [Aof.writeAofRecord]
  split <;> split <;> first | rfl | (split <;> rfl)

theorem Aof.rollbackAofRecord_withBuffer {aof before : Aof} (same : aof.withBuffer before = aof)
    (pos : Option Nat)
    : (aof.rollbackAofRecord pos).withBuffer before = aof.rollbackAofRecord pos := by
  rw [← same]
  simp only [Aof.rollbackAofRecord]
  split <;> rfl

/-- A call leaves the rewrite buffer to its appends. -/
theorem Aof.Written.appends {before after : Aof} {op : Op} {table : Table}
    {reply : Reply (List CString)} (written : before.Written op env table reply after)
    : (after.withBuffer before).appendFragments env
        (if op.succeeded reply then op.appends env.now table else []) 0
      = after := by
  cases written with
  | untouched failed => simp [failed, Aof.appendFragments, Aof.withBuffer]
  | undone stands first opened failed pos =>
      rw [Aof.rollbackAofRecord_withBuffer (Aof.writeAofRecord_withBuffer _ _ _)]
      simp [failed, Aof.appendFragments]
  | @recorded record stands succeeded =>
      have logged : (before.logRecord op record env).withBuffer before
          = before.logRecord op record env := by
        rw [Aof.logRecord]
        split
        · rfl
        · exact Aof.writeAofRecord_withBuffer _ _ _
      have apart := congrArg (Aof.withBuffer · before) ((before.logRecord op record
        env).appendFragments_withBuffer env (op.appends env.now table) 0)
      rw [if_pos succeeded]
      exact congrArg (Aof.appendFragments · env _ 0) (apart.trans logged)

/-- The first step of a call leaves the rewrite buffer alone, and its pieces complete the call. -/
theorem Appender.mutate_appends (wf : store.table.WellFormed)
    (fits : appender.op.countFits store.table = true)
    : (appender.mutate store).2.aof.appendFragments appender.env
        (appender.pieces store.table (appender.mutate store).1) 0
      = (appender.op.call appender.env store).2.aof :=
  (Op.call_written appender.op wf fits).appends

-- A thread alone

theorem Appenders.advance_get (here : machine.appenders[id]? = some appender)
    (progress : Progress) (store : Store)
    : (machine.advance id progress store).appenders[id]? = some { appender with progress } := by
  simp [Appenders.advance, here]

theorem Appenders.advance_get_ne {other : Nat} (different : other ≠ id) (progress : Progress)
    (store : Store)
    : (machine.advance id progress store).appenders[other]? = machine.appenders[other]? := by
  simp [Appenders.advance, different.symm]

theorem Appenders.advance_advance (machine : Appenders) (id : Nat) (first second : Progress)
    (middle last : Store)
    : (machine.advance id first middle).advance id second last
      = machine.advance id second last := by
  simp [Appenders.advance, List.modify_modify_eq, Function.comp_def]

/-- By induction on the pieces: left alone, a thread appends them one after the other. -/
theorem Appenders.run_appending (here : machine.appenders[id]? = some appender) (all : Bool)
    (done rest : List (List UInt8)) (reply : Reply (List CString)) (store : Store)
    : ((machine.advance id (.next all done rest reply) store).run
        (List.replicate rest.length ⟨id, all⟩)).2
      = machine.advance id (.returned reply)
          { store with
            aof := store.aof.appendFragments appender.env rest done.length } := by
  induction rest generalizing done store with
  | nil => rfl
  | cons piece rest ih =>
      have later := ih (done ++ [piece]) { store with
        aof := store.aof.appendAofRewriteBuffer piece
          (appender.env.alloc (.rewriteBuffer done.length)) }
      rw [List.length_append, List.length_singleton] at later
      rw [List.length_cons, List.replicate_succ]
      change ((Appenders.step _ _).2.run _).2 = _
      simp only [Appenders.step, Progress.next, reduceCtorEq, if_false,
        Appenders.advance_get here, Appenders.advance_advance]
      exact later

/-- While no other thread is appending, a thread that is left alone does what its call does. -/
theorem Appenders.run_alone (here : machine.appenders[id]? = some appender)
    (ready : appender.progress = .ready)
    (idle : ∀ other ∈ machine.appenders, ∀ all done rest reply,
      other.progress ≠ .appending all done rest reply)
    (wf : machine.store.table.WellFormed)
    (fits : appender.op.countFits machine.store.table = true) (all : Bool)
    : ∃ turns, (machine.run (List.replicate turns ⟨id, all⟩)).2
        = let called := appender.op.call appender.env machine.store
          machine.advance id (.returned called.1) called.2 := by
  have free : machine.appenders.all
      (fun other => other.allows machine.numLocks all appender.op.key) = true := by
    apply List.all_eq_true.mpr
    intro other member
    cases progress : other.progress with
    | appending held done rest reply =>
        exact absurd progress (idle other member held done rest reply)
    | _ => simp only [Appender.allows, progress]
  refine ⟨(appender.pieces machine.store.table (appender.mutate machine.store).1).length + 1, ?_⟩
  rw [List.replicate_succ]
  change ((Appenders.step _ _).2.run _).2 = _
  simp only [Appenders.step, here, ready, free, Bool.true_eq_false, if_false]
  rw [Appenders.run_appending here]
  exact congrArg (machine.advance id _) (congrArg (Store.mk _)
    (Appender.mutate_appends wf fits))

end MiniKv
