import MiniKv.Invariants.Children

/-! The steps of the workers and the event loop do to the pid fields what the functions of the store
do that they are the steps of.
-/

namespace MiniKv

variable {background : Background} {index number : Nat}

/-- The fields are those of the store. -/
structure Background.Names (background : Background) (store : Store) : Prop where
  logged : background.logged = store.aof.path.isSome
  save : background.bgsavePid = store.aof.bgsavePid
  rewrite : background.aofRewritePid = store.aof.rewritePid

/-- A worker that nobody interrupts in `kv_bgsave` or `kv_bgrewriteaof`, and what it returns. -/
def Background.alone (background : Background) (index : Nat) (command : ChildCommand)
    (env : ChildEnv)
    : Int × Background :=
  let first := background.callerStep index command env
  match first.1 with
  | some status => (status, first.2)
  | none =>
      let second := first.2.callerStep index command env
      (second.1.getD kvErrInternal, second.2)

section Alone

variable {store : Store} {env : ChildEnv}

theorem Background.alone_refused (here : background.callers[index]? = some .idle)
    (unlocked : background.locked = false) {command : ChildCommand} {status : Int}
    (refused : background.refuses command = some status)
    : background.alone index command env = (command.failed status, background) := by
  simp only [Background.alone, Background.callerStep, here, Background.fork, unlocked, refused,
    Bool.false_eq_true, if_false]

theorem Background.alone_failed (here : background.callers[index]? = some .idle)
    (unlocked : background.locked = false) {command : ChildCommand}
    (accepted : background.refuses command = none) (failed : env.pid ≤ 0)
    : background.alone index command env = (command.failed kvErrIo, background) := by
  simp only [Background.alone, Background.callerStep, here, Background.fork, unlocked, accepted,
    Bool.false_eq_true, if_false, failed, true_or, if_true]

/-- Behind a `fork` the worker stores the pid and returns. -/
theorem Background.alone_forked (here : background.callers[index]? = some .idle)
    (unlocked : background.locked = false) {command : ChildCommand}
    (accepted : background.refuses command = none) (forked : 0 < env.pid)
    (unused : background.children.any (fun child => child.waitedFor env.pid) = false)
    : background.alone index command env
      = (let second := ({ background with
            children := background.children ++ [⟨env.pid, command.kind, .running, false⟩]
            callers := background.callers.set index
              (.forked command background.children.length env.pid) } : Background).callerStep
            index command env
         (second.1.getD kvErrInternal, second.2)) := by
  have parent : ¬ env.pid ≤ 0 := by omega
  simp only [Background.alone]
  rw [show background.callerStep index command env = background.fork index command env by
    simp only [Background.callerStep, here]]
  simp only [Background.fork, unlocked, accepted, unused, parent, Bool.false_eq_true, or_self,
    if_false]

/-- Uninterrupted, the steps of `kv_bgsave` do what the function does. -/
theorem Background.Names.kvBgsave (names : background.Names store)
    (here : background.callers[index]? = some .idle) (unlocked : background.locked = false)
    (parent : env.pid ≠ 0)
    (unused : background.children.any (fun child => child.waitedFor env.pid) = false)
    : (background.alone index .bgsave env).1 = (kvBgsave store env.pid).1
      ∧ (background.alone index .bgsave env).2.Names (kvBgsave store env.pid).2 := by
  have refuses : background.refuses .bgsave
      = if store.aof.bgsavePid ≠ 0 ∨ store.aof.rewritePid ≠ 0 then some kvErrAgain else none := by
    rw [Background.refuses, names.save, names.rewrite]
  rw [MiniKv.kvBgsave]
  split
  · next again =>
      rw [if_pos again] at refuses
      rw [Background.alone_refused here unlocked refuses]
      exact ⟨rfl, names⟩
  · next once =>
      rw [if_neg once] at refuses
      split
      · next failed =>
          rw [Background.alone_failed here unlocked refuses (le_of_lt failed)]
          exact ⟨rfl, names⟩
      · next forked =>
          rw [Background.alone_forked here unlocked refuses (by omega) unused]
          simp only [Background.callerStep, Background.set_self here]
          exact ⟨rfl, names.logged, rfl, names.rewrite⟩

/-- Uninterrupted, the steps of `kv_bgrewriteaof` do what the function does. -/
theorem Background.Names.kvBgrewriteaof (names : background.Names store)
    (here : background.callers[index]? = some .idle) (unlocked : background.locked = false)
    (unused : background.children.any (fun child => child.waitedFor env.pid) = false)
    (child : CallEnv)
    : (background.alone index .bgrewriteaof env).1 = (kvBgrewriteaof store env.pid child).1
      ∧ (background.alone index .bgrewriteaof env).2.Names
          (kvBgrewriteaof store env.pid child).2 := by
  have refuses : background.refuses .bgrewriteaof
      = if store.aof.path = none then some kvErrInvalidParam
        else if 0 < store.aof.bgsavePid ∨ 0 < store.aof.rewritePid then some kvErrAgain
        else none := by
    rw [Background.refuses, names.save, names.rewrite, names.logged]
    simp only [Option.isSome_eq_false_iff, Option.isNone_iff_eq_none]
  simp only [MiniKv.kvBgrewriteaof]
  split
  · next noLog =>
      rw [if_pos noLog] at refuses
      rw [Background.alone_refused here unlocked refuses]
      exact ⟨rfl, names⟩
  · next hasLog =>
      rw [if_neg hasLog] at refuses
      split
      · next again =>
          rw [if_pos again] at refuses
          rw [Background.alone_refused here unlocked refuses]
          exact ⟨rfl, names⟩
      · next once =>
          rw [if_neg once] at refuses
          split
          · next failed =>
              rw [Background.alone_failed here unlocked refuses failed]
              exact ⟨rfl, names.logged, names.save, names.rewrite⟩
          · next forked =>
              rw [Background.alone_forked here unlocked refuses (by omega) unused]
              simp only [Background.callerStep, Background.set_self here]
              exact ⟨rfl, names.logged, names.save, rfl⟩

/-- The event loop ends a rewrite by the functions of the store. -/
theorem Background.Names.ending (names : background.Names store)
    (unlocked : background.locked = false) {pid : Int} {status : ExitStatus}
    (reaper : background.reaper = .ending number pid status) (outcome : MergeOutcome) (pick : Nat)
    : (background.reaperStep pick).Names
        (if status.clean then (kvMergeAofRewrite store pid outcome).2
          else kvDiscardAofRewrite store) := by
  have refuses : background.logged = false ∨ pid ≤ 0 ∨ background.aofRewritePid ≠ pid
      ↔ (store.aof.path = none ∨ pid ≤ 0) ∨ store.aof.rewritePid ≠ pid := by
    rw [names.rewrite, names.logged, or_assoc, Option.isSome_eq_false_iff,
      Option.isNone_iff_eq_none]
  rw [Background.reaperStep, reaper]
  simp only [unlocked, Bool.false_eq_true, if_false, refuses]
  cases clean : status.clean with
  | false =>
      simp only [Bool.false_eq_true, false_and, if_false]
      exact ⟨names.logged, names.save, rfl⟩
  | true =>
      by_cases refused : (store.aof.path = none ∨ pid ≤ 0) ∨ store.aof.rewritePid ≠ pid
      · have kept : (kvMergeAofRewrite store pid outcome).2 = store := by
          simp only [kvMergeAofRewrite]
          split
          · rfl
          · next valid => rw [if_pos (refused.resolve_left valid)]
        simp only [refused, and_self, if_true, kept]
        exact ⟨names.logged, names.save, names.rewrite⟩
      · obtain ⟨valid, same⟩ := not_or.mp refused
        simp only [refused, and_false, if_false, if_true, kvMergeAofRewrite, if_neg valid,
          if_neg same]
        cases outcome <;> exact ⟨names.logged, names.save, rfl⟩

end Alone

end MiniKv
