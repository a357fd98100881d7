import MiniKv.Invariants.Children

/-! Two places wait for children: a SYNC for its own, and the event loop for all. When the event
loop gets the child of a SYNC, the SYNC decides on a status nobody has set, and forgets the pid of
somebody else's child.
-/

namespace MiniKv

open Foundations.Runs (Along)

variable {background : Background} {number : Nat} {child : Child}

/-- The child the event loop has waited for and not decided on. -/
def Reaper.inHand : Reaper → Option Nat
  | .polling => none
  | .reaped child _ _ => some child
  | .clearing => none
  | .comparing child _ _ => some child
  | .ending child _ _ => some child

/-- The field that names a child of the kind. -/
def Background.pidOf (background : Background) : ChildKind → Int
  | .save => background.bgsavePid
  | .rewrite => background.aofRewritePid

/-- At most one child is running. Its pid is stored, or the call that forked it is about to store
it. The child of a SYNC is left for its `waitpid`, which then returns it. A rewriting child that has
been waited for is merged or discarded, or the event loop is about to do so.
-/
structure Background.Tracked (background : Background) : Prop where
  single : ∀ (first second : Nat) (child other : Child), background.children[first]? = some child →
    background.children[second]? = some other → child.state = .running → other.state = .running →
    first = second
  named : ∀ number child, background.children[number]? = some child → child.state = .running →
    background.pidOf child.kind = child.pid
      ∨ ∃ command, .forked command number child.pid ∈ background.callers
  awaited : ∀ caller ∈ background.callers, ∀ number, caller.awaited = some number →
    ∀ child, background.children[number]? = some child → child.state ≠ .reaped
  delivered : ∀ caller ∈ background.callers, ∀ number got, caller.outcome = some (number, got) →
    ∃ status, got = some (number, status)
  settled : ∀ number child, background.children[number]? = some child → child.kind = .rewrite →
    child.state = .reaped → child.settled = true ∨ background.reaper.inHand = some number

theorem Caller.AtRest.awaited_eq {caller : Caller} (rest : caller.AtRest)
    : caller.awaited = none := by
  cases caller with
  | idle => rfl
  | acting => rfl
  | _ => exact rest.elim

/-- The child a SYNC is waiting for is there. -/
theorem Background.Phase.awaited (phase : background.Phase number child) {caller : Caller}
    (member : caller ∈ background.callers) {other : Nat} (awaits : caller.awaited = some other)
    : other = number ∧ child.state ≠ .reaped := by
  obtain ⟨index, here⟩ := List.mem_iff_getElem?.mp member
  rcases phase.caller_cases here with
    rest | ⟨command, rfl, unreaped⟩ | ⟨rfl | rfl, unreaped⟩ | ⟨status, rfl⟩
  · cases awaits.symm.trans rest.awaited_eq
  · cases command with
    | bgsave => cases awaits
    | bgrewriteaof => cases awaits
    | sync => exact ⟨(Option.some.inj awaits).symm, unreaped rfl⟩
  · exact ⟨(Option.some.inj awaits).symm, unreaped⟩
  · exact ⟨(Option.some.inj awaits).symm, unreaped⟩
  · cases awaits

/-- A rewriting child that has been waited for is in the hands of the event loop. -/
theorem Background.Phase.inHand (phase : background.Phase number child)
    (isRewrite : child.kind = .rewrite) (reaped : child.state = .reaped)
    : background.reaper.inHand = some number := by
  have compared : background.Compared number child → background.reaper.inHand = some number := by
    rintro ⟨_, status, same | same⟩ <;> rw [same] <;> rfl
  cases phase with
  | forking _ command _ _ kind _ _ _ hand =>
      rcases hand with ⟨unreaped, _⟩ | ⟨_, held⟩ | ⟨rfl, _⟩
      · exact absurd reaped unreaped
      · exact compared held
      · cases isRewrite.symm.trans kind
  | saving _ kind _ _ _ => cases isRewrite.symm.trans kind
  | syncing _ _ _ _ kind _ _ _ => cases isRewrite.symm.trans kind
  | rewriting _ _ _ _ _ hand =>
      rcases hand with ⟨unreaped, _⟩ | held | ⟨_, status, same⟩
      · exact absurd reaped unreaped
      · exact compared held
      · rw [same]
        rfl

/-- In an orderly state the children are tracked. -/
theorem Background.Orderly.tracked (orderly : background.Orderly) : background.Tracked := by
  have delivered : ∀ caller ∈ background.callers, ∀ number got,
      caller.outcome = some (number, got) → ∃ status, got = some (number, status) :=
    fun caller member number got => orderly.delivered member
  cases orderly with
  | quiet ended rest save rewrite reaper =>
      have idle : ∀ {number : Nat} {child : Child}, background.children[number]? = some child →
          child.state = .reaped :=
        fun here => (ended _ (List.mem_of_getElem? here)).1
      refine ⟨?_, ?_, ?_, delivered, ?_⟩
      · intro first second child other here _ running _
        cases running.symm.trans (idle here)
      · intro number child here running
        cases running.symm.trans (idle here)
      · intro caller member number awaits
        cases awaits.symm.trans (rest caller member).awaited_eq
      · intro number child here isRewrite _
        exact .inl ((ended child (List.mem_of_getElem? here)).2 isRewrite)
  | busy past child children ended positive unsettled phase =>
      have last : ∀ {number : Nat} {found : Child}, background.children[number]? = some found →
          found.state ≠ .reaped → number = past.length ∧ found = child :=
        fun here => last_of_unreaped ended (children ▸ here)
      refine ⟨?_, ?_, ?_, delivered, ?_⟩
      · intro first second found other here there running alive
        have firstLast := last here (by simp [running])
        have secondLast := last there (by simp [alive])
        exact firstLast.1.trans secondLast.1.symm
      · intro number found here running
        obtain ⟨rfl, rfl⟩ := last here (by simp [running])
        cases phase with
        | forking index command there _ _ _ _ _ _ =>
            exact .inr ⟨command, List.mem_of_getElem? there⟩
        | saving _ kind save _ _ => exact .inl (by rw [kind]; exact save)
        | syncing _ _ _ _ kind save _ _ => exact .inl (by rw [kind]; exact save)
        | rewriting _ kind _ _ rewrite _ => exact .inl (by rw [kind]; exact rewrite)
      · intro caller member number awaits found here
        obtain ⟨rfl, unreaped⟩ := phase.awaited member awaits
        rw [children, List.getElem?_concat_length] at here
        exact Option.some.inj here ▸ unreaped
      · intro number found here isRewrite reaped
        rw [children, List.getElem?_append] at here
        split at here
        · exact .inl ((ended found (List.mem_of_getElem? here)).2 isRewrite)
        · next outside =>
            obtain ⟨same, rfl⟩ : number - past.length = 0 ∧ child = found := by
              simpa [List.getElem?_singleton] using here
            have isLast : number = past.length := by omega
            exact .inr (isLast ▸ phase.inHand isRewrite reaped)

/-- A SYNC whose child is stolen is not going to get its status. -/
theorem Background.Steals.untracked {turn : ChildTurn} (steals : background.Steals turn)
    : ¬ (background.step turn).2.Tracked := by
  obtain ⟨pick, child, status, caller, rfl, polling, waited, member, awaits⟩ := steals
  obtain ⟨_, here, _⟩ := Background.waitpid_reported waited
  intro tracked
  simp only [Background.step, Background.reaperStep, polling, waited] at tracked
  refine tracked.awaited caller member pick awaits { child with state := .reaped } ?_ rfl
  exact List.getElem?_set_self (List.getElem?_eq_some_iff.mp here).1

/-- Nobody merges or discards a rewrite whose pid is missed. -/
theorem Background.Orderly.untracked_of_misses (orderly : background.Orderly) {turn : ChildTurn}
    (misses : background.Misses turn)
    : ¬ (background.step turn).2.Tracked := by
  obtain ⟨pick, held, pid, status, rfl, reaper, member⟩ := misses
  obtain ⟨index, here⟩ := List.mem_iff_getElem?.mp member
  intro tracked
  cases orderly with
  | quiet _ _ _ _ polling => cases reaper.symm.trans polling
  | busy past child children ended positive unsettled phase =>
      cases phase with
      | saving rest _ _ _ _ => exact rest _ member
      | rewriting rest _ _ _ _ _ => exact rest _ member
      | syncing _ _ _ _ _ _ _ hand =>
          rcases hand with ⟨_, _, wrong⟩ | ⟨_, wrong, _⟩ <;> cases reaper.symm.trans wrong
      | forking place command there others kind save rewrite logged hand =>
          obtain rfl := others.index_eq here id
          obtain ⟨rfl, rfl, rfl⟩ := Caller.forked.inj (Option.some.inj (here.symm.trans there))
          have reaped : child.state = .reaped := by
            rcases hand with ⟨_, wrong⟩ | ⟨_, reaped, _⟩ | ⟨wrong, _⟩
            · cases reaper.symm.trans wrong
            · exact reaped
            · cases wrong
          have missed : child.pid ≠ background.aofRewritePid := by omega
          simp only [Background.step, Background.reaperStep, reaper, if_neg missed] at tracked
          have found : background.children[past.length]? = some child := by
            rw [children, List.getElem?_concat_length]
          rcases tracked.settled past.length child found kind reaped with settled | held
          · cases unsettled.symm.trans settled
          · cases held

/-- All along a run the children are tracked exactly when the event loop never waits for the child
of a SYNC, and never looks for a rewriting child whose pid is not stored yet.
-/
theorem background_children_tracked_iff (logged : Bool) (workerCount : Nat)
    (turns : List ChildTurn)
    : (∀ earlier, earlier <+: turns →
        ((Background.start logged workerCount).run earlier).2.Tracked)
      ↔ Along Background.step
          (fun background turn => ¬ background.Steals turn ∧ ¬ background.Misses turn)
          (Background.start logged workerCount) turns := by
  refine @Foundations.Runs.always_iff_along_of_invariant _ _ _ Background.step _ Background.Orderly
    Background.Tracked (fun _ orderly => orderly.tracked) ?_ ?_ _
    (Background.start_orderly logged workerCount) turns
  · rintro background turn orderly ⟨keeps, sees⟩
    cases turn with
    | caller index command env => exact orderly.callerStep index command env
    | exits number status => exact orderly.exitStep number status
    | reaper pick => exact orderly.reaperStep pick keeps sees
  · intro background turn orderly tracked
    exact ⟨fun steals => steals.untracked tracked,
      fun misses => orderly.untracked_of_misses misses tracked⟩

/-- Before a SYNC with two workers waits for its child, the event loop has done so. Its `waitpid`
fails: whether it sends the snapshot depends on what happens to be in `status`. It also forgets the
pid of a save that the other worker has started meanwhile, and one more save is forked next to it.
And a rewriting child that exits before its pid is stored is waited for in vain: nobody merges its
log, and its pid keeps all later children out.
-/
theorem background_children_untracked
    : (let env := fun pid => (⟨pid, 0, .signaled 9, true⟩ : ChildEnv)
       let stolen : List ChildTurn :=
         [.caller 0 .sync (env 101), .caller 0 .sync (env 101), .caller 0 .sync (env 101),
           .exits 0 (.exited 0), .reaper 0, .reaper 0, .reaper 0,
           .caller 1 .bgsave (env 102), .caller 1 .bgsave (env 102),
           .caller 0 .sync (env 101), .caller 0 .sync (env 101)]
       let reached := ((Background.start true 2).run stolen).2
       reached.callers = [.acting 0 none, .idle]
       ∧ (reached.step (.caller 0 .sync ⟨0, 0, .exited 0, true⟩)).1 = some 0
       ∧ (reached.step (.caller 0 .sync ⟨0, 0, .signaled 9, true⟩)).1 = some (-1)
       ∧ reached.bgsavePid = 0 ∧ reached.aofRewritePid = 0
       ∧ (reached.step (.caller 1 .bgsave (env 103))).2.children
           = [⟨101, .save, .reaped, false⟩, ⟨102, .save, .running, false⟩,
               ⟨103, .save, .running, false⟩]
       ∧ ¬ reached.Tracked)
      ∧ (let env : ChildEnv := ⟨101, 0, .exited 0, true⟩
         let missed : List ChildTurn :=
           [.caller 0 .bgrewriteaof env, .exits 0 (.exited 0), .reaper 0, .reaper 0, .reaper 0,
             .caller 0 .bgrewriteaof env]
         let reached := ((Background.start true 1).run missed).2
         reached.children = [⟨101, .rewrite, .reaped, false⟩]
         ∧ reached.reaper = .polling ∧ reached.aofRewritePid = 101
         ∧ ¬ reached.Tracked) := by
  constructor
  · refine ⟨by decide, by decide, by decide, by decide, by decide, by decide, fun tracked => ?_⟩
    obtain ⟨status, wrong⟩ := tracked.delivered (.acting 0 none) (by decide) 0 none rfl
    cases wrong
  · refine ⟨by decide, by decide, by decide, fun tracked => ?_⟩
    rcases tracked.settled 0 ⟨101, .rewrite, .reaped, false⟩ (by decide) rfl rfl with wrong | wrong
    · cases wrong
    · revert wrong
      decide

end MiniKv
