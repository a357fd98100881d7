import MiniKv.Server.Children

/-! As long as the event loop leaves the child of a SYNC alone, and does not look for a rewriting
child before its pid is stored, one child is there at a time and somebody takes care of it.
-/

namespace MiniKv

variable {background : Background} {index pick number : Nat} {child : Child}

/-- The child of which a SYNC is still to get the status. -/
def Caller.awaited : Caller → Option Nat
  | .idle => none
  | .forked .bgsave _ _ => none
  | .forked .bgrewriteaof _ _ => none
  | .forked .sync child _ => some child
  | .waiting child => some child
  | .blocked child _ => some child
  | .resetting _ _ => none
  | .acting _ _ => none

/-- The child of a SYNC behind its `waitpid`, and what this call has returned. -/
def Caller.outcome : Caller → Option (Nat × Option (Nat × ExitStatus))
  | .idle => none
  | .forked _ _ _ => none
  | .waiting _ => none
  | .blocked _ _ => none
  | .resetting child got => some (child, got)
  | .acting child got => some (child, got)

/-- The `waitpid(-1)` of the event loop returns the child of a SYNC. -/
def Background.Steals (background : Background) (turn : ChildTurn) : Prop :=
  ∃ pick child status caller, turn = .reaper pick ∧ background.reaper = .polling
    ∧ background.waitpid (-1) pick = .reported pick child status
    ∧ caller ∈ background.callers ∧ caller.awaited = some pick

/-- The event loop compares the pid of a rewriting child with `aof_rewrite_pid` while
`kv_bgrewriteaof` is still to store it there.
-/
def Background.Misses (background : Background) (turn : ChildTurn) : Prop :=
  ∃ pick child pid status, turn = .reaper pick
    ∧ background.reaper = .comparing child pid status
    ∧ .forked .bgrewriteaof child pid ∈ background.callers

-- Orderly states

/-- Nothing is left to be done about the child. -/
def Child.Over (child : Child) : Prop :=
  child.state = .reaped ∧ (child.kind = .rewrite → child.settled = true)

/-- The worker is in no command, or behind a `waitpid` that has returned its own child. -/
def Caller.AtRest : Caller → Prop
  | .idle => True
  | .acting child got => ∃ status, got = some (child, status)
  | _ => False

/-- All workers but one are at rest. -/
def Background.RestBut (background : Background) (index : Nat) : Prop :=
  ∀ other caller, background.callers[other]? = some caller → other ≠ index → caller.AtRest

/-- The child is still to be waited for. -/
def Background.Untouched (background : Background) (child : Child) : Prop :=
  child.state ≠ .reaped ∧ background.reaper = .polling

/-- The event loop has waited for the child and compares its pid. -/
def Background.Compared (background : Background) (number : Nat) (child : Child) : Prop :=
  child.state = .reaped
    ∧ ∃ status, background.reaper = .reaped number child.pid status
      ∨ background.reaper = .comparing number child.pid status

/-- What goes on around the one child that is not over: it has just been forked, or it is a save of
BGSAVE, a save of SYNC or a rewrite whose pid is stored.
-/
inductive Background.Phase (background : Background) (number : Nat) (child : Child) : Prop where
  | forking (index : Nat) (command : ChildCommand)
      (here : background.callers[index]? = some (.forked command number child.pid))
      (others : background.RestBut index) (kind : child.kind = command.kind)
      (save : background.bgsavePid = 0) (rewrite : background.aofRewritePid = 0)
      (logged : command = .bgrewriteaof → background.logged = true)
      (hand : background.Untouched child ∨ (command ≠ .sync ∧ background.Compared number child)
        ∨ (command = .bgsave ∧ child.state = .reaped ∧ background.reaper = .polling))
  | saving (rest : ∀ caller ∈ background.callers, caller.AtRest) (kind : child.kind = .save)
      (save : background.bgsavePid = child.pid) (rewrite : background.aofRewritePid = 0)
      (hand : background.Untouched child ∨ background.Compared number child
        ∨ (child.state = .reaped ∧ background.reaper = .clearing))
  | syncing (index : Nat) (caller : Caller) (here : background.callers[index]? = some caller)
      (others : background.RestBut index) (kind : child.kind = .save)
      (save : background.bgsavePid = child.pid) (rewrite : background.aofRewritePid = 0)
      (hand : ((caller = .waiting number ∨ caller = .blocked number child.pid)
          ∧ background.Untouched child)
        ∨ (child.state = .reaped ∧ background.reaper = .polling
          ∧ ∃ status, caller = .resetting number (some (number, status))))
  | rewriting (rest : ∀ caller ∈ background.callers, caller.AtRest) (kind : child.kind = .rewrite)
      (logged : background.logged = true) (save : background.bgsavePid = 0)
      (rewrite : background.aofRewritePid = child.pid)
      (hand : background.Untouched child ∨ background.Compared number child
        ∨ (child.state = .reaped ∧ ∃ status, background.reaper = .ending number child.pid status))

/-- All children but the last are over, and so is this one, or it is taken care of. When all are
over, `bgsave_pid` may still name one.
-/
inductive Background.Orderly (background : Background) : Prop where
  | quiet (ended : ∀ child ∈ background.children, child.Over)
      (rest : ∀ caller ∈ background.callers, caller.AtRest)
      (save : 0 ≤ background.bgsavePid) (rewrite : background.aofRewritePid = 0)
      (reaper : background.reaper = .polling)
  | busy (past : List Child) (child : Child) (children : background.children = past ++ [child])
      (ended : ∀ earlier ∈ past, earlier.Over) (positive : 0 < child.pid)
      (unsettled : child.settled = false) (phase : background.Phase past.length child)

theorem Background.start_orderly (logged : Bool) (workerCount : Nat)
    : (Background.start logged workerCount).Orderly := by
  refine .quiet ?_ ?_ (le_refl _) rfl rfl
  · intro child member
    cases member
  · intro caller member
    rw [List.eq_of_mem_replicate member]
    trivial

/-- The only child to be waited for is the last one. -/
theorem last_of_unreaped {past : List Child} {found : Child}
    (ended : ∀ earlier ∈ past, earlier.Over)
    (here : (past ++ [child])[number]? = some found) (unreaped : found.state ≠ .reaped)
    : number = past.length ∧ found = child := by
  rcases lt_trichotomy number past.length with before | rfl | behind
  · rw [List.getElem?_append_left before] at here
    exact absurd (ended found (List.mem_of_getElem? here)).1 unreaped
  · rw [List.getElem?_concat_length] at here
    exact ⟨rfl, (Option.some.inj here).symm⟩
  · rw [List.getElem?_eq_none (by simp; omega)] at here
    cases here

-- Workers at rest

theorem Background.set_self {caller : Caller} (here : background.callers[index]? = some caller)
    (new : Caller)
    : (background.callers.set index new)[index]? = some new :=
  List.getElem?_set_self (List.getElem?_eq_some_iff.mp here).1

theorem Background.RestBut.set (others : background.RestBut index) {new : Caller}
    (rest : new.AtRest)
    : ∀ caller ∈ background.callers.set index new, caller.AtRest := by
  intro caller member
  obtain ⟨other, here⟩ := List.mem_iff_getElem?.mp member
  rw [List.getElem?_set] at here
  split at here
  · split at here
    · obtain rfl := Option.some.inj here
      exact rest
    · cases here
  · next different => exact others other caller here (Ne.symm different)

theorem Background.RestBut.setCaller (others : background.RestBut index) (new : Caller)
    : (background.setCaller index new).RestBut index := by
  intro other caller here different
  rw [Background.setCaller, List.getElem?_set_ne (Ne.symm different)] at here
  exact others other caller here different

theorem restBut_of_rest (rest : ∀ caller ∈ background.callers, caller.AtRest) (index : Nat)
    : background.RestBut index :=
  fun _ caller here _ => rest caller (List.mem_of_getElem? here)

/-- A worker that goes from rest to rest changes nothing for another. -/
theorem Background.RestBut.setOther (others : background.RestBut index) {other : Nat}
    {new : Caller} (rest : new.AtRest)
    : (background.setCaller other new).RestBut index := by
  intro place caller here different
  rw [Background.setCaller, List.getElem?_set] at here
  split at here
  · split at here
    · obtain rfl := Option.some.inj here
      exact rest
    · cases here
  · exact others place caller here different

/-- Nobody notices a worker that goes from rest to rest. -/
theorem Background.Phase.setAtRest (phase : background.Phase number child) {old new : Caller}
    (here : background.callers[index]? = some old) (before : old.AtRest) (after : new.AtRest)
    : (background.setCaller index new).Phase number child := by
  have kept : ∀ {place : Nat} {caller : Caller}, background.callers[place]? = some caller →
      ¬ caller.AtRest → (background.setCaller index new).callers[place]? = some caller := by
    intro place caller there busy
    have different : index ≠ place := by
      rintro rfl
      exact busy (Option.some.inj (there.symm.trans here) ▸ before)
    rw [Background.setCaller, List.getElem?_set_ne different]
    exact there
  cases phase with
  | forking place command there others kind save rewrite logged hand =>
      exact .forking place command (kept there id) (others.setOther after) kind save rewrite logged
        hand
  | saving rest kind save rewrite hand =>
      exact .saving ((restBut_of_rest rest index).set after) kind save rewrite hand
  | syncing place caller there others kind save rewrite hand =>
      refine .syncing place caller (kept there ?_) (others.setOther after) kind save rewrite hand
      rcases hand with ⟨rfl | rfl, _⟩ | ⟨_, _, _, rfl⟩ <;> exact id
  | rewriting rest kind logged save rewrite hand =>
      exact .rewriting ((restBut_of_rest rest index).set after) kind logged save rewrite hand

theorem Background.Orderly.setAtRest (orderly : background.Orderly) {old new : Caller}
    (here : background.callers[index]? = some old) (before : old.AtRest) (after : new.AtRest)
    : (background.setCaller index new).Orderly := by
  cases orderly with
  | quiet ended rest save rewrite reaper =>
      exact .quiet ended ((restBut_of_rest rest index).set after) save rewrite reaper
  | busy past child children ended positive unsettled phase =>
      exact .busy past child children ended positive unsettled (phase.setAtRest here before after)

-- A child exits

theorem Background.Phase.polling (phase : background.Phase number child)
    (unreaped : child.state ≠ .reaped)
    : background.reaper = .polling := by
  cases phase with
  | forking _ _ _ _ _ _ _ _ hand =>
      rcases hand with untouched | ⟨_, reaped, _⟩ | ⟨_, reaped, _⟩
      · exact untouched.2
      · exact absurd reaped unreaped
      · exact absurd reaped unreaped
  | saving _ _ _ _ hand =>
      rcases hand with untouched | ⟨reaped, _⟩ | ⟨reaped, _⟩
      · exact untouched.2
      · exact absurd reaped unreaped
      · exact absurd reaped unreaped
  | syncing _ _ _ _ _ _ _ hand =>
      rcases hand with ⟨_, untouched⟩ | ⟨reaped, _⟩
      · exact untouched.2
      · exact absurd reaped unreaped
  | rewriting _ _ _ _ _ hand =>
      rcases hand with untouched | ⟨reaped, _⟩ | ⟨reaped, _⟩
      · exact untouched.2
      · exact absurd reaped unreaped
      · exact absurd reaped unreaped

/-- How far a child has come does not matter before it is waited for. -/
theorem Background.Phase.exited (phase : background.Phase number child)
    (unreaped : child.state ≠ .reaped) (status : ExitStatus) (children : List Child)
    : ({ background with children } : Background).Phase number
        { child with state := .exited status } := by
  have untouched : ({ background with children } : Background).Untouched
      { child with state := .exited status } :=
    ⟨by simp, phase.polling unreaped⟩
  cases phase with
  | forking index command here others kind save rewrite logged _ =>
      exact .forking index command here others kind save rewrite logged (.inl untouched)
  | saving rest kind save rewrite _ => exact .saving rest kind save rewrite (.inl untouched)
  | syncing index caller here others kind save rewrite hand =>
      rcases hand with ⟨waits, _⟩ | ⟨reaped, _⟩
      · exact .syncing index caller here others kind save rewrite (.inl ⟨waits, untouched⟩)
      · exact absurd reaped unreaped
  | rewriting rest kind logged save rewrite _ =>
      exact .rewriting rest kind logged save rewrite (.inl untouched)

theorem Background.Orderly.exitStep (orderly : background.Orderly) (number : Nat)
    (status : ExitStatus)
    : (background.exitStep number status).Orderly := by
  rw [Background.exitStep]
  cases here : background.children[number]? with
  | none => exact orderly
  | some found =>
      simp only
      split
      · next running =>
          have unreaped : found.state ≠ .reaped := by simp [running]
          cases orderly with
          | quiet ended rest save rewrite reaper =>
              exact absurd (ended found (List.mem_of_getElem? here)).1 unreaped
          | busy past child children ended positive unsettled phase =>
              rw [children] at here
              obtain ⟨rfl, rfl⟩ := last_of_unreaped ended here unreaped
              refine .busy past { found with state := .exited status } ?_ ended positive unsettled
                (phase.exited unreaped status _)
              simp [Background.setChild, children]
      · exact orderly

-- What waitpid returns

theorem Background.waitpid_reported {target : Int} {found : Child} {status : ExitStatus}
    (reported : background.waitpid target pick = .reported number found status)
    : number = pick ∧ background.children[pick]? = some found ∧ found.state = .exited status := by
  rw [Background.waitpid] at reported
  split at reported
  · cases here : background.children[pick]? with
    | none => simp [here] at reported
    | some child =>
        simp only [here] at reported
        split at reported
        · split at reported
          · next exited =>
              cases reported
              exact ⟨rfl, rfl, exited⟩
          · cases reported
        · cases reported
  · cases reported

theorem Background.waitpid_noChild {target : Int} {found : Child}
    (nobody : background.waitpid target pick = .noChild) (member : found ∈ background.children)
    (target_eq : found.pid = target)
    : found.state = .reaped := by
  rw [Background.waitpid] at nobody
  split at nobody
  · split at nobody
    · cases nobody
    · split at nobody
      · split at nobody <;> cases nobody
      · cases nobody
  · next none =>
      by_contra unreaped
      have waited : found.waitedFor target = true := by
        simp [Child.waitedFor, unreaped, target_eq]
      exact none (List.any_eq_true.mpr ⟨found, member, waited⟩)

-- A worker

/-- Behind its `fork` a worker keeps the others out. -/
theorem Background.locked_of_forked {command : ChildCommand} {pid : Int}
    (here : background.callers[index]? = some (.forked command number pid))
    : background.locked = true :=
  List.any_eq_true.mpr ⟨_, List.mem_of_getElem? here, rfl⟩

theorem Background.unlocked_of_rest (rest : ∀ caller ∈ background.callers, caller.AtRest)
    : background.locked = false := by
  rw [Background.locked, List.any_eq_false]
  intro caller member
  have atRest := rest caller member
  cases caller with
  | forked command child pid => exact atRest.elim
  | _ => simp

/-- With a pid stored nothing is forked. -/
theorem Background.refuses_of_pid (named : 0 < background.bgsavePid ∨ 0 < background.aofRewritePid)
    (command : ChildCommand)
    : ∃ status, background.refuses command = some status := by
  have nonzero : background.bgsavePid ≠ 0 ∨ background.aofRewritePid ≠ 0 := by omega
  cases command with
  | bgsave => exact ⟨_, if_pos nonzero⟩
  | sync => exact ⟨_, if_pos nonzero⟩
  | bgrewriteaof =>
      by_cases logged : background.logged = false
      · exact ⟨_, if_pos logged⟩
      · exact ⟨_, (if_neg logged).trans (if_pos named)⟩

/-- As long as a child is not over, no other is forked. -/
theorem Background.Phase.fork_eq (phase : background.Phase number child) (positive : 0 < child.pid)
    (index : Nat) (command : ChildCommand) (env : ChildEnv)
    : (background.fork index command env).2 = background := by
  have kept : 0 < background.bgsavePid ∨ 0 < background.aofRewritePid →
      (background.fork index command env).2 = background := by
    intro named
    obtain ⟨status, refused⟩ := background.refuses_of_pid named command
    rw [Background.fork, refused]
    split <;> rfl
  cases phase with
  | forking place _ here _ _ _ _ _ _ =>
      rw [Background.fork, if_pos (Background.locked_of_forked here)]
  | saving _ _ save _ _ => exact kept (.inl (save ▸ positive))
  | syncing _ _ _ _ _ save _ _ => exact kept (.inl (save ▸ positive))
  | rewriting _ _ _ _ rewrite _ => exact kept (.inr (rewrite ▸ positive))

theorem Background.zero_of_refuses (save : 0 ≤ background.bgsavePid) {command : ChildCommand}
    (accepted : background.refuses command = none)
    : background.bgsavePid = 0 ∧ (command = .bgrewriteaof → background.logged = true) := by
  cases command with
  | bgrewriteaof =>
      simp only [Background.refuses] at accepted
      split at accepted
      · cases accepted
      · next logged =>
          split at accepted
          · cases accepted
          · next zero => exact ⟨by omega, fun _ => Bool.eq_true_of_not_eq_false logged⟩
  | _ =>
      rw [Background.refuses, ite_eq_right_iff] at accepted
      refine ⟨?_, by simp⟩
      by_contra nonzero
      cases accepted (.inl nonzero)

theorem Background.Orderly.fork (orderly : background.Orderly)
    (here : background.callers[index]? = some .idle) (command : ChildCommand) (env : ChildEnv)
    : (background.fork index command env).2.Orderly := by
  cases orderly with
  | busy past child children ended positive unsettled phase =>
      rw [phase.fork_eq positive]
      exact .busy past child children ended positive unsettled phase
  | quiet ended rest save rewrite reaper =>
      have same : background.Orderly := .quiet ended rest save rewrite reaper
      rw [Background.fork]
      split
      · exact same
      · split
        · exact same
        · next accepted =>
            split
            · exact same
            · next available =>
                obtain ⟨zero, logged⟩ := Background.zero_of_refuses save accepted
                have positive : 0 < env.pid := by omega
                refine .busy background.children ⟨env.pid, command.kind, .running, false⟩ rfl ended
                  positive rfl (.forking index command ?_ ?_ rfl zero rewrite logged ?_)
                · exact List.getElem?_set_self (List.getElem?_eq_some_iff.mp here).1
                · exact (restBut_of_rest rest index).setCaller _
                · exact .inl ⟨by simp, reaper⟩

theorem Background.RestBut.index_eq (others : background.RestBut index) {other : Nat}
    {caller : Caller} (here : background.callers[other]? = some caller) (busy : ¬ caller.AtRest)
    : other = index := by
  by_contra different
  exact busy (others other caller here different)

theorem over_append {past : List Child} (ended : ∀ earlier ∈ past, earlier.Over)
    (last : child.Over)
    : ∀ each ∈ past ++ [child], each.Over := by
  intro each member
  rcases List.mem_append.mp member with earlier | same
  · exact ended each earlier
  · exact List.mem_singleton.mp same ▸ last

/-- A worker stores the pid of the child it has forked. -/
theorem Background.Orderly.store (orderly : background.Orderly) {command : ChildCommand}
    {pid : Int} (here : background.callers[index]? = some (.forked command number pid))
    (env : ChildEnv) (next : ChildCommand)
    : (background.callerStep index next env).2.Orderly := by
  have member := List.mem_of_getElem? here
  cases orderly with
  | quiet _ rest _ _ _ => exact (rest _ member).elim
  | busy past child children ended positive unsettled phase =>
      cases phase with
      | saving rest _ _ _ _ => exact (rest _ member).elim
      | rewriting rest _ _ _ _ _ => exact (rest _ member).elim
      | syncing place caller there others kind save rewrite hand =>
          obtain rfl := others.index_eq here id
          obtain rfl := Option.some.inj (here.symm.trans there)
          rcases hand with ⟨wrong | wrong, _⟩ | ⟨_, _, _, wrong⟩ <;> cases wrong
      | forking place own there others kind save rewrite logged hand =>
          obtain rfl := others.index_eq here id
          obtain ⟨rfl, rfl, rfl⟩ := Caller.forked.inj (Option.some.inj (here.symm.trans there))
          rw [Background.callerStep, here]
          cases command with
          | bgsave =>
              rcases hand with untouched | ⟨_, compared⟩ | ⟨_, reaped, polling⟩
              · exact .busy past child children ended positive unsettled
                  (.saving (others.set trivial) kind rfl rewrite (.inl untouched))
              · exact .busy past child children ended positive unsettled
                  (.saving (others.set trivial) kind rfl rewrite (.inr (.inl compared)))
              · refine .quiet ?_ (others.set trivial) (le_of_lt positive) rewrite polling
                show ∀ each ∈ background.children, each.Over
                rw [children]
                exact over_append ended ⟨reaped, by simp [kind, ChildCommand.kind]⟩
          | bgrewriteaof =>
              refine .busy past child children ended positive unsettled
                (.rewriting (others.set trivial) kind (logged rfl) save rfl ?_)
              rcases hand with untouched | ⟨_, compared⟩ | ⟨wrong, _⟩
              · exact .inl untouched
              · exact .inr (.inl compared)
              · cases wrong
          | sync =>
              refine .busy past child children ended positive unsettled
                (.syncing index (.waiting past.length) (Background.set_self here _)
                  (others.setCaller _) kind rfl rewrite ?_)
              rcases hand with untouched | ⟨wrong, _⟩ | ⟨wrong, _⟩
              · exact .inl ⟨.inl rfl, untouched⟩
              · exact absurd rfl wrong
              · cases wrong

/-- A SYNC with its child goes on. -/
theorem Background.Orderly.sync (orderly : background.Orderly) {caller : Caller}
    (here : background.callers[index]? = some caller)
    (syncs : caller.awaited.isSome ∨ ∃ child got, caller = .resetting child got)
    (notForked : ∀ command child pid, caller ≠ .forked command child pid)
    (env : ChildEnv) (next : ChildCommand)
    : (background.callerStep index next env).2.Orderly := by
  have member := List.mem_of_getElem? here
  have busy : ¬ caller.AtRest := by
    rcases syncs with awaits | ⟨_, _, rfl⟩
    · cases caller with
      | idle => cases awaits
      | acting => cases awaits
      | _ => exact id
    · exact id
  cases orderly with
  | quiet _ rest _ _ _ => exact absurd (rest _ member) busy
  | busy past child children ended positive unsettled phase =>
      cases phase with
      | saving rest _ _ _ _ => exact absurd (rest _ member) busy
      | rewriting rest _ _ _ _ _ => exact absurd (rest _ member) busy
      | forking place own there others kind save rewrite logged hand =>
          obtain rfl := others.index_eq here busy
          exact absurd (Option.some.inj (here.symm.trans there)) (notForked own _ _)
      | syncing place own there others kind save rewrite hand =>
          obtain rfl := others.index_eq here busy
          obtain rfl := Option.some.inj (here.symm.trans there)
          rw [Background.callerStep, here]
          rcases hand with ⟨rfl | rfl, untouched⟩ | ⟨reaped, polling, status, rfl⟩
          · -- it reads its own pid
            rw [save]
            exact .busy past child children ended positive unsettled
              (.syncing index (.blocked past.length child.pid) (Background.set_self here _)
                (others.setCaller _) kind save rewrite (.inl ⟨.inr rfl, untouched⟩))
          · simp only
            cases waited : background.waitpid child.pid env.pick with
            | noChild =>
                have last : child ∈ background.children := by simp [children]
                exact absurd (Background.waitpid_noChild waited last rfl) untouched.1
            | pending =>
                exact .busy past child children ended positive unsettled
                  (.syncing index _ here others kind save rewrite (.inl ⟨.inr rfl, untouched⟩))
            | reported other found status =>
                obtain ⟨rfl, found_eq, exited⟩ := Background.waitpid_reported waited
                rw [children] at found_eq
                obtain ⟨last, rfl⟩ := last_of_unreaped ended found_eq (by simp [exited])
                refine .busy past { found with state := .reaped } ?_ ended positive unsettled
                  (.syncing index (.resetting past.length (some (past.length, status))) ?_
                    (others.setCaller _) kind save rewrite
                    (.inr ⟨rfl, untouched.2, status, rfl⟩))
                · simp [Background.setChild, Background.setCaller, children, last]
                · rw [last]
                  exact Background.set_self here _
          · refine .quiet ?_ (others.set ⟨status, rfl⟩) (le_refl _) rewrite polling
            show ∀ each ∈ background.children, each.Over
            rw [children]
            exact over_append ended ⟨reaped, by simp [kind]⟩

/-- What a worker may be at. -/
theorem Background.Phase.caller_cases (phase : background.Phase number child) {caller : Caller}
    (here : background.callers[index]? = some caller)
    : caller.AtRest
      ∨ (∃ command, caller = .forked command number child.pid
          ∧ (command = .sync → child.state ≠ .reaped))
      ∨ ((caller = .waiting number ∨ caller = .blocked number child.pid) ∧ child.state ≠ .reaped)
      ∨ ∃ status, caller = .resetting number (some (number, status)) := by
  by_cases rest : caller.AtRest
  · exact .inl rest
  · cases phase with
    | saving all _ _ _ _ => exact .inl (all caller (List.mem_of_getElem? here))
    | rewriting all _ _ _ _ _ => exact .inl (all caller (List.mem_of_getElem? here))
    | forking place command there others _ _ _ _ hand =>
        obtain rfl := others.index_eq here rest
        refine .inr (.inl ⟨command, Option.some.inj (here.symm.trans there), fun isSync => ?_⟩)
        rcases hand with untouched | ⟨wrong, _⟩ | ⟨wrong, _⟩
        · exact untouched.1
        · exact absurd isSync wrong
        · cases isSync.symm.trans wrong
    | syncing place own there others _ _ _ hand =>
        obtain rfl := others.index_eq here rest
        obtain rfl := Option.some.inj (here.symm.trans there)
        rcases hand with ⟨waits, untouched⟩ | ⟨_, _, resets⟩
        · exact .inr (.inr (.inl ⟨waits, untouched.1⟩))
        · exact .inr (.inr (.inr resets))

theorem Background.Orderly.delivered (orderly : background.Orderly) {caller : Caller}
    (member : caller ∈ background.callers) {got : Option (Nat × ExitStatus)}
    (outcome : caller.outcome = some (number, got))
    : ∃ status, got = some (number, status) := by
  have ofRest : caller.AtRest → ∃ status, got = some (number, status) := by
    intro rest
    cases caller with
    | acting child other =>
        obtain ⟨rfl, rfl⟩ := Prod.mk.inj (Option.some.inj outcome)
        exact rest
    | resetting => exact rest.elim
    | _ => cases outcome
  cases orderly with
  | quiet _ rest _ _ _ => exact ofRest (rest caller member)
  | busy past child _ _ _ _ phase =>
      obtain ⟨index, here⟩ := List.mem_iff_getElem?.mp member
      rcases phase.caller_cases here with rest | ⟨_, rfl, _⟩ | ⟨rfl | rfl, _⟩ | ⟨status, rfl⟩
      · exact ofRest rest
      · cases outcome
      · cases outcome
      · cases outcome
      · obtain ⟨rfl, rfl⟩ := Prod.mk.inj (Option.some.inj outcome)
        exact ⟨status, rfl⟩

/-- What a worker does is orderly. -/
theorem Background.Orderly.callerStep (orderly : background.Orderly) (index : Nat)
    (command : ChildCommand) (env : ChildEnv)
    : (background.callerStep index command env).2.Orderly := by
  cases here : background.callers[index]? with
  | none =>
      rw [Background.callerStep, here]
      exact orderly
  | some caller =>
      cases caller with
      | idle =>
          rw [Background.callerStep, here]
          exact orderly.fork here command env
      | forked own child pid => exact orderly.store here env command
      | resetting child got =>
          exact orderly.sync here (.inr ⟨child, got, rfl⟩) (by simp) env command
      | acting child got =>
          have idle : Caller.AtRest .idle := trivial
          rw [Background.callerStep, here]
          exact orderly.setAtRest here (orderly.delivered (List.mem_of_getElem? here) rfl) idle
      | _ => exact orderly.sync here (.inl rfl) (by simp) env command

-- The event loop

/-- The event loop gets a child that is not the one of a SYNC. -/
theorem Background.Phase.reap (phase : background.Phase number child)
    (unreaped : child.state ≠ .reaped) (status : ExitStatus) (children : List Child)
    (kept : ∀ caller ∈ background.callers, caller.awaited ≠ some number)
    : ({ background with children, reaper := .reaped number child.pid status } : Background).Phase
        number { child with state := .reaped } := by
  have compared : ({ background with
      children, reaper := .reaped number child.pid status } : Background).Compared number
        { child with state := .reaped } :=
    ⟨rfl, status, .inl rfl⟩
  cases phase with
  | saving rest kind save rewrite _ => exact .saving rest kind save rewrite (.inr (.inl compared))
  | rewriting rest kind logged save rewrite _ =>
      exact .rewriting rest kind logged save rewrite (.inr (.inl compared))
  | forking index command here others kind save rewrite logged _ =>
      refine .forking index command here others kind save rewrite logged
        (.inr (.inl ⟨?_, compared⟩))
      rintro rfl
      exact kept _ (List.mem_of_getElem? here) rfl
  | syncing index caller here others kind save rewrite hand =>
      have member := List.mem_of_getElem? here
      rcases hand with ⟨rfl | rfl, _⟩ | ⟨reaped, _⟩
      · exact absurd rfl (kept _ member)
      · exact absurd rfl (kept _ member)
      · exact absurd reaped unreaped

/-- The event loop waits for a child. -/
theorem Background.Orderly.poll (orderly : background.Orderly)
    (reaper : background.reaper = .polling) (keeps : ¬ background.Steals (.reaper pick))
    : (background.reaperStep pick).Orderly := by
  rw [Background.reaperStep, reaper]
  simp only
  cases waited : background.waitpid (-1) pick with
  | noChild => exact orderly
  | pending => exact orderly
  | reported index found status =>
      obtain ⟨rfl, here, exited⟩ := Background.waitpid_reported waited
      have unreaped : found.state ≠ .reaped := by simp [exited]
      cases orderly with
      | quiet ended _ _ _ _ =>
          exact absurd (ended found (List.mem_of_getElem? here)).1 unreaped
      | busy past child children ended positive unsettled phase =>
          rw [children] at here
          obtain ⟨rfl, rfl⟩ := last_of_unreaped ended here unreaped
          refine .busy past { found with state := .reaped } ?_ ended positive unsettled
            (phase.reap unreaped status _ ?_)
          · simp [Background.setChild, children]
          · intro caller member awaits
            exact keeps ⟨_, _, _, caller, rfl, reaper, waited, member, awaits⟩

/-- The event loop compares a pid with `bgsave_pid`. -/
theorem Background.Orderly.compareSave (orderly : background.Orderly) {held : Nat} {pid : Int}
    {status : ExitStatus} (reaper : background.reaper = .reaped held pid status)
    : (background.reaperStep pick).Orderly := by
  cases orderly with
  | quiet _ _ _ _ polling => cases reaper.symm.trans polling
  | busy past child children ended positive unsettled phase =>
      rw [Background.reaperStep, reaper]
      simp only
      cases phase with
      | forking index command here others kind save rewrite logged hand =>
          obtain ⟨noSync, reaped, rfl, rfl⟩ : command ≠ .sync ∧ child.state = .reaped
              ∧ held = past.length ∧ pid = child.pid := by
            simpa [Background.Untouched, Background.Compared, reaper] using hand
          rw [if_neg (by omega)]
          exact .busy past child children ended positive unsettled
            (.forking index command here others kind save rewrite logged
              (.inr (.inl ⟨noSync, reaped, status, .inr rfl⟩)))
      | saving rest kind save rewrite hand =>
          obtain ⟨reaped, rfl, rfl⟩ : child.state = .reaped ∧ held = past.length
              ∧ pid = child.pid := by
            simpa [Background.Untouched, Background.Compared, reaper] using hand
          rw [if_pos save.symm]
          exact .busy past child children ended positive unsettled
            (.saving rest kind save rewrite (.inr (.inr ⟨reaped, rfl⟩)))
      | syncing _ _ _ _ _ _ _ hand =>
          rcases hand with ⟨_, _, polling⟩ | ⟨_, polling, _⟩ <;> cases reaper.symm.trans polling
      | rewriting rest kind logged save rewrite hand =>
          obtain ⟨reaped, rfl, rfl⟩ : child.state = .reaped ∧ held = past.length
              ∧ pid = child.pid := by
            simpa [Background.Untouched, Background.Compared, reaper] using hand
          rw [if_neg (by omega)]
          exact .busy past child children ended positive unsettled
            (.rewriting rest kind logged save rewrite (.inr (.inl ⟨reaped, status, .inr rfl⟩)))

/-- The event loop forgets the pid of a save. -/
theorem Background.Orderly.clear (orderly : background.Orderly)
    (reaper : background.reaper = .clearing)
    : (background.reaperStep pick).Orderly := by
  cases orderly with
  | quiet _ _ _ _ polling => cases reaper.symm.trans polling
  | busy past child children ended positive unsettled phase =>
      rw [Background.reaperStep, reaper]
      cases phase with
      | forking _ _ _ _ _ _ _ _ hand =>
          simp [Background.Untouched, Background.Compared, reaper] at hand
      | syncing _ _ _ _ _ _ _ hand =>
          rcases hand with ⟨_, _, wrong⟩ | ⟨_, wrong, _⟩ <;> cases reaper.symm.trans wrong
      | rewriting _ _ _ _ _ hand =>
          simp [Background.Untouched, Background.Compared, reaper] at hand
      | saving rest kind save rewrite hand =>
          have reaped : child.state = .reaped := by
            simpa [Background.Untouched, Background.Compared, reaper] using hand
          refine .quiet ?_ rest (le_refl _) rewrite rfl
          show ∀ each ∈ background.children, each.Over
          rw [children]
          exact over_append ended ⟨reaped, by simp [kind]⟩

/-- The event loop compares a pid with `aof_rewrite_pid`. A save it does not find is left to nobody,
and `bgsave_pid` names it from then on.
-/
theorem Background.Orderly.compareRewrite (orderly : background.Orderly) {held : Nat} {pid : Int}
    {status : ExitStatus} (reaper : background.reaper = .comparing held pid status)
    (sees : ¬ background.Misses (.reaper pick))
    : (background.reaperStep pick).Orderly := by
  cases orderly with
  | quiet _ _ _ _ polling => cases reaper.symm.trans polling
  | busy past child children ended positive unsettled phase =>
      rw [Background.reaperStep, reaper]
      simp only
      cases phase with
      | forking index command here others kind save rewrite logged hand =>
          obtain ⟨noSync, reaped, rfl, rfl⟩ : command ≠ .sync ∧ child.state = .reaped
              ∧ held = past.length ∧ pid = child.pid := by
            simpa [Background.Untouched, Background.Compared, reaper] using hand
          rw [if_neg (by omega)]
          cases command with
          | sync => exact absurd rfl noSync
          | bgrewriteaof =>
              exact absurd ⟨pick, _, _, _, rfl, reaper, List.mem_of_getElem? here⟩ sees
          | bgsave =>
              exact .busy past child children ended positive unsettled
                (.forking index .bgsave here others kind save rewrite logged
                  (.inr (.inr ⟨rfl, reaped, rfl⟩)))
      | saving rest kind save rewrite hand =>
          obtain ⟨reaped, rfl, rfl⟩ : child.state = .reaped ∧ held = past.length
              ∧ pid = child.pid := by
            simpa [Background.Untouched, Background.Compared, reaper] using hand
          rw [if_neg (by omega)]
          refine .quiet ?_ rest (save.symm ▸ le_of_lt positive) rewrite rfl
          show ∀ each ∈ background.children, each.Over
          rw [children]
          exact over_append ended ⟨reaped, by simp [kind]⟩
      | syncing _ _ _ _ _ _ _ hand =>
          rcases hand with ⟨_, _, polling⟩ | ⟨_, polling, _⟩ <;> cases reaper.symm.trans polling
      | rewriting rest kind logged save rewrite hand =>
          obtain ⟨reaped, rfl, rfl⟩ : child.state = .reaped ∧ held = past.length
              ∧ pid = child.pid := by
            simpa [Background.Untouched, Background.Compared, reaper] using hand
          rw [if_pos rewrite.symm]
          exact .busy past child children ended positive unsettled
            (.rewriting rest kind logged save rewrite (.inr (.inr ⟨reaped, status, rfl⟩)))

/-- The event loop merges or discards a rewrite. -/
theorem Background.Orderly.finish (orderly : background.Orderly) {held : Nat} {pid : Int}
    {status : ExitStatus} (reaper : background.reaper = .ending held pid status)
    : (background.reaperStep pick).Orderly := by
  cases orderly with
  | quiet _ _ _ _ polling => cases reaper.symm.trans polling
  | busy past child children ended positive unsettled phase =>
      rw [Background.reaperStep, reaper]
      simp only
      cases phase with
      | forking _ _ _ _ _ _ _ _ hand =>
          simp [Background.Untouched, Background.Compared, reaper] at hand
      | saving _ _ _ _ hand =>
          simp [Background.Untouched, Background.Compared, reaper] at hand
      | syncing _ _ _ _ _ _ _ hand =>
          rcases hand with ⟨_, _, wrong⟩ | ⟨_, wrong, _⟩ <;> cases reaper.symm.trans wrong
      | rewriting rest kind logged save rewrite hand =>
          obtain ⟨reaped, rfl, rfl⟩ : child.state = .reaped ∧ held = past.length
              ∧ pid = child.pid := by
            simpa [Background.Untouched, Background.Compared, reaper] using hand
          have merges : ¬ (status.clean ∧ (background.logged = false ∨ child.pid ≤ 0
              ∨ background.aofRewritePid ≠ child.pid)) := by
            rw [logged, rewrite]
            simp [positive]
          rw [Background.unlocked_of_rest rest, if_neg Bool.false_ne_true, if_neg merges]
          refine .quiet ?_ rest save.ge rfl rfl
          have last : ({ child with settled := true } : Child).Over := ⟨reaped, fun _ => rfl⟩
          have settled := over_append ended last
          simpa [Background.settle, children, List.modify_eq_set_getElem?] using settled

/-- What the event loop does is orderly, unless it steals a child or misses its pid. -/
theorem Background.Orderly.reaperStep (orderly : background.Orderly) (pick : Nat)
    (keeps : ¬ background.Steals (.reaper pick)) (sees : ¬ background.Misses (.reaper pick))
    : (background.reaperStep pick).Orderly := by
  cases reaper : background.reaper with
  | polling => exact orderly.poll reaper keeps
  | reaped held pid status => exact orderly.compareSave reaper
  | clearing => exact orderly.clear reaper
  | comparing held pid status => exact orderly.compareRewrite reaper sees
  | ending held pid status => exact orderly.finish reaper

end MiniKv
