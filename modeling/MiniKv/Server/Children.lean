import MiniKv.Server.Replication

/-! The background children and those who wait for them: the workers that execute BGSAVE,
BGREWRITEAOF and SYNC on a master, and the event loop with its `waitpid(-1)`. A step is one system
call, or one access to the pid fields together with what follows it. Children keep their numbers
when their pids are used again. No signal interrupts a `waitpid`.
-/

namespace MiniKv

/-- What a child was forked for. -/
inductive ChildKind where
  | save
  | rewrite
deriving DecidableEq

/-- What `waitpid` stores in `status`. -/
inductive ExitStatus where
  | exited (code : Nat)
  | signaled (signal : Nat)
deriving DecidableEq

/-- `WIFEXITED(status) && WEXITSTATUS(status) == 0`. -/
def ExitStatus.clean (status : ExitStatus) : Bool :=
  status = .exited 0

/-- How the child of `kv_bgrewriteaof` exits when nobody kills it: it does not look at what becomes
of its writes.
-/
def rewriteStatus : IoOutcome → ExitStatus
  | .ok => .exited 0
  | .failed _ => .exited 0
  | .refused => .exited 1

/-- What `server_run` does about a child it has waited for, when nobody interferes. -/
def serverReap (store : Store) (pid : Int) (status : ExitStatus) (outcome : MergeOutcome)
    : Store :=
  if pid = store.aof.bgsavePid then
    { store with aof := { store.aof with bgsavePid := 0 } }
  else if pid = store.aof.rewritePid then
    if status.clean then (kvMergeAofRewrite store pid outcome).2
    else
      let discarded := kvDiscardAofRewrite store
      { discarded with aof := { discarded.aof with rewriteTmp := none } }
  else store

inductive ChildState where
  | running
  | exited (status : ExitStatus)
  | reaped
deriving DecidableEq

/-- A forked process; `settled` says whether its rewritten log has been merged or discarded. -/
structure Child where
  pid : Int
  kind : ChildKind
  state : ChildState
  settled : Bool
deriving DecidableEq

/-- The commands that fork. -/
inductive ChildCommand where
  | bgsave
  | bgrewriteaof
  | sync
deriving DecidableEq

def ChildCommand.kind : ChildCommand → ChildKind
  | .bgsave => .save
  | .bgrewriteaof => .rewrite
  | .sync => .save

/-- Where a worker is: in none of the commands; behind `fork`, with all locks, before it stores the
pid; and in `replication_handle_sync` before it reads `bgsave_pid`, in `waitpid`, before it resets
`bgsave_pid`, and before it looks at the status. `got` is what `waitpid` has returned: a child with
its status, or nothing when it failed.
-/
inductive Caller where
  | idle
  | forked (command : ChildCommand) (child : Nat) (pid : Int)
  | waiting (child : Nat)
  | blocked (child : Nat) (target : Int)
  | resetting (child : Nat) (got : Option (Nat × ExitStatus))
  | acting (child : Nat) (got : Option (Nat × ExitStatus))
deriving DecidableEq

/-- Where the event loop is: before `waitpid`, before it compares the pid with `bgsave_pid`, before
it resets `bgsave_pid`, before it compares with `aof_rewrite_pid`, and before it merges or discards.
-/
inductive Reaper where
  | polling
  | reaped (child : Nat) (pid : Int) (status : ExitStatus)
  | clearing
  | comparing (child : Nat) (pid : Int) (status : ExitStatus)
  | ending (child : Nat) (pid : Int) (status : ExitStatus)
deriving DecidableEq

/-- The fields of the store that name children, and everybody around them. `logged` says whether
the store has an `aof_path`.
-/
structure Background where
  logged : Bool
  bgsavePid : Int
  aofRewritePid : Int
  children : List Child
  callers : List Caller
  reaper : Reaper
deriving DecidableEq

/-- A server of which no command has been executed. -/
def Background.start (logged : Bool) (workerCount : Nat) : Background :=
  { logged
    bgsavePid := 0
    aofRewritePid := 0
    children := []
    callers := List.replicate workerCount .idle
    reaper := .polling }

/-- What a step of a worker sees: what `fork` returns, which child the kernel reports, the value of
a `status` nothing was stored in, and whether the snapshot can be opened.
-/
structure ChildEnv where
  pid : Int
  pick : Nat
  unset : ExitStatus
  opened : Bool
deriving DecidableEq

/-- A turn of a worker, with the command it starts when it is idle; of a child that exits; and of
the event loop.
-/
inductive ChildTurn where
  | caller (index : Nat) (command : ChildCommand) (env : ChildEnv)
  | exits (child : Nat) (status : ExitStatus)
  | reaper (pick : Nat)
deriving DecidableEq

def Background.setCaller (background : Background) (index : Nat) (caller : Caller) : Background :=
  { background with callers := background.callers.set index caller }

def Background.setChild (background : Background) (index : Nat) (child : Child) : Background :=
  { background with children := background.children.set index child }

/-- Some worker is behind `fork` and holds all locks. -/
def Background.locked (background : Background) : Bool :=
  background.callers.any fun caller =>
    match caller with
    | .forked _ _ _ => true
    | _ => false

/-- `waitpid(target)` may report the child. -/
def Child.waitedFor (child : Child) (target : Int) : Bool :=
  child.state ≠ .reaped && (target ≤ 0 || child.pid = target)

/-- What `waitpid` does: it fails, it has to wait, or it reports a child. -/
inductive Waited where
  | noChild
  | pending
  | reported (index : Nat) (child : Child) (status : ExitStatus)
deriving DecidableEq

/-- `waitpid`; a target of 0 or -1 stands for all children, and lower ones do not occur. -/
def Background.waitpid (background : Background) (target : Int) (pick : Nat) : Waited :=
  if background.children.any (fun child => child.waitedFor target) then
    match background.children[pick]? with
    | none => .pending
    | some child =>
        if child.waitedFor target then
          match child.state with
          | .exited status => .reported pick child status
          | _ => .pending
        else .pending
  else .noChild

/-- What `kv_bgsave` and `kv_bgrewriteaof` return without a `fork`. -/
def Background.refuses (background : Background) : ChildCommand → Option Int
  | .bgrewriteaof =>
      if background.logged = false then some kvErrInvalidParam
      else if 0 < background.bgsavePid ∨ 0 < background.aofRewritePid then some kvErrAgain
      else none
  | .bgsave =>
      if background.bgsavePid ≠ 0 ∨ background.aofRewritePid ≠ 0 then some kvErrAgain else none
  | .sync =>
      if background.bgsavePid ≠ 0 ∨ background.aofRewritePid ≠ 0 then some kvErrAgain else none

/-- `replication_handle_sync` returns -1 whatever the reason. -/
def ChildCommand.failed : ChildCommand → Int → Int
  | .bgsave, status => status
  | .bgrewriteaof, status => status
  | .sync, _ => -1

/-- `kv_bgsave` and `kv_bgrewriteaof` up to `fork`. The kernel does not give out the pid of a child
that is still to be waited for.
-/
def Background.fork (background : Background) (index : Nat) (command : ChildCommand)
    (env : ChildEnv)
    : Option Int × Background :=
  if background.locked then (none, background)
  else
    match background.refuses command with
    | some status => (some (command.failed status), background)
    | none =>
        if env.pid ≤ 0 ∨ background.children.any (fun child => child.waitedFor env.pid) then
          (some (command.failed kvErrIo), background)
        else
          (none,
            { background with
              children := background.children ++ [⟨env.pid, command.kind, .running, false⟩]
              callers := background.callers.set index
                (.forked command background.children.length env.pid) })

/-- One step of a worker. -/
def Background.callerStep (background : Background) (index : Nat) (command : ChildCommand)
    (env : ChildEnv)
    : Option Int × Background :=
  match background.callers[index]? with
  | none => (none, background)
  | some .idle => background.fork index command env
  | some (.forked .bgsave _ pid) =>
      (some kvOk, { background with bgsavePid := pid }.setCaller index .idle)
  | some (.forked .bgrewriteaof _ pid) =>
      (some kvOk, { background with aofRewritePid := pid }.setCaller index .idle)
  | some (.forked .sync child pid) =>
      (none, { background with bgsavePid := pid }.setCaller index (.waiting child))
  | some (.waiting child) =>
      (none, background.setCaller index (.blocked child background.bgsavePid))
  | some (.blocked child target) =>
      match background.waitpid target env.pick with
      | .noChild => (none, background.setCaller index (.resetting child none))
      | .pending => (none, background)
      | .reported other found status =>
          (none, (background.setChild other { found with state := .reaped }).setCaller index
            (.resetting child (some (other, status))))
  | some (.resetting child got) =>
      (none, { background with bgsavePid := 0 }.setCaller index (.acting child got))
  | some (.acting _ got) =>
      let status := (got.map Prod.snd).getD env.unset
      (some (if status.clean ∧ env.opened then 0 else -1), background.setCaller index .idle)

/-- The rewrite of the child is over: `kv_merge_aof_rewrite` or `kv_discard_aof_rewrite` has
forgotten its pid.
-/
def Background.settle (background : Background) (index : Nat) : Background :=
  { background with
    aofRewritePid := 0
    children := background.children.modify index (fun child => { child with settled := true }) }

/-- One step of the event loop behind its events. -/
def Background.reaperStep (background : Background) (pick : Nat) : Background :=
  match background.reaper with
  | .polling =>
      match background.waitpid (-1) pick with
      | .reported index child status =>
          { background.setChild index { child with state := .reaped } with
            reaper := .reaped index child.pid status }
      | _ => background
  | .reaped child pid status =>
      if pid = background.bgsavePid then { background with reaper := .clearing }
      else { background with reaper := .comparing child pid status }
  | .clearing => { background with bgsavePid := 0, reaper := .polling }
  | .comparing child pid status =>
      if pid = background.aofRewritePid then
        { background with reaper := .ending child pid status }
      else { background with reaper := .polling }
  | .ending child pid status =>
      if background.locked then background
      else if status.clean ∧ (background.logged = false ∨ pid ≤ 0 ∨ background.aofRewritePid ≠ pid)
        then
        -- kv_merge_aof_rewrite refuses.
        { background with reaper := .polling }
      else { background.settle child with reaper := .polling }

/-- A child exits. -/
def Background.exitStep (background : Background) (index : Nat) (status : ExitStatus)
    : Background :=
  match background.children[index]? with
  | none => background
  | some child =>
      if child.state = .running then
        background.setChild index { child with state := .exited status }
      else background

/-- One turn, with what a command returns in it. -/
def Background.step (background : Background) : ChildTurn → Option Int × Background
  | .caller index command env => background.callerStep index command env
  | .exits child status => (none, background.exitStep child status)
  | .reaper pick => (none, background.reaperStep pick)

def Background.run (background : Background) (turns : List ChildTurn)
    : List (Option Int) × Background :=
  Foundations.Runs.run Background.step background turns

end MiniKv
