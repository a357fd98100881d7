import MiniKv.Persistence.Replay

/-! Log compaction: the dump a forked child writes, and merging it with the mutations collected
since the fork.
-/

namespace MiniKv

open MiniKv.Foundations.ChainedTable
open MiniKv.Foundations.DoublyLinked

/-- The records the child prints for one entry. Lists are walked from the tail along `prev`,
so that pushing the values in front again restores their order.
-/
def Entry.dump (entry : Entry) : List Record :=
  (match entry.value with
    | .string value => [.set entry.key value]
    | .list list => list.toListBackward.map (Record.lpush entry.key)
    | .set set => set.members.map (Record.sadd entry.key))
  ++ (if 0 < entry.expireAtMs then [.pexpireat entry.key entry.expireAtMs] else [])

/-- The records of all entries that are not expired at the child's clock. -/
def Table.dump (table : Table) (nowMs : Int64) : List Record :=
  (table.entries.filter (fun entry => !entryIsExpired entry nowMs)).flatMap Entry.dump

/-- The bytes of consecutive records. -/
def encode (records : List Record) : List UInt8 :=
  records.flatMap Record.bytes

/-- `kv_bgrewriteaof`; `pid` is what `fork` returns to the parent. The child's file is there
once the child has exited: whole, cut off by a failing disk, or missing.
-/
def kvBgrewriteaof (store : Store) (pid : Int) (env : CallEnv) : Int × Store :=
  let aof := store.aof
  if aof.path = none then (kvErrInvalidParam, store)
  else if 0 < aof.bgsavePid ∨ 0 < aof.rewritePid then (kvErrAgain, store)
  else
    let cleared : Aof :=
      { aof with rewriteBufLen := if aof.rewriteBuf = none then aof.rewriteBufLen else 0 }
    if pid ≤ 0 then (kvErrIo, { store with aof := cleared })
    else
      let dumped := encode (store.table.dump env.now)
      (kvOk,
        { store with aof := { cleared with
            rewritePid := pid
            rewriteTmp :=
              match env.io with
              | .ok => some dumped
              | .failed written => some (dumped.take written)
              | .refused => none } })

/-- Where `kv_merge_aof_rewrite` may fail. Whether `fflush` has brought the bytes it got from
`fwrite` to the file is not checked.
-/
inductive MergeOutcome where
  | ok
  | openFailed
  | writeFailed (written : Nat)
  | flushFailed (written : Nat)
  | renameFailed
  | reopenFailed
deriving DecidableEq

/-- `kv_merge_aof_rewrite`. A missing temporary file is created by opening it for append. -/
def kvMergeAofRewrite (store : Store) (childPid : Int) (outcome : MergeOutcome)
    : Int × Store :=
  let aof := store.aof
  if aof.path = none ∨ childPid ≤ 0 then (kvErrInvalidParam, store)
  else if aof.rewritePid ≠ childPid then (kvErrInvalidParam, store)
  else
    let ended : Aof := { aof with rewritePid := 0, rewriteBufLen := 0 }
    let merged := aof.rewriteTmp.getD [] ++ aof.rewriteBuffer
    match outcome with
    | .openFailed => (kvErrIo, { store with aof := ended })
    | .writeFailed written =>
        (kvErrIo,
          { store with aof := { ended with
              rewriteTmp := some (aof.rewriteTmp.getD [] ++ aof.rewriteBuffer.take written) } })
    | .flushFailed written =>
        (kvOk,
          { store with aof := { ended with
              rewriteTmp := none
              log := aof.rewriteTmp.getD [] ++ aof.rewriteBuffer.take written
              fp := some 0 } })
    | .renameFailed =>
        (kvErrIo, { store with aof := { ended with rewriteTmp := some merged, fp := none } })
    | .reopenFailed =>
        (kvErrIo,
          { store with aof := { ended with rewriteTmp := none, log := merged, fp := none } })
    | .ok =>
        (kvOk, { store with aof := { ended with rewriteTmp := none, log := merged, fp := some 0 } })

/-- `kv_discard_aof_rewrite`. -/
def kvDiscardAofRewrite (store : Store) : Store :=
  { store with aof := { store.aof with
      rewritePid := 0, rewriteBuf := none, rewriteBufLen := 0, rewriteBufCap := 0 } }

end MiniKv
