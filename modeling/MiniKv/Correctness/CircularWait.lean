import MiniKv.Server.LockPrograms

/-! No circular wait. The mutexes of the server have ranks: the list of clients, a client, the queue
of tasks, the shards in their order, the list of replicas, the append-only file. Every function
takes mutexes in this order and ends with those it was called with. So no thread waits, over others
or directly, for itself.
-/

namespace MiniKv.Locks

open MiniKv.Foundations.Locking

def Mutex.rank : Mutex → ℕ ×ₗ ℕ
  | .clients => toLex (0, 0)
  | .client _ => toLex (1, 0)
  | .queue => toLex (2, 0)
  | .shard index => toLex (3, index)
  | .replicas => toLex (4, 0)
  | .aof => toLex (5, 0)

variable {α : Type} {held : List Mutex} {numLocks : Nat} {key : CString}

def OnlyShards (held : List Mutex) : Prop :=
  ∀ mutex ∈ held, ∃ index, mutex = .shard index

theorem OnlyShards.below_replicas (shards : OnlyShards held)
    : ∀ mutex ∈ held, mutex.rank < Mutex.replicas.rank := by
  intro mutex member
  obtain ⟨index, rfl⟩ := shards mutex member
  simp [Mutex.rank, Prod.Lex.toLex_lt_toLex]

theorem OnlyShards.below_aof (shards : OnlyShards held)
    : ∀ mutex ∈ held, mutex.rank < Mutex.aof.rank := by
  intro mutex member
  obtain ⟨index, rfl⟩ := shards mutex member
  simp [Mutex.rank, Prod.Lex.toLex_lt_toLex]

theorem onlyShards_nil : OnlyShards [] :=
  fun _ member => absurd member List.not_mem_nil

theorem none_below (mutex : Mutex) : ∀ other ∈ [], Mutex.rank other < mutex.rank :=
  fun _ member => absurd member List.not_mem_nil

theorem exitsOr_ordered {leave rest : Code α} {post : α → List Mutex → Prop}
    (leaves : Ordered Mutex.rank leave held post) (goesOn : Ordered Mutex.rank rest held post)
    (count : Nat)
    : Ordered Mutex.rank (exitsOr count leave rest) held post := by
  induction count with
  | zero => exact goesOn
  | succ count ih => exact .ifTest leaves ih

-- The append-only file

theorem replicationBroadcast_keeps (shards : OnlyShards held)
    : Keeps Mutex.rank replicationBroadcast held :=
  .ifTest (keeps_pure ()) (.acquiring shards.below_replicas (ordered_release_head rfl))

theorem appendToAof_keeps (shards : OnlyShards held) : Keeps Mutex.rank appendToAof held :=
  .acquiring shards.below_aof
    (exitsOr_ordered (.releasing (keeps_pure false)) (.releasing (keeps_pure true)) 5)

theorem writeAofRecord_keeps (shards : OnlyShards held)
    : Keeps Mutex.rank writeAofRecord held := by
  have written : Keeps Mutex.rank (do
      if ← test then return true else if ← test then return false else appendToAof) held :=
    .ifTest (keeps_pure true) (.ifTest (keeps_pure false) (appendToAof_keeps shards))
  exact .ifTest ((replicationBroadcast_keeps shards).andThen (fun _ => written)) written

theorem rollbackAofRecord_keeps (shards : OnlyShards held)
    : Keeps Mutex.rank rollbackAofRecord held :=
  .ifTest (keeps_pure ()) (.acquiring shards.below_aof (ordered_release_head rfl))

theorem appendAofRewriteBuffer_keeps (shards : OnlyShards held)
    : Keeps Mutex.rank appendAofRewriteBuffer held :=
  .ifTest (keeps_pure ()) (.acquiring shards.below_aof
    (exitsOr_ordered (ordered_release_head rfl) (ordered_release_head rfl) 1))

theorem appendFragments_keeps (shards : OnlyShards held) (count : Nat)
    : Keeps Mutex.rank (appendFragments count) held := by
  induction count with
  | zero => exact keeps_pure ()
  | succ count ih => exact (appendAofRewriteBuffer_keeps shards).andThen (fun _ => ih)

theorem kvSetInternal_keeps (shards : OnlyShards held) : Keeps Mutex.rank kvSetInternal held :=
  .ifTest (keeps_pure false)
    ((appendFragments_keeps shards 5).andThen (fun _ => keeps_pure true))

theorem kvDeleteInternal_keeps (shards : OnlyShards held)
    : Keeps Mutex.rank kvDeleteInternal held :=
  .ifTest (keeps_pure false)
    ((appendFragments_keeps shards 3).andThen (fun _ => keeps_pure true))

theorem undoUnless_keeps (shards : OnlyShards held) (applied : Bool)
    : Keeps Mutex.rank (undoUnless applied) held := by
  cases applied with
  | true => exact keeps_pure ()
  | false => exact .ifTest (rollbackAofRecord_keeps shards) (keeps_pure ())

theorem logAndApply_ordered (shards : OnlyShards held) {apply : Code Bool}
    (applies : Keeps Mutex.rank apply held) {leave : Code Unit}
    {post : Unit → List Mutex → Prop} (leaves : Ordered Mutex.rank leave held post)
    : Ordered Mutex.rank (logAndApply apply leave) held post := by
  have applied : Ordered Mutex.rank (do undoUnless (← apply); leave) held post :=
    applies.andThen (fun done => (undoUnless_keeps shards done).andThen (fun _ => leaves))
  refine .ifTest ((writeAofRecord_keeps shards).andThen (fun written => ?_)) applied
  cases written with
  | true => exact applied
  | false => exact leaves

theorem logIfOpen_keeps (shards : OnlyShards held) : Keeps Mutex.rank logIfOpen held :=
  .ifTest ((writeAofRecord_keeps shards).andThen (fun _ => keeps_pure ())) (keeps_pure ())

-- Shards

def allShards : Nat → List Mutex
  | 0 => []
  | numLocks + 1 => .shard numLocks :: allShards numLocks

def insertLocks (numLocks : Nat) (key : CString) (isGlobal : Bool) : List Mutex :=
  if isGlobal then allShards numLocks else [.shard (kvLockIndex numLocks key)]

theorem mem_allShards {mutex : Mutex} (member : mutex ∈ allShards numLocks)
    : ∃ index < numLocks, mutex = .shard index := by
  induction numLocks with
  | zero => exact absurd member List.not_mem_nil
  | succ numLocks ih =>
      rcases List.mem_cons.mp member with rfl | earlier
      · exact ⟨numLocks, numLocks.lt_succ_self, rfl⟩
      · obtain ⟨index, smaller, same⟩ := ih earlier
        exact ⟨index, smaller.trans numLocks.lt_succ_self, same⟩

theorem onlyShards_all : OnlyShards (allShards numLocks) := by
  intro mutex member
  obtain ⟨index, _, same⟩ := mem_allShards member
  exact ⟨index, same⟩

theorem onlyShards_one (index : Nat) : OnlyShards [.shard index] :=
  fun _ member => ⟨index, List.mem_singleton.mp member⟩

theorem onlyShards_insert (isGlobal : Bool)
    : OnlyShards (insertLocks numLocks key isGlobal) := by
  cases isGlobal with
  | true => exact onlyShards_all
  | false => exact onlyShards_one _

theorem kvAcquireAllLocks_ordered {post : Unit → List Mutex → Prop}
    (later : post () (allShards numLocks))
    : Ordered Mutex.rank (kvAcquireAllLocks numLocks) [] post := by
  induction numLocks generalizing post with
  | zero => exact later
  | succ numLocks ih =>
      rw [kvAcquireAllLocks, ordered_bind]
      -- the next shard ranks above those taken before
      refine ih ⟨?_, later⟩
      intro mutex member
      obtain ⟨index, smaller, rfl⟩ := mem_allShards member
      simpa [Mutex.rank, Prod.Lex.toLex_lt_toLex] using smaller

theorem kvReleaseAllLocks_ordered {post : Unit → List Mutex → Prop} (later : post () [])
    : Ordered Mutex.rank (kvReleaseAllLocks numLocks) (allShards numLocks) post := by
  induction numLocks with
  | zero => exact later
  | succ numLocks ih => exact .releasing ih

theorem acquireForInsert_ordered {post : Bool → List Mutex → Prop}
    (later : ∀ isGlobal, post isGlobal (insertLocks numLocks key isGlobal))
    : Ordered Mutex.rank (acquireForInsert numLocks key) [] post := by
  have all : Ordered Mutex.rank (do kvAcquireAllLocks numLocks; return true) [] post := by
    rw [ordered_bind]
    exact kvAcquireAllLocks_ordered (later true)
  exact .ifTest all (.acquiring (none_below _) (.ifTest (.releasing all) (later false)))

theorem releaseAfterInsert_ordered {post : Unit → List Mutex → Prop} (later : post () [])
    (isGlobal : Bool)
    : Ordered Mutex.rank (releaseAfterInsert numLocks key isGlobal)
        (insertLocks numLocks key isGlobal) post := by
  cases isGlobal with
  | true => exact kvReleaseAllLocks_ordered later
  | false => exact ordered_release_head later

-- The store

theorem kvSet_keeps : Keeps Mutex.rank (kvSet numLocks key) [] := by
  refine .ifTest (keeps_pure ()) ?_
  rw [ordered_bind]
  refine acquireForInsert_ordered (fun isGlobal => ?_)
  have shards := @onlyShards_insert numLocks key isGlobal
  exact logAndApply_ordered shards (kvSetInternal_keeps shards)
    (releaseAfterInsert_ordered rfl isGlobal)

theorem kvDelete_keeps : Keeps Mutex.rank (kvDelete numLocks key) [] := by
  have shards := onlyShards_one (kvLockIndex numLocks key)
  exact .ifTest (keeps_pure ()) (.acquiring (none_below _)
    (logAndApply_ordered shards (kvDeleteInternal_keeps shards) (ordered_release_head rfl)))

theorem insertMember_keeps (exits : Nat)
    : Keeps Mutex.rank (insertMember exits numLocks key) [] := by
  refine .ifTest (keeps_pure ()) ?_
  rw [ordered_bind]
  refine acquireForInsert_ordered (fun isGlobal => ?_)
  have shards := @onlyShards_insert numLocks key isGlobal
  have leaves := @releaseAfterInsert_ordered numLocks key (fun _ after => after = []) rfl isGlobal
  exact exitsOr_ordered leaves ((logIfOpen_keeps shards).andThen (fun _ =>
    (appendFragments_keeps shards 5).andThen (fun _ => leaves))) exits

theorem removeMember_keeps (exits fragments : Nat)
    : Keeps Mutex.rank (removeMember exits fragments numLocks key) [] := by
  have shards := onlyShards_one (kvLockIndex numLocks key)
  have leaves : Ordered Mutex.rank (kvReleaseBucketLock numLocks key)
      [.shard (kvLockIndex numLocks key)] (fun _ after => after = []) := ordered_release_head rfl
  refine .acquiring (none_below _) (exitsOr_ordered leaves ?_ exits)
  refine (logIfOpen_keeps shards).andThen (fun _ =>
    (appendFragments_keeps shards fragments).andThen (fun _ => ?_))
  exact .ifTest ((kvDeleteInternal_keeps shards).andThen (fun _ => leaves)) leaves

theorem setDeadline_keeps (fragments : Nat)
    : Keeps Mutex.rank (setDeadline fragments numLocks key) [] := by
  have shards := onlyShards_one (kvLockIndex numLocks key)
  refine .acquiring (none_below _) (exitsOr_ordered (ordered_release_head rfl) ?_ 1)
  exact (writeAofRecord_keeps shards).andThen (fun _ =>
    (appendFragments_keeps shards fragments).andThen (fun _ => ordered_release_head rfl))

theorem readEntry_keeps (exits : Nat) : Keeps Mutex.rank (readEntry exits numLocks key) [] :=
  .acquiring (none_below _)
    (exitsOr_ordered (ordered_release_head rfl) (ordered_release_head rfl) exits)

theorem underAllLocks_keeps (exits : Nat)
    : Keeps Mutex.rank (underAllLocks exits numLocks) [] := by
  have leaves (reached : Bool) : Ordered Mutex.rank
      (do kvReleaseAllLocks numLocks; return reached) (allShards numLocks)
      (fun _ after => after = []) := by
    rw [ordered_bind]
    exact kvReleaseAllLocks_ordered rfl
  rw [Keeps, underAllLocks, ordered_bind]
  exact kvAcquireAllLocks_ordered (exitsOr_ordered (leaves false) (leaves true) exits)

theorem withKey_keeps {call : CString → Code Unit} (keeps : ∀ key, Keeps Mutex.rank (call key) [])
    (key : Option CString)
    : Keeps Mutex.rank (withKey key call) [] := by
  cases key with
  | none => exact keeps_pure ()
  | some key => exact keeps key

theorem ignore_keeps {call : Code α} (keeps : Keeps Mutex.rank call held)
    : Keeps Mutex.rank (ignore call) held :=
  keeps.andThen (fun _ => keeps_pure ())

theorem ofOp_keeps (op : Op) : Keeps Mutex.rank (ofOp numLocks op) [] := by
  cases op with
  | set key value => exact withKey_keeps (fun _ => withKey_keeps (fun _ => kvSet_keeps) value) key
  | delete key => exact withKey_keeps (fun _ => kvDelete_keeps) key
  | lpush key value =>
      exact withKey_keeps (fun _ => withKey_keeps (fun _ => insertMember_keeps 9) value) key
  | sadd key value =>
      exact withKey_keeps (fun _ => withKey_keeps (fun _ => insertMember_keeps 11) value) key
  | rpop key => exact withKey_keeps (fun _ => removeMember_keeps 4 3) key
  | srem key value =>
      exact withKey_keeps (fun _ => withKey_keeps (fun _ => removeMember_keeps 4 5) value) key
  | pexpireat key unixMs => exact withKey_keeps (fun _ => setDeadline_keeps 5) key
  | expire key seconds => exact withKey_keeps (fun _ => setDeadline_keeps 5) key
  | pexpire key milliseconds => exact withKey_keeps (fun _ => setDeadline_keeps 5) key
  | persist key => exact withKey_keeps (fun _ => setDeadline_keeps 3) key
  | get key => exact withKey_keeps (fun _ => readEntry_keeps 2) key
  | exist key => exact withKey_keeps (fun _ => readEntry_keeps 0) key
  | llen key => exact withKey_keeps (fun _ => readEntry_keeps 2) key
  | scard key => exact withKey_keeps (fun _ => readEntry_keeps 2) key
  | smembers key => exact withKey_keeps (fun _ => readEntry_keeps 3) key
  | pttl key => exact withKey_keeps (fun _ => readEntry_keeps 2) key
  | ttl key => exact withKey_keeps (fun _ => readEntry_keeps 2) key
  | resize newBucketCount =>
      rw [ofOp]
      split
      · exact keeps_pure ()
      · exact ignore_keeps (underAllLocks_keeps 0)

theorem ofUpkeep_keeps (upkeep : Upkeep) : Keeps Mutex.rank (ofUpkeep numLocks upkeep) [] := by
  cases upkeep with
  | expireSampleSweep _ _ => exact ignore_keeps (underAllLocks_keeps 1)
  | bgrewriteaof _ =>
      exact ignore_keeps (exitsOr_ordered (keeps_pure false) (underAllLocks_keeps 2) 1)
  | mergeAofRewrite _ _ =>
      exact ignore_keeps (exitsOr_ordered (keeps_pure false) (underAllLocks_keeps 5) 1)
  | _ => exact ignore_keeps (underAllLocks_keeps 0)

theorem storeCall_keeps (call : StoreCall) : Keeps Mutex.rank (call.code numLocks) [] := by
  cases call with
  | action action =>
      cases action with
      | op op => exact ofOp_keeps op
      | upkeep upkeep => exact ofUpkeep_keeps upkeep
  | save => exact ignore_keeps (underAllLocks_keeps 0)
  | bgsave => exact ignore_keeps (underAllLocks_keeps 2)
  | sync =>
      exact .acquiring (none_below _)
        (exitsOr_ordered (ordered_release_head rfl) (ordered_release_head rfl) 4)
  | setDurability => exact .acquiring (none_below _) (ordered_release_head rfl)

-- The server

theorem replicationHandleSync_keeps : Keeps Mutex.rank (replicationHandleSync numLocks) [] := by
  refine exitsOr_ordered (keeps_pure ()) ((underAllLocks_keeps 2).andThen (fun saved => ?_)) 1
  cases saved with
  | true =>
      refine exitsOr_ordered (keeps_pure ()) (exitsOr_ordered (keeps_pure ()) ?_ 2) 2
      exact .acquiring (none_below _) (ordered_release_head rfl)
  | false => exact keeps_pure ()

theorem threadPoolSubmit_keeps (below : ∀ other ∈ held, other.rank < Mutex.queue.rank)
    : Keeps Mutex.rank threadPoolSubmit held :=
  .acquiring below
    (exitsOr_ordered (.releasing (keeps_pure false)) (.releasing (keeps_pure true)) 2)

theorem clientReleaseRef_keeps : Keeps Mutex.rank clientReleaseRef [] :=
  .acquiring (none_below _) (ordered_release_head rfl)

theorem clients_below (id : Nat)
    : ∀ other ∈ [Mutex.clients], other.rank < (Mutex.client id).rank := by
  intro other member
  rw [List.mem_singleton.mp member]
  simp [Mutex.rank, Prod.Lex.toLex_lt_toLex]

theorem serverCloseClient_keeps (id : Nat) : Keeps Mutex.rank (serverCloseClient id) [] :=
  .acquiring (none_below _) (.acquiring (clients_below id)
    (.ifTest (.releasing (ordered_release_head rfl)) (.releasing (ordered_release_head rfl))))

theorem serverFindClient_keeps : Keeps Mutex.rank serverFindClient [] :=
  .acquiring (none_below _)
    (exitsOr_ordered (.releasing (keeps_pure true)) (.releasing (keeps_pure false)) 1)

theorem protocolExecuteCommand_keeps (request : Request)
    : Keeps Mutex.rank (protocolExecuteCommand numLocks request) [] := by
  cases request with
  | sync => exact replicationHandleSync_keeps
  | call call => exact storeCall_keeps call
  | other => exact keeps_pure ()

theorem serverWorkerClientTask_keeps (id : Nat) (requests : List Request)
    : Keeps Mutex.rank (serverWorkerClientTask numLocks id requests) [] := by
  induction requests with
  | nil => exact .acquiring (none_below _) (.releasing clientReleaseRef_keeps)
  | cons request rest ih =>
      refine .acquiring (none_below _) (.ifTest (.releasing clientReleaseRef_keeps) (.releasing ?_))
      -- the command is executed while nothing is held
      refine (protocolExecuteCommand_keeps request).andThen (fun _ => ?_)
      refine .acquiring (none_below _) (.releasing (.ifTest ?_ ih))
      exact (serverCloseClient_keeps id).andThen (fun _ => clientReleaseRef_keeps)

theorem clientHandleRead_keeps (id lines : Nat)
    : Keeps Mutex.rank (clientHandleRead id lines) [] := by
  induction lines with
  | zero => exact exitsOr_ordered (keeps_pure false) (keeps_pure true) 1
  | succ lines ih =>
      have below : ∀ other ∈ [Mutex.client id, .clients], other.rank < Mutex.queue.rank := by
        simp [Mutex.rank, Prod.Lex.toLex_lt_toLex]
      have submits : Keeps Mutex.rank submitUnlessRunning [.client id, .clients] :=
        .ifTest ((threadPoolSubmit_keeps below).andThen (fun _ => keeps_pure ())) (keeps_pure ())
      refine exitsOr_ordered (keeps_pure false) ?_ 1
      exact .acquiring (none_below _) (.acquiring (clients_below id)
        (submits.andThen (fun _ => .releasing (.releasing ih))))

theorem serverRun_keeps (event : LoopEvent) : Keeps Mutex.rank (serverRun numLocks event) [] := by
  cases event with
  | timer => exact ignore_keeps (threadPoolSubmit_keeps (none_below _))
  | connection id =>
      refine exitsOr_ordered (keeps_pure ()) ?_ 2
      exact .acquiring (none_below _)
        (.releasing (.ifTest (serverCloseClient_keeps id) (keeps_pure ())))
  | client id lines =>
      refine serverFindClient_keeps.andThen (fun found => ?_)
      cases found with
      | false => exact keeps_pure ()
      | true =>
          refine .ifTest (serverCloseClient_keeps id)
            ((clientHandleRead_keeps id lines).andThen (fun read => ?_))
          cases read with
          | true => exact keeps_pure ()
          | false => exact serverCloseClient_keeps id
  | child =>
      exact .ifTest
        (ignore_keeps (exitsOr_ordered (keeps_pure false) (underAllLocks_keeps 5) 1))
        (ignore_keeps (underAllLocks_keeps 0))

theorem condWaits_keeps (waits : Nat) : Keeps Mutex.rank (condWaits waits) [.queue] := by
  induction waits with
  | zero => exact keeps_pure ()
  | succ waits ih => exact .releasing (.acquiring (none_below _) ih)

theorem task_keeps (task : Task) : Keeps Mutex.rank (task.code numLocks) [] := by
  cases task with
  | client id requests => exact serverWorkerClientTask_keeps id requests
  | sweep => exact ignore_keeps (underAllLocks_keeps 1)

theorem activity_keeps (activity : Activity) : Keeps Mutex.rank (activity.code numLocks) [] := by
  cases activity with
  | call call => exact storeCall_keeps call
  | event event => exact serverRun_keeps event
  | work waits task =>
      exact .acquiring (none_below _) ((condWaits_keeps waits).andThen (fun _ =>
        .ifTest (ordered_release_head rfl) (.releasing (task_keeps task))))
  | applySet => exact ignore_keeps (kvSetInternal_keeps onlyShards_nil)
  | applyDelete => exact ignore_keeps (kvDeleteInternal_keeps onlyShards_nil)

theorem inSequence_keeps (activities : List Activity)
    : Keeps Mutex.rank (inSequence numLocks activities) [] := by
  induction activities with
  | nil => exact keeps_pure ()
  | cons activity rest ih => exact (activity_keeps activity).andThen (fun _ => ih)

theorem no_circular_wait (numLocks : Nat) (threads : List (List Activity))
    (turns : List Turn) (id : Nat)
    : ¬ Relation.TransGen ((start numLocks threads).run turns).WaitsFor id id := by
  have keeps : ∀ program ∈ threads.map (inSequence numLocks), Keeps Mutex.rank program [] := by
    intro program member
    obtain ⟨activities, _, rfl⟩ := List.mem_map.mp member
    exact inSequence_keeps activities
  exact (System.start_disciplined keeps Mutex.isRecursive turns).no_cycle id

-- Threads do wait: here the second for the first.
example
    : ((start 2 [[.call .setDurability], [.call .sync]]).run [⟨0, false⟩]).WaitsFor 1 0 :=
  ⟨.aof, ⟨_, _, rfl, rfl⟩, ⟨_, rfl, List.mem_cons_self⟩, fun same => by cases same⟩

end MiniKv.Locks
