import MiniKv.Invariants.Reachable
import MiniKv.Server.ReplicaThread
import MiniKv.Server.Sends

/-! What a replica does with an answer to its SYNC that announces no snapshot: it keeps its store,
unless the buffer that nothing was received into still holds an announcement.
-/

namespace MiniKv

variable {thread : ReplicaThread} {env : ReplicaEnv} {old : Option Store}

namespace ReplicaThread

/-- A thread that has received some bytes and has not touched its store and its file. -/
inductive Untouched (old : Option Store) (snap : List UInt8)
    : ReplicaThread → List UInt8 → Prop where
  | header {header bytes : List UInt8} (sized : header.length = headerSize)
      (room : bytes.length < headerSize - 1) (read : header.take bytes.length = bytes)
      : Untouched old snap ⟨.header header bytes.length, old, snap⟩ bytes
  | closed {bytes : List UInt8} : Untouched old snap ⟨.closed, old, snap⟩ bytes

/-- What is compared is no announcement when the bytes in front of a byte of the buffer differ from
the word, and also when that byte does.
-/
theorem announced_closes {header bytes : List UInt8} (read : bytes <+: header)
    (apart : ¬ snapshotWord <+: bytes) (early : ¬ bytes <+: snapshotWord) (stage : ReplicaStage)
    (snap : List UInt8)
    : announced ⟨stage, old, snap⟩ header env = ⟨.closed, old, snap⟩ := by
  have other : snapshotWord.isPrefixOf header = false := by
    by_contra announces
    rw [Bool.not_eq_false, List.isPrefixOf_iff_prefix] at announces
    rcases List.prefix_or_prefix_of_prefix read announces with front | front
    · exact early front
    · exact apart front
  rw [announced, if_pos other]

/-- A byte of an answer without the word. -/
theorem Untouched.receive {bytes snap : List UInt8} {byte : UInt8}
    (untouched : Untouched old snap thread bytes) (apart : ¬ snapshotWord <+: bytes ++ [byte])
    : Untouched old snap (thread.receive [byte] env) (bytes ++ [byte]) := by
  cases untouched with
  | closed => exact .closed
  | @header header _ sized room read =>
      have longer : bytes.length + 1 = (bytes ++ [byte]).length := by simp
      have taken : (header.set bytes.length byte).take (bytes.length + 1) = bytes ++ [byte] := by
        rw [List.take_add_one, List.take_set_of_le (Nat.le_refl _), read,
          List.getElem?_set_self (by omega)]
        rfl
      by_cases isLf : byte = lf
      · -- The word has no LF, so a line that ends here is not a beginning of it.
        have early : ¬ bytes ++ [byte] <+: snapshotWord := by
          intro front
          exact absurd (front.subset (List.mem_append_right _ (List.mem_singleton.mpr isLf.symm)))
            (by decide)
        simp only [ReplicaThread.receive, if_pos isLf]
        -- The NUL goes behind it.
        have ended : ((header.set bytes.length byte).set (bytes.length + 1) 0).take
            (bytes.length + 1) = bytes ++ [byte] :=
          (List.take_set_of_le (Nat.le_refl _)).trans taken
        rw [announced_closes (ended ▸ List.take_prefix _ _) apart early]
        exact .closed
      · simp only [ReplicaThread.receive, if_neg isLf]
        split
        · next inside =>
            rw [longer] at inside ⊢
            exact .header (by rw [List.length_set, sized]) inside (longer ▸ taken)
        · next full =>
            have early : ¬ bytes ++ [byte] <+: snapshotWord := by
              intro front
              have short := front.length_le
              have word : snapshotWord.length = 10 := rfl
              rw [headerSize] at full
              omega
            rw [announced_closes (taken ▸ List.take_prefix _ _) apart early]
            exact .closed

/-- A whole answer, by induction on what arrives. -/
theorem Untouched.run {bytes snap : List UInt8} {arrivals : List (List UInt8 × ReplicaEnv)}
    (untouched : Untouched old snap thread bytes) (receivable : thread.Receivable arrivals)
    (apart : ¬ snapshotWord <+: bytes ++ arrivedBytes arrivals)
    : Untouched old snap (thread.run arrivals) (bytes ++ arrivedBytes arrivals) := by
  induction arrivals generalizing thread bytes with
  | nil =>
      rw [arrivedBytes, List.flatMap_nil, List.append_nil]
      exact untouched
  | cons arrival later ih =>
      obtain ⟨chunk, env⟩ := arrival
      obtain ⟨some, fits, next⟩ := receivable
      rw [arrivedBytes, List.flatMap_cons, ← arrivedBytes, ← List.append_assoc] at apart ⊢
      have front : ¬ snapshotWord <+: bytes ++ chunk :=
        fun word => apart (word.trans (List.prefix_append _ _))
      refine ih ?_ next apart
      cases untouched with
      | closed => exact absurd (Nat.le_zero.mp fits) (mt List.eq_nil_of_length_eq_zero some)
      | header sized room read =>
          obtain ⟨byte, rfl⟩ := List.length_eq_one_iff.mp
            (Nat.le_antisymm fits (List.length_pos_iff.mpr some))
          exact Untouched.receive (.header sized room read) front

end ReplicaThread

/-- Until the word that announces a snapshot has arrived, the replica keeps its store and its file,
whatever it is sent; a connection that ends with other bytes closes without touching them.
Witness: the bytes in front of the buffer are the ones that have arrived.
-/
theorem refused_sync_keeps_store {thread : ReplicaThread} (closed : thread.stage = .closed)
    (stack : Nat → UInt8) {arrivals : List (List UInt8 × ReplicaEnv)}
    (receivable : (thread.connect stack).Receivable arrivals)
    (apart : ¬ snapshotWord <+: arrivedBytes arrivals)
    : let replica := (thread.connect stack).run arrivals
      (replica.store = thread.store ∧ replica.file = thread.file)
      ∧ (¬ arrivedBytes arrivals <+: snapshotWord → ∀ env,
          replica.receive [] env = { thread with stage := .closed }) := by
  have start : ReplicaThread.Untouched thread.store thread.file (thread.connect stack) [] := by
    obtain ⟨stage, store, snap⟩ := thread
    obtain rfl : stage = .closed := closed
    exact @ReplicaThread.Untouched.header _ _ _ [] (by simp) (by decide) rfl
  have untouched := start.run receivable apart
  rw [List.nil_append] at untouched
  generalize (thread.connect stack).run arrivals = replica at untouched
  cases untouched with
  | closed => exact ⟨⟨rfl, rfl⟩, fun _ _ => rfl⟩
  | @header header _ sized room read =>
      refine ⟨⟨rfl, rfl⟩, fun early env => ?_⟩
      exact ReplicaThread.announced_closes (List.prefix_iff_eq_take.mpr read.symm) apart early _ _

/-- An environment in which nothing fails. -/
def ReplicaEnv.at (now : Int64) : ReplicaEnv :=
  { opened := true, reaches := fun _ => true, readable := true, prng := 5, init := .at now, now,
    load := fun _ => .at now, apply := .at now, stack := fun _ => 7 }

/-- A master that cannot save says so in a line, and closes the connection. -/
theorem refused_sync_keeps_store_busy
    : let thread : ReplicaThread := ⟨.closed, some (Store.fresh 1 0 0 7 []), [3]⟩
      let arrivals := [45, 69, 82, 82, lf].map (fun byte => ([byte], ReplicaEnv.at 3))
      ((thread.connect (fun _ => 43)).run arrivals).receive [] (.at 4) = thread := by
  exact (refused_sync_keeps_store rfl (fun _ => 43) (by decide +kernel) (by decide)).2 (by decide)
    (.at 4)

/-- The reload of a file without content, which can as well be missing. -/
theorem ReplicaThread.reload_nil (allocates : env.init.Allocates) (stage : ReplicaStage)
    (old : Option Store)
    : ∃ cmdbuf store, ReplicaThread.reload ⟨stage, old, []⟩ env
          = ⟨.streaming cmdbuf, some store, []⟩
        ∧ store.table.logical = ∅ := by
  have initialized : kvInitFull replicaBuckets 0 0 none [] env.prng env.init env.load
      = .ok (Store.fresh replicaBuckets 0 0 env.prng []) := by
    have buckets := allocates .buckets
    have locks := allocates .locks
    simp [kvInitFull, replicaBuckets, buckets, locks]
  have unloaded : ∀ store, kvLoadSnapshot store [] env.now env.load = (kvErrIo, store) :=
    fun _ => rfl
  simp only [ReplicaThread.reload, initialized, ite_self, unloaded, ReplicaThread.stream]
  exact ⟨_, _, rfl, Store.fresh_logical _ _ _ _ _⟩

/-- A master that closes the connection without a byte, as it does when it has too many clients,
empties a replica whose buffer still holds an announcement: the buffer is compared although nothing
was received into it.
-/
theorem stale_announcement_empties {thread : ReplicaThread} (closed : thread.stage = .closed)
    {stack : Nat → UInt8} (stale : snapshotWord <+: (List.range headerSize).map stack)
    {env later : ReplicaEnv} (opened : env.opened = true) (allocates : env.init.Allocates)
    (allocatesLater : later.init.Allocates)
    : let replica := ((thread.connect stack).receive [] env).receive [] later
      ∃ store, replica.store = some store ∧ store.table.logical = ∅ := by
  obtain ⟨stage, old, snap⟩ := thread
  obtain rfl : stage = .closed := closed
  have announces : snapshotWord.isPrefixOf ((List.range headerSize).map stack) = true :=
    List.isPrefixOf_iff_prefix.mpr stale
  have first : (ReplicaThread.connect ⟨.closed, old, snap⟩ stack).receive [] env
      = ReplicaThread.fetch ⟨.header ((List.range headerSize).map stack) 0, old, []⟩
        (atol (((List.range headerSize).map stack).drop 10)).toInt.toNat env := by
    simp only [ReplicaThread.connect, ReplicaThread.receive, ReplicaThread.announced, announces,
      opened, Bool.true_eq_false, if_false]
  simp only [first, ReplicaThread.fetch]
  split_ifs
  · obtain ⟨cmdbuf, store, reloads, empty⟩ := ReplicaThread.reload_nil allocates
      (.header ((List.range headerSize).map stack) 0) old
    simp only [reloads, ReplicaThread.receive, List.take_nil, if_true]
    exact ⟨store, rfl, empty⟩
  · obtain ⟨cmdbuf, store, reloads, empty⟩ := ReplicaThread.reload_nil allocatesLater
      (.download (atol (((List.range headerSize).map stack).drop 10)).toInt.toNat) old
    simp only [ReplicaThread.receive, List.take_nil, if_true, reloads]
    exact ⟨store, rfl, empty⟩

/-- The announcement of an earlier connection, on a replica that holds a key. -/
theorem stale_announcement_empties_seven
    : let held := (kvSet (Store.fresh 1 0 0 7 []) (some ⟨[107], by decide⟩)
        (some ⟨[97], by decide⟩) (.at 2)).2
      let thread : ReplicaThread := ⟨.closed, some held, [3]⟩
      let stack := fun index => ((snapshotHeader 7)[index]?).getD 0
      let replica := ((thread.connect stack).receive [] (.at 3)).receive [] (.at 4)
      (held.table.logical.lookup ⟨[107], by decide⟩).isSome
      ∧ ∃ store, replica.store = some store ∧ store.table.logical = ∅ :=
  ⟨by decide +kernel, stale_announcement_empties rfl (by decide) rfl (CallEnv.clean_at 3).1
    (CallEnv.clean_at 4).1⟩

end MiniKv
