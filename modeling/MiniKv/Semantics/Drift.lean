import MiniKv.Invariants.Removals
import MiniKv.Semantics.Histories

/-! The live map and the map that the log will give at some later time, side by side.
Removals that leave no record, and records that are applied after a deadline has passed, make the
two drift apart. A key has drifted when its bindings may differ; both must then be invisible at
the time of recovery.
-/

namespace MiniKv

open MiniKv.Foundations.FiniteMaps

/-- (Drifted later live logged drifted) relates the live map and the map of the log: they agree on
keys that have not drifted, and nobody sees the others at the time `later`.
-/
structure Drifted (later : Int64) (live logged : LogicalMap) (drifted : Finset CString)
    : Prop where
  synced : ∀ key ∉ drifted, logged.lookup key = live.lookup key
  hidden : ∀ key ∈ drifted, ∀ binding, live.lookup key = some binding →
    binding.isExpired later = true ∧ ∀ value, binding.content ≠ .string value
  unseen : ∀ key ∈ drifted, ∀ binding, logged.lookup key = some binding →
    binding.isExpired later = true

-- What a record does to the drift

/-- A further key fits the recovered store, drifted keys included. -/
def HasRoom (capacity : Nat) (live : LogicalMap) (drifted : Finset CString) (key : CString)
    : Prop :=
  capacity = 0 ∨ ((live.keys ∪ drifted).erase key).card < capacity

/-- When a record that is logged at `now` has, at the time `later`, the effect on the logged map
that its call has on the live one: it does not create a string under a drifted key, does not
extend a container whose deadline will have passed, and does not take a drifted key's deadline
out of the past.
-/
def Record.Faithful (record : Record) (later : Int64) (capacity : Nat) (now : Int64)
    (live : LogicalMap) (drifted : Finset CString)
    : Prop :=
  match record with
  | .set key _ => live.lookup key = none → key ∉ drifted ∧ HasRoom capacity live drifted key
  | .lpush key _ | .sadd key _ =>
      match (LogicalMap.expire live now key).lookup key with
      | none => HasRoom capacity live drifted key
      | some binding => binding.isExpired later = false
  | .pexpireat key expireAtMs => key ∈ drifted → 0 < expireAtMs ∧ expireAtMs ≤ later
  | _ => True

instance (capacity : Nat) (live : LogicalMap) (drifted : Finset CString) (key : CString)
    : Decidable (HasRoom capacity live drifted key) :=
  inferInstanceAs (Decidable (_ ∨ _))

instance (record : Record) (later : Int64) (capacity : Nat) (now : Int64) (live : LogicalMap)
    (drifted : Finset CString)
    : Decidable (record.Faithful later capacity now live drifted) :=
  match record with
  | .set key _ =>
      inferInstanceAs
        (Decidable (live.lookup key = none → key ∉ drifted ∧ HasRoom capacity live drifted key))
  | .lpush key _ | .sadd key _ =>
      match found : (LogicalMap.expire live now key).lookup key with
      | none => decidable_of_iff (HasRoom capacity live drifted key)
          (by simp only [Record.Faithful, found])
      | some binding => decidable_of_iff (binding.isExpired later = false)
          (by simp only [Record.Faithful, found])
  | .pexpireat key expireAtMs =>
      inferInstanceAs (Decidable (key ∈ drifted → 0 < expireAtMs ∧ expireAtMs ≤ later))
  | .delete _ | .rpop _ | .srem _ _ => inferInstanceAs (Decidable True)

/-- The drifted keys after a call that logged this record. Taking an element of a container whose
deadline will have passed is not repeated at recovery; a new value ends the drift of its key.
-/
def Record.drift (record : Record) (later : Int64) (after : LogicalMap)
    (drifted : Finset CString)
    : Finset CString :=
  match record with
  | .rpop key | .srem key _ =>
      match after.lookup key with
      | some binding => if binding.isExpired later then insert key drifted else drifted
      | none => drifted.erase key
  | .pexpireat _ _ => drifted
  | .set key _ | .lpush key _ | .sadd key _ | .delete key => drifted.erase key

/-- The drifted keys after a call that logged these records: without a record, every key that
disappeared has drifted.
-/
def driftAfter (later : Int64) (before after : LogicalMap) (records : List Record)
    (drifted : Finset CString)
    : Finset CString :=
  match records with
  | [] => drifted ∪ (before.keys \ after.keys)
  | record :: _ => record.drift later after drifted

-- Changes of both maps

section

variable {later now : Int64} {live logged : LogicalMap} {drifted : Finset CString}
  {key : CString} {binding : Binding}

theorem Drifted.visible (relates : Drifted later live logged drifted) (key : CString)
    : LogicalMap.visible logged later key = LogicalMap.visible live later key := by
  by_cases member : key ∈ drifted
  · have gone : ∀ map : LogicalMap,
        (∀ binding, map.lookup key = some binding → binding.isExpired later = true) →
        LogicalMap.visible map later key = none := by
      intro map expired
      rw [LogicalMap.visible]
      cases found : map.lookup key with
      | none => rfl
      | some binding => simp [Option.filter, expired binding found]
    rw [gone logged (relates.unseen key member),
      gone live (fun binding found => (relates.hidden key member binding found).1)]
  · rw [LogicalMap.visible, LogicalMap.visible, relates.synced key member]

/-- A key that is visible in the live map at the time of recovery has not drifted. -/
theorem Drifted.notMem (relates : Drifted later live logged drifted)
    (found : live.lookup key = some binding) (ahead : binding.isExpired later = false)
    : key ∉ drifted := by
  intro member
  rw [(relates.hidden key member binding found).1] at ahead
  exact Bool.false_ne_true ahead.symm

theorem Drifted.notMem_string (relates : Drifted later live logged drifted) {value : CString}
    {expireAt : Int64} (found : live.lookup key = some ⟨.string value, expireAt⟩)
    : key ∉ drifted :=
  fun member => (relates.hidden key member _ found).2 value rfl

/-- Two maps that agree on every key but one, where they agree as well. -/
theorem Drifted.agree (relates : Drifted later live logged drifted)
    {live' logged' : LogicalMap}
    (liveElse : ∀ other, other ≠ key → live'.lookup other = live.lookup other)
    (loggedElse : ∀ other, other ≠ key → logged'.lookup other = logged.lookup other)
    (same : logged'.lookup key = live'.lookup key)
    : Drifted later live' logged' (drifted.erase key) := by
  refine ⟨?_, ?_, ?_⟩
  · intro other stays
    by_cases isKey : other = key
    · rw [isKey, same]
    · have notMember : other ∉ drifted :=
        fun member => stays (Finset.mem_erase.mpr ⟨isKey, member⟩)
      rw [liveElse other isKey, loggedElse other isKey, relates.synced other notMember]
  · intro other member binding found
    obtain ⟨notKey, member⟩ := Finset.mem_erase.mp member
    exact relates.hidden other member binding (liveElse other notKey ▸ found)
  · intro other member binding found
    obtain ⟨notKey, member⟩ := Finset.mem_erase.mp member
    exact relates.unseen other member binding (loggedElse other notKey ▸ found)

/-- A binding that both maps get. -/
theorem Drifted.inserted (relates : Drifted later live logged drifted) (key : CString)
    (binding : Binding)
    : Drifted later (live.insert key binding) (logged.insert key binding) (drifted.erase key) := by
  refine relates.agree (fun _ => Finmap.lookup_insert_of_ne live)
    (fun _ => Finmap.lookup_insert_of_ne logged) ?_
  rw [Finmap.lookup_insert, Finmap.lookup_insert]

/-- Two maps that agree on every key but one, which nobody sees in either. -/
theorem Drifted.disagree (relates : Drifted later live logged drifted)
    {live' logged' : LogicalMap}
    (liveElse : ∀ other, other ≠ key → live'.lookup other = live.lookup other)
    (loggedElse : ∀ other, other ≠ key → logged'.lookup other = logged.lookup other)
    (hidden : ∀ binding, live'.lookup key = some binding →
      binding.isExpired later = true ∧ ∀ value, binding.content ≠ .string value)
    (unseen : ∀ binding, logged'.lookup key = some binding → binding.isExpired later = true)
    : Drifted later live' logged' (insert key drifted) := by
  refine ⟨?_, ?_, ?_⟩
  · intro other stays
    rw [Finset.mem_insert, not_or] at stays
    rw [liveElse other stays.1, loggedElse other stays.1, relates.synced other stays.2]
  · intro other member binding found
    by_cases isKey : other = key
    · exact hidden binding (isKey ▸ found)
    · have earlier := (Finset.mem_insert.mp member).resolve_left isKey
      exact relates.hidden other earlier binding (liveElse other isKey ▸ found)
  · intro other member binding found
    by_cases isKey : other = key
    · exact unseen binding (isKey ▸ found)
    · have earlier := (Finset.mem_insert.mp member).resolve_left isKey
      exact relates.unseen other earlier binding (loggedElse other isKey ▸ found)

/-- Removing bindings nobody will see makes their keys drift. -/
theorem Drifted.loses (relates : Drifted later live logged drifted) {after : LogicalMap}
    (loses : LogicalMap.Loses live after (fun binding => binding.isExpired later = true))
    : Drifted later after logged (drifted ∪ (live.keys \ after.keys)) := by
  refine ⟨?_, ?_, ?_⟩
  · intro other stays
    rw [Finset.mem_union, not_or, Finset.mem_sdiff, not_and_not_right] at stays
    rcases loses other with same | ⟨gone, binding, found, _⟩
    · rw [same, relates.synced other stays.1]
    · have bound : other ∈ live.keys := Finmap.mem_keys.mpr (Finmap.mem_of_lookup_eq_some found)
      have still := Finmap.lookup_isSome.mpr (Finmap.mem_keys.mp (stays.2 bound))
      rw [gone] at still
      contradiction
  · intro other member binding found
    rcases loses other with same | ⟨gone, _⟩
    · rcases Finset.mem_union.mp member with earlier | removed
      · exact relates.hidden other earlier binding (same ▸ found)
      · have unbound := (Finset.mem_sdiff.mp removed).2
        exact absurd (Finmap.mem_keys.mpr (Finmap.mem_of_lookup_eq_some found)) unbound
    · rw [gone] at found
      contradiction
  · intro other member binding found
    rcases Finset.mem_union.mp member with earlier | removed
    · exact relates.unseen other earlier binding found
    · by_cases earlier : other ∈ drifted
      · exact relates.unseen other earlier binding found
      · rw [relates.synced other earlier] at found
        rcases loses other with same | ⟨_, lost, before, expired⟩
        · have unbound := (Finset.mem_sdiff.mp removed).2
          rw [← same] at found
          exact absurd (Finmap.mem_keys.mpr (Finmap.mem_of_lookup_eq_some found)) unbound
        · obtain rfl := Option.some.inj (before.symm.trans found)
          exact expired

/-- A lookup that finds nothing met no binding or an expired one. -/
theorem expired_of_expire_none (before : now ≤ later)
    (unbound : (LogicalMap.expire live now key).lookup key = none) (binding : Binding)
    (found : live.lookup key = some binding)
    : binding.isExpired later = true := by
  cases passed : binding.isExpired now with
  | true => exact Binding.isExpired_mono before passed
  | false =>
      rw [LogicalMap.expire_of_live found passed, found] at unbound
      contradiction

/-- A lookup in the logged map finds nothing where nobody sees the live binding. -/
theorem Drifted.expire_none (relates : Drifted later live logged drifted)
    (dying : ∀ binding, live.lookup key = some binding → binding.isExpired later = true)
    : (LogicalMap.expire logged later key).lookup key = none := by
  cases found : logged.lookup key with
  | none => rw [LogicalMap.expire_of_lookup_none later found, found]
  | some binding =>
      have expired : binding.isExpired later = true := by
        by_cases member : key ∈ drifted
        · exact relates.unseen key member binding found
        · exact dying binding ((relates.synced key member).symm.trans found)
      rw [LogicalMap.expire_of_expired found expired, Finmap.lookup_erase]

/-- There is room for a key in the logged map. -/
theorem Drifted.not_full (relates : Drifted later live logged drifted) {capacity : Nat}
    (room : HasRoom capacity live drifted key)
    (unbound : (LogicalMap.expire logged later key).lookup key = none)
    : LogicalMap.full (LogicalMap.expire logged later key) capacity = false := by
  rcases room with rfl | room
  · simp [LogicalMap.full]
  · have within : (LogicalMap.expire logged later key).keys
        ⊆ (live.keys ∪ drifted).erase key := by
      intro other member
      obtain ⟨binding, found⟩ := Option.isSome_iff_exists.mp
        (Finmap.lookup_isSome.mpr (Finmap.mem_keys.mp member))
      have notKey : other ≠ key := by
        rintro rfl
        rw [unbound] at found
        contradiction
      rw [LogicalMap.lookup_expire_ne later notKey] at found
      refine Finset.mem_erase.mpr ⟨notKey, Finset.mem_union.mpr ?_⟩
      by_cases gone : other ∈ drifted
      · exact .inr gone
      · rw [relates.synced other gone] at found
        exact .inl (Finmap.mem_keys.mpr (Finmap.mem_of_lookup_eq_some found))
    have small := Finset.card_le_card within
    simp only [LogicalMap.full, Bool.and_eq_false_iff, decide_eq_false_iff_not]
    right
    omega

end

-- One record on both maps

section

variable {later now : Int64} {live logged : LogicalMap} {drifted : Finset CString}
  {key : CString} {capacity replayCapacity : Nat}

theorem lookup_expire_insert_else {map : LogicalMap} {binding : Binding} (other : CString)
    (different : other ≠ key)
    : ((LogicalMap.expire map now key).insert key binding).lookup other = map.lookup other :=
  (Finmap.lookup_insert_of_ne _ different).trans (LogicalMap.lookup_expire_ne now different)

theorem Drifted.set (relates : Drifted later live logged drifted) {value : CString}
    (took : (Record.set key value).Took capacity now live)
    (faithful : (Record.set key value).Faithful later replayCapacity now live drifted)
    : Drifted later ((Record.set key value).apply capacity now live)
        ((Record.set key value).apply replayCapacity later logged) (drifted.erase key) := by
  simp only [Record.apply]
  rcases took with ⟨unbound, notFull⟩ | ⟨old, expireAt, found⟩
  · obtain ⟨stays, room⟩ := faithful unbound
    have loggedUnbound := (relates.synced key stays).trans unbound
    have expires := LogicalMap.expire_of_lookup_none later loggedUnbound
    have loggedRoom := relates.not_full room (expires.symm ▸ loggedUnbound)
    rw [expires] at loggedRoom
    simp only [LogicalMap.set, unbound, notFull, loggedUnbound, loggedRoom, Bool.false_eq_true,
      if_false, Outcome.recorded]
    exact relates.inserted key _
  · have loggedFound := (relates.synced key (relates.notMem_string found)).trans found
    simp only [LogicalMap.set, found, loggedFound, Outcome.recorded]
    exact relates.inserted key _

theorem Drifted.delete (relates : Drifted later live logged drifted)
    (took : (Record.delete key).Took capacity now live)
    : Drifted later ((Record.delete key).apply capacity now live)
        ((Record.delete key).apply replayCapacity later logged) (drifted.erase key) := by
  obtain ⟨binding, found⟩ := took
  simp only [Record.apply, LogicalMap.delete, found, Outcome.recorded]
  cases loggedFound : logged.lookup key with
  | none =>
      refine relates.agree (fun _ => Finmap.lookup_erase_ne) (fun _ _ => rfl) ?_
      rw [Outcome.silent, Finmap.lookup_erase, loggedFound]
  | some other =>
      refine relates.agree (fun _ => Finmap.lookup_erase_ne) (fun _ => Finmap.lookup_erase_ne) ?_
      rw [Finmap.lookup_erase, Finmap.lookup_erase]

theorem Drifted.lpush (relates : Drifted later live logged drifted) (before : now ≤ later)
    {value : CString} (took : (Record.lpush key value).Took capacity now live)
    (faithful : (Record.lpush key value).Faithful later replayCapacity now live drifted)
    : Drifted later ((Record.lpush key value).apply capacity now live)
        ((Record.lpush key value).apply replayCapacity later logged) (drifted.erase key) := by
  simp only [Record.apply]
  rcases took with ⟨unbound, notFull⟩ | ⟨items, expireAt, bound⟩
  · simp only [Record.Faithful, unbound] at faithful
    have loggedUnbound := relates.expire_none (expired_of_expire_none before unbound)
    have loggedRoom := relates.not_full faithful loggedUnbound
    simp only [LogicalMap.lpush, unbound, notFull, loggedUnbound, loggedRoom, Bool.false_eq_true,
      if_false, Outcome.recorded]
    refine relates.agree lookup_expire_insert_else lookup_expire_insert_else ?_
    rw [Finmap.lookup_insert, Finmap.lookup_insert]
  · simp only [Record.Faithful, bound] at faithful
    obtain ⟨found, fresh⟩ := LogicalMap.lookup_expire bound
    have loggedFound := (relates.synced key (relates.notMem found faithful)).trans found
    simp only [LogicalMap.lpush, LogicalMap.expire_of_live found fresh, found,
      LogicalMap.expire_of_live loggedFound faithful, loggedFound, Outcome.recorded]
    exact relates.inserted key _

theorem Drifted.sadd (relates : Drifted later live logged drifted) (before : now ≤ later)
    {value : CString} (took : (Record.sadd key value).Took capacity now live)
    (faithful : (Record.sadd key value).Faithful later replayCapacity now live drifted)
    : Drifted later ((Record.sadd key value).apply capacity now live)
        ((Record.sadd key value).apply replayCapacity later logged) (drifted.erase key) := by
  simp only [Record.apply]
  rcases took with ⟨unbound, notFull⟩ | ⟨members, expireAt, bound, absent⟩
  · simp only [Record.Faithful, unbound] at faithful
    have loggedUnbound := relates.expire_none (expired_of_expire_none before unbound)
    have loggedRoom := relates.not_full faithful loggedUnbound
    simp only [LogicalMap.sadd, unbound, notFull, loggedUnbound, loggedRoom, Bool.false_eq_true,
      if_false, Outcome.recorded]
    refine relates.agree lookup_expire_insert_else lookup_expire_insert_else ?_
    rw [Finmap.lookup_insert, Finmap.lookup_insert]
  · simp only [Record.Faithful, bound] at faithful
    obtain ⟨found, fresh⟩ := LogicalMap.lookup_expire bound
    have loggedFound := (relates.synced key (relates.notMem found faithful)).trans found
    simp only [LogicalMap.sadd, LogicalMap.expire_of_live found fresh, found,
      LogicalMap.expire_of_live loggedFound faithful, loggedFound, absent, if_false,
      Outcome.recorded]
    exact relates.inserted key _

/-- Taking an element of a container. Both maps lose it when the deadline is ahead; otherwise the
record meets an expired container, and what the live map keeps of it has drifted.
-/
theorem Drifted.taken (relates : Drifted later live logged drifted) {record : Record}
    {content rest : Content} {expireAt : Int64} {emptied : Prop} [Decidable emptied]
    (found : live.lookup key = some ⟨content, expireAt⟩) (notString : ∀ value, rest ≠ .string value)
    (isTaking : ∀ after, record.drift later after drifted
      = match after.lookup key with
        | some binding => if binding.isExpired later then insert key drifted else drifted
        | none => drifted.erase key)
    (liveTakes : record.apply capacity now live
      = if emptied then live.erase key else live.insert key ⟨rest, expireAt⟩)
    (loggedTakes : logged.lookup key = some ⟨content, expireAt⟩ →
      (Binding.mk content expireAt).isExpired later = false →
      record.apply replayCapacity later logged
        = if emptied then logged.erase key else logged.insert key ⟨rest, expireAt⟩)
    (loggedMisses : (LogicalMap.expire logged later key).lookup key = none →
      record.apply replayCapacity later logged = LogicalMap.expire logged later key)
    : Drifted later (record.apply capacity now live)
        (record.apply replayCapacity later logged)
        (record.drift later (record.apply capacity now live) drifted) := by
  have takenElse : ∀ (map : LogicalMap) other, other ≠ key →
      (if emptied then map.erase key else map.insert key ⟨rest, expireAt⟩).lookup other
        = map.lookup other := by
    intro map other different
    split
    · exact Finmap.lookup_erase_ne different
    · exact Finmap.lookup_insert_of_ne map different
  have takenKey : ∀ map : LogicalMap,
      (if emptied then map.erase key else map.insert key ⟨rest, expireAt⟩).lookup key
        = if emptied then none else some ⟨rest, expireAt⟩ := by
    intro map
    split
    · exact Finmap.lookup_erase ..
    · exact Finmap.lookup_insert ..
  rw [isTaking, liveTakes, takenKey]
  cases ahead : (Binding.mk content expireAt).isExpired later with
  | true =>
      have missed := relates.expire_none (fun binding other =>
        Option.some.inj (found.symm.trans other) ▸ ahead)
      have dying : (Binding.mk rest expireAt).isExpired later = true := ahead
      rw [loggedMisses missed]
      by_cases empty : emptied
      · simp only [empty, if_true]
        refine relates.agree (fun _ => Finmap.lookup_erase_ne)
          (fun other different => LogicalMap.lookup_expire_ne later different) ?_
        rw [missed, Finmap.lookup_erase]
      · simp only [empty, if_false, dying, if_true]
        refine relates.disagree (fun _ => Finmap.lookup_insert_of_ne live)
          (fun other different => LogicalMap.lookup_expire_ne later different) ?_ (by simp [missed])
        intro binding bound
        rw [Finmap.lookup_insert] at bound
        exact Option.some.inj bound ▸ ⟨dying, notString⟩
  | false =>
      have notDrifted := relates.notMem found ahead
      have fresh : (Binding.mk rest expireAt).isExpired later = false := ahead
      have agrees := relates.agree (takenElse live) (takenElse logged)
        ((takenKey logged).trans (takenKey live).symm)
      rw [loggedTakes ((relates.synced key notDrifted).trans found) ahead]
      by_cases empty : emptied
      · simp only [empty, if_true] at agrees ⊢
        exact agrees
      · simp only [empty, if_false, fresh, Bool.false_eq_true] at agrees ⊢
        rwa [Finset.erase_eq_of_notMem notDrifted] at agrees

theorem Drifted.rpop (relates : Drifted later live logged drifted)
    (took : (Record.rpop key).Took capacity now live)
    : Drifted later ((Record.rpop key).apply capacity now live)
        ((Record.rpop key).apply replayCapacity later logged)
        ((Record.rpop key).drift later ((Record.rpop key).apply capacity now live) drifted) := by
  obtain ⟨items, expireAt, value, bound, last⟩ := took
  obtain ⟨found, fresh⟩ := LogicalMap.lookup_expire bound
  refine @Drifted.taken _ now _ _ _ _ capacity replayCapacity relates (.rpop key) (.list items)
    (.list items.dropLast) expireAt (items.dropLast = []) _ found (by simp) (fun _ => rfl) ?_ ?_ ?_
  · simp only [Record.apply, LogicalMap.rpop, LogicalMap.expire_of_live found fresh, found, last]
    split <;> rfl
  · intro loggedFound ahead
    simp only [Record.apply, LogicalMap.rpop, LogicalMap.expire_of_live loggedFound ahead,
      loggedFound, last]
    split <;> rfl
  · intro missed
    simp only [Record.apply, LogicalMap.rpop, missed]
    rfl

theorem Drifted.srem (relates : Drifted later live logged drifted) {value : CString}
    (took : (Record.srem key value).Took capacity now live)
    : Drifted later ((Record.srem key value).apply capacity now live)
        ((Record.srem key value).apply replayCapacity later logged)
        ((Record.srem key value).drift later
          ((Record.srem key value).apply capacity now live) drifted) := by
  obtain ⟨members, expireAt, bound, present⟩ := took
  obtain ⟨found, fresh⟩ := LogicalMap.lookup_expire bound
  refine @Drifted.taken _ now _ _ _ _ capacity replayCapacity relates (.srem key value)
    (.set members) (.set (members.erase value)) expireAt (members.erase value = ∅) _ found
    (by simp) (fun _ => rfl) ?_ ?_ ?_
  · simp only [Record.apply, LogicalMap.srem, LogicalMap.expire_of_live found fresh, found,
      present, if_true]
    split <;> rfl
  · intro loggedFound ahead
    simp only [Record.apply, LogicalMap.srem, LogicalMap.expire_of_live loggedFound ahead,
      loggedFound, present, if_true]
    split <;> rfl
  · intro missed
    simp only [Record.apply, LogicalMap.srem, missed]
    rfl

theorem Drifted.pexpireat (relates : Drifted later live logged drifted) {expireAtMs : Int64}
    (took : (Record.pexpireat key expireAtMs).Took capacity now live)
    (faithful : (Record.pexpireat key expireAtMs).Faithful later replayCapacity now live drifted)
    : Drifted later ((Record.pexpireat key expireAtMs).apply capacity now live)
        ((Record.pexpireat key expireAtMs).apply replayCapacity later logged) drifted := by
  obtain ⟨binding, bound⟩ := took
  obtain ⟨found, fresh⟩ := LogicalMap.lookup_expire bound
  simp only [Record.apply, LogicalMap.setDeadline, found]
  by_cases member : key ∈ drifted
  · have passed : ∀ content, (Binding.mk content expireAtMs).isExpired later = true := by
      intro content
      simp [Binding.isExpired, faithful member]
    have notString := (relates.hidden key member binding found).2
    have disagrees : ∀ logged', (∀ other, other ≠ key →
        logged'.lookup other = logged.lookup other) →
        (∀ other, logged'.lookup key = some other → other.isExpired later = true) →
        Drifted later (live.insert key { binding with expireAt := expireAtMs }) logged'
          drifted := by
      intro logged' loggedElse unseen
      rw [← Finset.insert_eq_of_mem member]
      refine relates.disagree (fun _ => Finmap.lookup_insert_of_ne live) loggedElse ?_ unseen
      intro other same
      rw [Finmap.lookup_insert] at same
      exact Option.some.inj same ▸ ⟨passed _, notString⟩
    cases loggedFound : logged.lookup key with
    | none => exact disagrees logged (fun _ _ => rfl) (by simp [loggedFound])
    | some other =>
        refine disagrees _ (fun _ => Finmap.lookup_insert_of_ne logged) ?_
        intro changed same
        rw [Finmap.lookup_insert] at same
        exact Option.some.inj same ▸ passed _
  · have loggedFound := (relates.synced key member).trans found
    simp only [loggedFound]
    rw [← Finset.erase_eq_of_notMem member]
    exact relates.inserted key _

/-- A faithful record keeps the two maps related. -/
theorem Drifted.record (relates : Drifted later live logged drifted) (before : now ≤ later)
    {record : Record} (took : record.Took capacity now live)
    (faithful : record.Faithful later replayCapacity now live drifted)
    : Drifted later (record.apply capacity now live) (record.apply replayCapacity later logged)
        (record.drift later (record.apply capacity now live) drifted) := by
  cases record with
  | set key value => exact relates.set took faithful
  | delete key => exact relates.delete took
  | lpush key value => exact relates.lpush before took faithful
  | rpop key => exact relates.rpop took
  | sadd key value => exact relates.sadd before took faithful
  | srem key value => exact relates.srem took
  | pexpireat key expireAtMs => exact relates.pexpireat took faithful

end

-- One operation

/-- An operation leaves one record of what it did, or no record and at most an expired binding
less.
-/
def Outcome.Accounted (outcome : Outcome) (capacity : Nat) (now : Int64) (map : LogicalMap)
    : Prop :=
  (outcome.logged = []
      ∧ LogicalMap.Loses map outcome.map (fun binding => binding.isExpired now = true))
    ∨ ∃ record, outcome.logged = [record] ∧ record.Took capacity now map
        ∧ outcome.map = record.apply capacity now map

section

variable {map : LogicalMap} {capacity : Nat} {now : Int64}

theorem LogicalMap.expire_loses (map : LogicalMap) (now : Int64) (key : CString)
    : LogicalMap.Loses map (LogicalMap.expire map now key)
        (fun binding => binding.isExpired now = true) := by
  rcases LogicalMap.expire_cases map now key with
    ⟨_, same⟩ | ⟨binding, found, expired, gone⟩ | ⟨_, _, _, same⟩
  · rw [same]
    exact .refl _ _
  · rw [gone]
    exact LogicalMap.loses_erase found expired
  · rw [same]
    exact .refl _ _

/-- Every operation leaves one record of what it did, or removed nothing but an expired
binding.
-/
theorem Op.outcome_accounted (op : Op) (logging : Bool)
    : (op.outcome capacity logging now map).Accounted capacity now map := by
  cases op.outcome_leaves capacity logging now map with
  | silent logged _ same =>
      refine .inl ⟨logged, ?_⟩
      rcases same with same | ⟨key, same⟩
      · rw [same]
        exact .refl _ _
      · rw [same]
        exact LogicalMap.expire_loses map now key
  | recorded _ took records applied => exact .inr ⟨_, records.1, took, applied⟩

/-- An operation whose record, if it leaves one, is faithful keeps the live map and the map of
the log related.
-/
theorem Drifted.operation {later : Int64} {live logged : LogicalMap}
    {drifted : Finset CString} (relates : Drifted later live logged drifted)
    (before : now ≤ later) {outcome : Outcome} {replayCapacity : Nat}
    (accounted : outcome.Accounted capacity now live)
    (faithful : ∀ record ∈ outcome.logged,
      record.Faithful later replayCapacity now live drifted)
    : Drifted later outcome.map (applyRecords replayCapacity later outcome.logged logged)
        (driftAfter later live outcome.map outcome.logged drifted) := by
  rcases accounted with ⟨none, loses⟩ | ⟨record, one, took, applied⟩
  · rw [none]
    exact relates.loses (fun key => (loses key).imp_right
      (fun ⟨gone, binding, found, expired⟩ =>
        ⟨gone, binding, found, Binding.isExpired_mono before expired⟩))
  · rw [one] at faithful ⊢
    rw [applied]
    exact relates.record before took (faithful record List.mem_cons_self)

end

end MiniKv
