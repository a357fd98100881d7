import MiniKv.Correctness.TurnOrders
import MiniKv.Foundations.KeyedUpdates
import MiniKv.Refinement.Replay

/-! What a key shows depends on the calls for that key alone: memory shows what the calls make of it
in their order, and the replay of their records gives the same.
-/

namespace MiniKv

open MiniKv.Foundations.KeyedUpdates

variable {machine : Machine} {turn : Turn} {store : Store}

/-- The record of a call. -/
def Mutation.logged : Mutation → Record
  | .set key value => .set key value
  | .delete key => .delete key

/-- What a key shows after a call that succeeded. -/
def Mutation.change : Mutation → Option Binding → Option Binding
  | .set _ value, some ⟨.string _, expireAt⟩ => some ⟨.string value, expireAt⟩
  | .set _ _, some other => some other
  | .set _ value, none => some ⟨.string value, 0⟩
  | .delete _, _ => none

/-- What the keys of a map show. -/
def LogicalMap.view (map : LogicalMap) (key : CString) : Option Binding :=
  map.lookup key

/-- What the keys show after some calls. -/
def showAfter (calls : List (Nat × Mutation)) (map : LogicalMap) : CString → Option Binding :=
  calls.foldl (update (fun call => call.2.key) (fun call => call.2.change)) (LogicalMap.view map)

theorem Mutation.record_eq (mutation : Mutation) : mutation.record = mutation.logged.bytes := by
  cases mutation <;> rfl

theorem LogicalMap.view_insert (map : LogicalMap) (key : CString) (binding : Binding)
    : LogicalMap.view (map.insert key binding)
      = Function.update (LogicalMap.view map) key (some binding) := by
  funext other
  by_cases same : other = key
  · subst same
    rw [LogicalMap.view, Finmap.lookup_insert, Function.update_self]
  · rw [LogicalMap.view, Finmap.lookup_insert_of_ne _ same, Function.update_of_ne same]
    rfl

theorem LogicalMap.view_erase (map : LogicalMap) (key : CString)
    : LogicalMap.view (map.erase key) = Function.update (LogicalMap.view map) key none := by
  funext other
  by_cases same : other = key
  · subst same
    rw [LogicalMap.view, Finmap.lookup_erase, Function.update_self]
  · rw [LogicalMap.view, Finmap.lookup_erase_ne same, Function.update_of_ne same]
    rfl

/-- The record of a call changes what its key shows, unless it creates a key in a full map. -/
theorem Mutation.logged_apply (mutation : Mutation) {map : LogicalMap} {capacity : Nat}
    (room : map.lookup mutation.key = none → LogicalMap.full map capacity = false) (now : Int64)
    : LogicalMap.view (mutation.logged.apply capacity now map)
      = update Mutation.key Mutation.change (LogicalMap.view map) mutation := by
  cases mutation with
  | set target value =>
      simp only [Mutation.logged, Record.apply, LogicalMap.set, update, Mutation.key]
      cases shown : map.lookup target with
      | none =>
          simp only [Mutation.key, shown, true_implies] at room
          simp only [room, Bool.false_eq_true, if_false, Outcome.recorded, LogicalMap.view_insert,
            LogicalMap.view, shown, Mutation.change]
      | some binding =>
          obtain ⟨content, expireAt⟩ := binding
          cases content with
          | string old =>
              simp only [Outcome.recorded, LogicalMap.view_insert, LogicalMap.view, shown,
                Mutation.change]
          | _ =>
              simp only [Outcome.silent, LogicalMap.view, shown, Mutation.change]
              rw [← shown]
              exact (Function.update_eq_self target (LogicalMap.view map)).symm
  | delete target =>
      simp only [Mutation.logged, Record.apply, LogicalMap.delete, update, Mutation.key,
        Mutation.change]
      cases shown : map.lookup target with
      | none =>
          simp only [Outcome.silent]
          rw [← shown]
          exact (Function.update_eq_self target (LogicalMap.view map)).symm
      | some binding =>
          simp only [Outcome.recorded, LogicalMap.view_erase]

/-- A string that can be written has a key already or finds room for one. -/
theorem LogicalMap.set_room {map after : LogicalMap} {capacity : Nat} {key value : CString}
    (outcome : LogicalMap.set map capacity key value
      = .recorded (.status kvOk) after (.set key value)) (absent : map.lookup key = none)
    : LogicalMap.full map capacity = false := by
  simp only [LogicalMap.set, absent] at outcome
  by_contra isFull
  rw [Bool.not_eq_false] at isFull
  simp [isFull, Outcome.silent, Outcome.recorded] at outcome

/-- A call that succeeds changes the table as its record says. -/
theorem Mutation.apply_ok (mutation : Mutation) {env : CallEnv} (sound : store.Sound)
    (worked : (mutation.apply env store).1 = kvOk)
    : mutation.logged.Valid
      ∧ (store.table.logical.lookup mutation.key = none →
          LogicalMap.full store.table.logical store.table.maxCapacity = false)
      ∧ store.table.Becomes (mutation.apply env store).2.table
          (mutation.logged.apply store.table.maxCapacity 0 store.table.logical) := by
  cases mutation with
  | set key value =>
      have stored : (store.table.storeString key value env).1 = kvOk
          ∧ ValidKey key ∧ ValidValue value
          ∧ (kvSetInternal store (some key) (some value) env).2.table
            = (store.table.storeString key value env).2 := by
        simp only [Mutation.apply, kvSetInternal] at worked
        rcases validate_cases key value with
          ⟨err, failed, _, refused | ⟨accepted, refused⟩⟩
            | ⟨validKey, validValue, acceptedKey, acceptedValue⟩
        · simp only [refused] at worked
          exact absurd worked failed.ne
        · simp only [accepted, refused] at worked
          exact absurd worked failed.ne
        · simp only [acceptedKey, acceptedValue] at worked
          have stored : (store.table.storeString key value env).1 = kvOk := by
            by_contra refused
            simp only [refused, if_false] at worked
          refine ⟨stored, validKey, validValue, ?_⟩
          simp only [kvSetInternal, acceptedKey, acceptedValue, stored, if_true]
      obtain ⟨stored, validKey, validValue, table⟩ := stored
      have whole : store.table.storeString key value env
          = store.table.storeString key value (.at 0) := by
        rcases Table.storeString_unlimited sound.unlimited key value env 0 with
          ⟨same, _⟩ | ⟨failed, _⟩
        · exact same
        · exact absurd stored failed
      simp only [Mutation.apply, table, whole] at stored ⊢
      rcases sound.wellFormed.storeString_cases sound.unlimited (CallEnv.clean_at 0) validKey
        validValue with ⟨after, map, written, becomes, outcome⟩ | ⟨err, failed, refused, _⟩
      · refine ⟨⟨validKey, fun _ held => Option.some.inj held ▸ validValue⟩,
          LogicalMap.set_room outcome, ?_⟩
        simp only [written, Mutation.logged, Record.apply, outcome]
        exact becomes
      · rw [refused] at stored
        exact absurd stored failed
  | delete key =>
      simp only [Mutation.apply] at worked ⊢
      cases accepted : validateKey (some key) with
      | error err =>
          simp only [kvDeleteInternal, accepted] at worked
          exact absurd worked (by decide)
      | ok same =>
          obtain ⟨found, validKey⟩ := validateKey_eq_ok.mp accepted
          obtain rfl := Option.some.inj found
          rcases kvDeleteInternal_cases sound.wellFormed validKey env 0 with
            ⟨after, deleted, becomes, outcome⟩ | ⟨missing, _⟩
          · refine ⟨.of_key validKey rfl, fun absent => ?_, ?_⟩
            · simp only [LogicalMap.delete, Mutation.key] at outcome absent
              simp [absent, Outcome.silent, Outcome.recorded] at outcome
            · simp only [deleted, Mutation.logged, Record.apply, outcome]
              exact becomes
          · rw [missing] at worked
            exact absurd worked (show kvErrNotFound ≠ kvOk by decide)

theorem Mutation.append_table (mutation : Mutation) (env : CallEnv) (store : Store)
    : (mutation.append env store).2.2.table = store.table := by
  rw [Mutation.append]
  split <;> rfl

/-- Memory is sound and shows what some calls made of a map; their records are valid. -/
structure Machine.Shows (machine : Machine) (map : LogicalMap) (applied : List (Nat × Mutation))
    : Prop where
  sound : machine.store.Sound
  shows : LogicalMap.view machine.store.table.logical = showAfter applied map
  valid : ∀ call ∈ applied, call.2.logged.Valid

theorem Machine.Shows.progress {after : Machine} {map : LogicalMap}
    {applied : List (Nat × Mutation)} (shows : machine.Shows map applied)
    (progress : machine.Progress turn after)
    : after.Shows map (applied ++ (machine.appliedBy turn).toList) := by
  cases progress with
  | idle silent still =>
      rw [still, Option.toList_none, List.append_nil]
      exact shows
  | @took thread here ready all free silent still =>
      rw [still, Option.toList_none, List.append_nil]
      have grown := shows.sound.wellFormed.growIfLoaded thread.env
      cases mutation : thread.mutation with
      | set key value =>
          exact ⟨⟨grown.wellFormed, grown.maxMemoryBudget.trans shows.sound.unlimited⟩,
            (congrArg LogicalMap.view grown.logical).trans shows.shows, shows.valid⟩
      | delete key => exact ⟨shows.sound, shows.shows, shows.valid⟩
  | @wrote thread here all locked written appends still =>
      have same := thread.mutation.append_table thread.env machine.store
      rw [still, Option.toList_none, List.append_nil]
      refine ⟨⟨?_, ?_⟩, ?_, shows.valid⟩
      · rw [Machine.advance_store, same]
        exact shows.sound.wellFormed
      · rw [Machine.advance_store, same]
        exact shows.sound.unlimited
      · rw [Machine.advance_store, same]
        exact shows.shows
  | @applied thread here all pos logged worked silent applies =>
      obtain ⟨valid, room, becomes⟩ := thread.mutation.apply_ok shows.sound worked
      rw [applies, Option.toList_some]
      refine ⟨⟨becomes.wellFormed, becomes.maxMemoryBudget.trans shows.sound.unlimited⟩, ?_, ?_⟩
      · rw [Machine.advance_store, becomes.logical, thread.mutation.logged_apply room 0,
          shows.shows, showAfter, showAfter, List.foldl_append]
        rfl
      · intro call member
        rcases List.mem_append.mp member with earlier | last
        · exact shows.valid call earlier
        · rw [List.mem_singleton.mp last]
          exact valid

/-- Every call that was applied is one of those the threads were started with. -/
def Machine.Known (machine : Machine) (calls : List Mutation) (applied : List (Nat × Mutation))
    : Prop :=
  machine.threads.map Thread.mutation = calls ∧ ∀ call ∈ applied, call.2 ∈ calls

theorem Machine.Known.progress {after : Machine} {calls : List Mutation}
    {applied : List (Nat × Mutation)} (known : machine.Known calls applied)
    (progress : machine.Progress turn after)
    : after.Known calls (applied ++ (machine.appliedBy turn).toList) := by
  have moved (id : Nat) (phase : Phase) (store : Store) :
      (machine.advance id phase store).threads.map Thread.mutation = calls := by
    rw [← known.1, Machine.advance]
    apply List.ext_getElem?
    intro index
    by_cases same : id = index
    · simp [same, Function.comp_def]
    · simp [same]
  cases progress with
  | idle silent still =>
      rw [still, Option.toList_none, List.append_nil]
      exact known
  | took here ready all free silent still =>
      rw [still, Option.toList_none, List.append_nil]
      exact ⟨moved _ _ _, known.2⟩
  | wrote here locked written appends still =>
      rw [still, Option.toList_none, List.append_nil]
      exact ⟨moved _ _ _, known.2⟩
  | @applied thread here all pos logged worked silent applies =>
      rw [applies, Option.toList_some]
      refine ⟨moved _ _ _, ?_⟩
      intro call member
      rcases List.mem_append.mp member with earlier | last
      · exact known.2 call earlier
      · rw [List.mem_singleton.mp last, ← known.1]
        exact List.mem_map.mpr ⟨thread, List.mem_of_getElem? here, rfl⟩

/-- By induction on the calls: as long as the keys fit, the records change what each key shows. -/
theorem applyRecords_showAfter {capacity : Nat} {bound : Finset CString}
    (room : capacity = 0 ∨ bound.card ≤ capacity) (now : Int64) {calls : List (Nat × Mutation)}
    (within : ∀ call ∈ calls, call.2.key ∈ bound) {map : LogicalMap} (keys : map.keys ⊆ bound)
    : LogicalMap.view (applyRecords capacity now (calls.map (fun call => call.2.logged)) map)
      = showAfter calls map := by
  induction calls generalizing map with
  | nil => rfl
  | cons call rest ih =>
      have inBound := within call List.mem_cons_self
      have fits : map.lookup call.2.key = none → LogicalMap.full map capacity = false := by
        intro absent
        rcases room with rfl | enough
        · exact LogicalMap.full_zero map
        · have missing : call.2.key ∉ map.keys := by
            rw [Finmap.mem_keys, ← Finmap.lookup_eq_none]
            exact absent
          have smaller : map.keys.card < bound.card :=
            Finset.card_lt_card ⟨keys, fun all => missing (all inBound)⟩
          simp only [LogicalMap.full, Bool.and_eq_false_iff, decide_eq_false_iff_not]
          omega
      have first := call.2.logged_apply fits now
      have kept : (call.2.logged.apply capacity now map).keys ⊆ bound := by
        intro key member
        by_cases same : key = call.2.key
        · exact same ▸ inBound
        · have shown := congrFun first key
          rw [update, Function.update_of_ne same, LogicalMap.view, LogicalMap.view] at shown
          rw [Finmap.mem_keys, ← Finmap.lookup_isSome, shown, Finmap.lookup_isSome] at member
          exact keys (Finmap.mem_keys.mpr member)
      have later := ih (fun other member => within other (List.mem_cons_of_mem _ member)) kept
      rw [showAfter, first] at later
      exact later

end MiniKv
