import MiniKv.Refinement.Calls
import MiniKv.Refinement.SnapshotFormat
import MiniKv.Semantics.Histories

/-! Decoded entries, seen from the logical map. The loader goes through the store's own commands,
so what an entry leaves is what these commands make of the map that is there.
-/

namespace MiniKv

variable {store after : Store} {map : LogicalMap} {env : CallEnv} {envs : Nat → CallEnv}
  {nowMs : Int64} {key value : CString}

/-- `kv_set` with valid arguments: a log that is open has to have room for the record. -/
def setOnMap (logging : Bool) (capacity : Nat) (map : LogicalMap) (key value : CString) : Outcome :=
  if logging && !(Record.set key value).fits then .silent (.status kvErrIo) map
  else LogicalMap.set map capacity key value

/-- A string is set; its deadline follows if it was accepted. -/
def SavedEntry.stringOnMap (entry : SavedEntry) (logging : Bool) (capacity : Nat)
    (map : LogicalMap)
    : LogicalMap :=
  match entry.values with
  | [] => map
  | value :: _ =>
      let set := setOnMap logging capacity map entry.key value
      if set.reply = .status kvOk ∧ entry.expireAt ≠ 0 then
        LogicalMap.setDeadline set.map entry.key (Int64.ofNat entry.expireAt)
      else set.map

/-- The elements of a container are recorded; its deadline follows if they are complete. -/
def SavedEntry.containerOnMap (entry : SavedEntry) (record : CString → Record) (capacity : Nat)
    (nowMs : Int64) (map : LogicalMap)
    : LogicalMap :=
  let pushed := applyRecords capacity nowMs (entry.values.map record) map
  if entry.complete ∧ entry.values ≠ [] ∧ entry.expireAt ≠ 0 then
    LogicalMap.setDeadline pushed entry.key (Int64.ofNat entry.expireAt)
  else pushed

def SavedEntry.onMap (entry : SavedEntry) (logging : Bool) (capacity : Nat) (nowMs : Int64)
    (map : LogicalMap)
    : LogicalMap :=
  if entry.typeByte = 0 then entry.stringOnMap logging capacity map
  else if entry.typeByte = 1 then
    entry.containerOnMap (Record.lpush entry.key) capacity nowMs map
  else if entry.typeByte = 2 then
    entry.containerOnMap (Record.sadd entry.key) capacity nowMs map
  else map

/-- An entry with a valid key and valid values. -/
structure SavedEntry.Valid (entry : SavedEntry) : Prop where
  key : ValidKey entry.key
  values : ∀ value ∈ entry.values, ValidValue value

/-- What is left when something was handed over: a map, and a log that is open if it was. -/
structure Store.Loads (before after : Store) (map : LogicalMap) : Prop where
  table : before.table.Becomes after.table map
  isOpen : after.aof.fp.isSome = before.aof.fp.isSome

theorem Store.Loads.refl (wf : store.table.WellFormed)
    : store.Loads store store.table.logical :=
  ⟨.refl wf, rfl⟩

theorem Store.Loads.trans {last : Store} {final : LogicalMap} (early : store.Loads after map)
    (late : after.Loads last final)
    : store.Loads last final :=
  ⟨early.table.trans late.table, late.isOpen.trans early.isOpen⟩

theorem Store.Loads.sound (loads : store.Loads after map) (sound : store.Sound)
    : after.Sound :=
  ⟨loads.table.wellFormed, loads.table.maxMemoryBudget.trans sound.unlimited⟩

theorem Store.Loads.setDeadline (loads : store.Loads after map) (key : CString)
    (expireAtMs : Int64)
    : store.Loads (after.setDeadline key expireAtMs)
        (LogicalMap.setDeadline map key expireAtMs) := by
  have becomes := loads.table.wellFormed.setDeadline key expireAtMs
  rw [loads.table.logical] at becomes
  exact ⟨loads.table.trans becomes, loads.isOpen⟩

theorem Store.Matches.loads {result : Reply (List CString) × Store} {outcome : Outcome}
    (isMatch : store.Matches result outcome)
    : store.Loads result.2 outcome.map :=
  ⟨isMatch.table, isMatch.aof.isOpen⟩

/-- Nothing fails while a file is loaded, and the clock stands still. -/
structure Quiet (envs : Nat → CallEnv) (nowMs : Int64) : Prop where
  clean : ∀ nth, (envs nth).Clean
  clock : ∀ nth, (envs nth).now = nowMs

theorem Quiet.allocated (quiet : Quiet envs nowMs) : BuffersAllocated envs :=
  fun nth => (quiet.clean nth).1 .result

/-- A value is set as on the logical map. -/
theorem kvSet_loads (sound : store.Sound) (clean : env.Clean) (validKey : ValidKey key)
    (validValue : ValidValue value)
    : let set := setOnMap store.aof.fp.isSome store.table.maxCapacity store.table.logical key value
      Reply.status (kvSet store (some key) (some value) env).1 = set.reply
      ∧ store.Loads (kvSet store (some key) (some value) env).2 set.map := by
  have isMatch := kvSet_matches sound.wellFormed sound.unlimited clean (some key) (some value)
  simp only [Op.Refines, Op.outcome, validateKey_of_valid validKey,
    validateValue_of_valid validValue] at isMatch
  exact ⟨isMatch.reply, isMatch.loads⟩

/-- A command that leaves what its record says. -/
def PushesAs (push : Store → CString → CallEnv → Store) (record : CString → Record) : Prop :=
  ∀ (store : Store) (value : CString) (env : CallEnv),
    store.Sound → env.Clean → ValidValue value →
      store.Loads (push store value env)
        ((record value).apply store.table.maxCapacity env.now store.table.logical)

theorem lpushInto_loads (validKey : ValidKey key)
    : PushesAs (lpushInto key) (Record.lpush key) := by
  intro store value env sound clean validValue
  have isMatch := kvLpush_matches sound.wellFormed sound.unlimited clean (some key) (some value)
  simp only [Op.Refines, Op.outcome, validateKey_of_valid validKey,
    validateValue_of_valid validValue] at isMatch
  exact isMatch.loads

theorem saddInto_loads (validKey : ValidKey key)
    : PushesAs (saddInto key) (Record.sadd key) := by
  intro store value env sound clean validValue
  have isMatch := kvSadd_matches sound.wellFormed sound.unlimited clean (some key) (some value)
  simp only [Op.Refines, Op.outcome, validateKey_of_valid validKey,
    validateValue_of_valid validValue] at isMatch
  exact isMatch.loads

/-- Elements, by induction on them. -/
theorem pushAll_loads {push : Store → CString → CallEnv → Store} {record : CString → Record}
    (step : PushesAs push record) (quiet : Quiet envs nowMs) (sound : store.Sound)
    {values : List CString} (valid : ∀ value ∈ values, ValidValue value) (nth : Nat)
    : store.Loads (pushAll push envs values store nth)
        (applyRecords store.table.maxCapacity nowMs (values.map record)
          store.table.logical) := by
  induction values generalizing store nth with
  | nil => exact .refl sound.wellFormed
  | cons value rest ih =>
      have first := step store value (envs nth) sound (quiet.clean nth)
        (valid value List.mem_cons_self)
      rw [quiet.clock nth] at first
      have later := ih (first.sound sound)
        (fun other member => valid other (List.mem_cons_of_mem _ member)) (nth + 1)
      rw [first.table.logical, first.table.maxCapacity] at later
      rw [List.map_cons, applyRecords_cons]
      exact first.trans later

theorem SavedEntry.loadString_loads {entry : SavedEntry} (quiet : Quiet envs nowMs)
    (sound : store.Sound) (valid : entry.Valid) (nth : Nat)
    : store.Loads (entry.loadString envs store nth)
        (entry.stringOnMap store.aof.fp.isSome store.table.maxCapacity store.table.logical) := by
  cases given : entry.values with
  | nil =>
      simp only [SavedEntry.loadString, SavedEntry.stringOnMap, given]
      exact .refl sound.wellFormed
  | cons value rest =>
      obtain ⟨reply, loads⟩ := kvSet_loads sound (quiet.clean nth) valid.key
        (valid.values value (by simp [given]))
      simp only [SavedEntry.loadString, SavedEntry.stringOnMap, given, ← reply, Reply.status.injEq]
      split
      · exact loads.setDeadline _ _
      · exact loads

theorem SavedEntry.loadContainer_loads {entry : SavedEntry} {push record}
    (step : PushesAs push record) (quiet : Quiet envs nowMs) (sound : store.Sound)
    (valid : ∀ value ∈ entry.values, ValidValue value) (nth : Nat)
    : store.Loads (entry.loadContainer push envs store nth)
        (entry.containerOnMap record store.table.maxCapacity nowMs store.table.logical) := by
  have pushed := pushAll_loads step quiet sound valid nth
  rw [SavedEntry.loadContainer, SavedEntry.containerOnMap]
  split
  · exact pushed.setDeadline _ _
  · exact pushed

/-- Handing a valid entry over does to the store what it does to the logical map. -/
theorem SavedEntry.handOver_loads {entry : SavedEntry} (quiet : Quiet envs nowMs)
    (sound : store.Sound) (valid : entry.Valid) (nth : Nat)
    : store.Loads (entry.handOver envs store nth)
        (entry.onMap store.aof.fp.isSome store.table.maxCapacity nowMs store.table.logical) := by
  rw [SavedEntry.handOver, SavedEntry.onMap]
  split
  · exact entry.loadString_loads quiet sound valid nth
  · split
    · exact entry.loadContainer_loads (lpushInto_loads valid.key) quiet sound valid.values nth
    · split
      · exact entry.loadContainer_loads (saddInto_loads valid.key) quiet sound valid.values nth
      · exact .refl sound.wellFormed

end MiniKv
