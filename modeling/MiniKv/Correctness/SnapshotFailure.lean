import MiniKv.Refinement.Dumps
import MiniKv.Refinement.Runs
import MiniKv.Refinement.SnapshotLoad

/-! Failed loads. The loader hands every entry to the store as soon as it has read it, and learns
only later that the file is torn or that its checksum is wrong. So a failed load leaves the
logical map alone exactly if nothing in front of the failure does anything.
-/

namespace MiniKv

open MiniKv.Foundations.FiniteMaps

variable {store : Store} {map : LogicalMap} {envs : Nat → CallEnv} {nowMs : Int64}
  {key value : CString} {entry : SavedEntry}

-- Entries that do nothing

/-- An entry that no store is changed by: without values, expired, or under an invalid key. -/
def SavedEntry.Inert (entry : SavedEntry) (nowMs : Int64) : Prop :=
  entry.values = [] ∨ entry.isLive nowMs = false ∨ ¬ ValidKey entry.key

theorem validateKey_of_invalid (invalid : ¬ ValidKey key)
    : ∃ err, validateKey (some key) = .error err := by
  cases checked : validateKey (some key) with
  | error err => exact ⟨err, rfl⟩
  | ok accepted =>
      obtain ⟨same, valid⟩ := validateKey_eq_ok.mp checked
      exact absurd (Option.some.inj same ▸ valid) invalid

/-- No entry has an invalid key, so there is none whose deadline could be set. -/
theorem setDeadline_of_invalid (wf : store.table.WellFormed) (invalid : ¬ ValidKey key)
    (expireAtMs : Int64)
    : store.setDeadline key expireAtMs = store := by
  have unbound : store.table.lookup key = none := by
    cases found : store.table.lookup key with
    | none => rfl
    | some entry =>
        have shown := wf.logical_lookup key
        rw [found, Option.map_some] at shown
        exact absurd (wf.logical_valid.keys key entry.binding shown) invalid
  rw [Store.setDeadline, Table.kvSetExpireAtMsInternal, Table.modifyEntry_of_lookup_none unbound]

theorem pushAll_of_refused {push : Store → CString → CallEnv → Store}
    (refused : ∀ value env, push store value env = store) (values : List CString) (nth : Nat)
    : pushAll push envs values store nth = store := by
  induction values generalizing nth with
  | nil => rfl
  | cons value rest ih => rw [pushAll, refused, ih]

theorem SavedEntry.loadContainer_of_refused {push : Store → CString → CallEnv → Store}
    (wf : store.table.WellFormed) (invalid : ¬ ValidKey entry.key)
    (refused : ∀ value env, push store value env = store) (nth : Nat)
    : entry.loadContainer push envs store nth = store := by
  rw [SavedEntry.loadContainer, pushAll_of_refused refused]
  split
  · exact setDeadline_of_invalid wf invalid _
  · rfl

theorem SavedEntry.handOver_of_invalid (wf : store.table.WellFormed)
    (invalid : ¬ ValidKey entry.key) (nth : Nat)
    : entry.handOver envs store nth = store := by
  obtain ⟨err, checked⟩ := validateKey_of_invalid invalid
  rw [SavedEntry.handOver]
  split
  · rw [SavedEntry.loadString]
    split
    · rfl
    · simp only [kvSet, checked, setDeadline_of_invalid wf invalid, ite_self]
  · split
    · refine entry.loadContainer_of_refused wf invalid (fun value env => ?_) nth
      simp only [lpushInto, kvLpush, checked]
    · split
      · refine entry.loadContainer_of_refused wf invalid (fun value env => ?_) nth
        simp only [saddInto, kvSadd, checked]
      · rfl

theorem SavedEntry.handOver_of_empty (empty : entry.values = []) (nth : Nat)
    : entry.handOver envs store nth = store := by
  simp [SavedEntry.handOver, SavedEntry.loadString, SavedEntry.loadContainer, empty, pushAll]

/-- Loading an inert entry leaves the store alone, whatever fails meanwhile. -/
theorem SavedEntry.Inert.load (inert : entry.Inert nowMs) (wf : store.table.WellFormed)
    (nth : Nat)
    : entry.load nowMs envs store nth = store := by
  rw [SavedEntry.load]
  split
  · next live =>
      rcases inert with empty | expired | invalid
      · exact entry.handOver_of_empty empty nth
      · exact absurd live (by rw [expired]; decide)
      · exact entry.handOver_of_invalid wf invalid nth
  · rfl

theorem loadAll_inert {entries : List SavedEntry}
    (inert : ∀ entry ∈ entries, entry.Inert nowMs) (wf : store.table.WellFormed) (nth : Nat)
    : loadAll nowMs envs entries store nth = store := by
  induction entries generalizing nth with
  | nil => rfl
  | cons entry rest ih =>
      rw [loadAll, (inert entry List.mem_cons_self).load wf,
        ih (fun other member => inert other (List.mem_cons_of_mem _ member))]

-- What can be decoded

/-- What holds of every decoded entry: its values are valid, and only types that the store has
come with values.
-/
structure SavedEntry.Legible (entry : SavedEntry) : Prop where
  values : ∀ value ∈ entry.values, ValidValue value
  typed : entry.values ≠ [] →
    entry.typeByte = 0 ∨ entry.typeByte = 1 ∨ entry.typeByte = 2

/-- What was read, up to a failure if there is one. -/
def spelled {α : Type} : Except (List α) (List α × Reader) → List α
  | .error items => items
  | .ok (items, _) => items

theorem Reader.readString_bounded {reader after : Reader} {maxLen : Nat} {string : CString}
    (read : reader.readString maxLen true = some (string, after))
    : string.length ≤ maxLen := by
  rw [Reader.readString] at read
  obtain ⟨⟨len, middle⟩, _, read⟩ := Option.bind_eq_some_iff.mp read
  simp only [if_true] at read
  split at read
  · contradiction
  · next bounded =>
      obtain ⟨⟨buffer, rest⟩, bytes, same⟩ := Option.map_eq_some_iff.mp read
      obtain ⟨rfl, rfl⟩ := Prod.mk.inj same
      have cut : (CString.ofBuffer buffer).length ≤ buffer.length :=
        (List.takeWhile_sublist _).length_le
      rw [Reader.readBytes_length bytes] at cut
      exact Nat.le_trans cut (Nat.not_lt.mp bounded)

theorem Reader.readStrings_valid (count : Nat) (reader : Reader)
    : ∀ value ∈ spelled (reader.readStrings count), ValidValue value := by
  induction count generalizing reader with
  | zero => simp [Reader.readStrings, spelled]
  | succ count ih =>
      rw [Reader.readStrings]
      cases read : reader.readString kvMaxValueLen true with
      | none => simp [spelled]
      | some result =>
          obtain ⟨value, middle⟩ := result
          have first : ValidValue value := Reader.readString_bounded read
          have others := ih middle
          simp only
          cases later : middle.readStrings count with
          | error values =>
              rw [later] at others
              exact List.forall_mem_cons.mpr ⟨first, others⟩
          | ok result =>
              rw [later] at others
              exact List.forall_mem_cons.mpr ⟨first, others⟩

/-- An entry behind its type byte is legible, complete or not. -/
theorem Reader.readValues_legible (reader : Reader) (expireAt : Nat) (key : CString)
    (typeByte : UInt8)
    : match reader.readValues expireAt key typeByte with
      | .error entries => ∀ entry ∈ entries, entry.Legible
      | .ok (entry, _) => entry.Legible := by
  by_cases typed : typeByte = 0 ∨ typeByte = 1 ∨ typeByte = 2
  · rw [Reader.readValues]
    cases counted : reader.readCount typeByte with
    | none => simp
    | some result =>
        obtain ⟨count, middle⟩ := result
        have valid := middle.readStrings_valid count
        simp only
        cases read : middle.readStrings count with
        | error values =>
            rw [read] at valid
            exact List.forall_mem_singleton.mpr ⟨valid, fun _ => typed⟩
        | ok result =>
            rw [read] at valid
            exact ⟨valid, fun _ => typed⟩
  · obtain ⟨notString, notContainer⟩ := not_or.mp typed
    simp only [Reader.readValues, Reader.readCount, notString, notContainer, if_false,
      Reader.readStrings]
    exact ⟨by simp, fun some => absurd rfl some⟩

theorem Reader.readEntry_legible (reader : Reader) (expireAt : Nat)
    : match reader.readEntry expireAt with
      | .error entries => ∀ entry ∈ entries, entry.Legible
      | .ok (entry, _) => entry.Legible := by
  rw [Reader.readEntry]
  cases reader.readString kvMaxKeyLen true with
  | none => simp
  | some result =>
      simp only
      cases typed : result.2.readBytes 1 with
      | none => simp
      | some result =>
          obtain ⟨bytes, middle⟩ := result
          obtain ⟨typeByte, rfl⟩ := List.length_eq_one_iff.mp (Reader.readBytes_length typed)
          exact middle.readValues_legible expireAt _ typeByte

theorem Reader.readEntries_legible (fuel : Nat) (reader : Reader)
    : ∀ entry ∈ spelled (reader.readEntries fuel), entry.Legible := by
  induction fuel generalizing reader with
  | zero => simp [Reader.readEntries, spelled]
  | succ fuel ih =>
      rw [Reader.readEntries]
      cases reader.readUint64 with
      | none => simp [spelled]
      | some result =>
          obtain ⟨expireAt, middle⟩ := result
          simp only
          split
          · simp [spelled]
          · have first := middle.readEntry_legible expireAt
            cases read : middle.readEntry expireAt with
            | error entries =>
                rw [read] at first
                exact first
            | ok result =>
                rw [read] at first
                have others := ih result.2
                simp only
                cases later : result.2.readEntries fuel with
                | error entries =>
                    rw [later] at others
                    exact List.forall_mem_cons.mpr ⟨first, others⟩
                | ok result =>
                    rw [later] at others
                    exact List.forall_mem_cons.mpr ⟨first, others⟩

theorem decodeSnapshot_legible (file : List UInt8)
    : ∀ entry ∈ (decodeSnapshot file).1, entry.Legible := by
  rw [decodeSnapshot]
  split
  · simp
  · split
    · simp
    · next reader _ _ =>
        have legible := Reader.readEntries_legible (file.length + 1) reader
        split
        · next failed => rwa [failed] at legible
        · next finished => rwa [finished] at legible

-- Entries that do something

/-- No key has got lost, and no deadline has passed. -/
structure LogicalMap.Gains (before after : LogicalMap) (now : Int64) : Prop where
  unexpired : after.Unexpired now
  keeps : ∀ key ∈ before, key ∈ after

namespace LogicalMap

theorem Gains.refl (unexpired : map.Unexpired nowMs) : map.Gains map nowMs :=
  ⟨unexpired, fun _ member => member⟩

theorem Gains.trans {first second third : LogicalMap} (early : first.Gains second nowMs)
    (late : second.Gains third nowMs)
    : first.Gains third nowMs :=
  ⟨late.unexpired, fun key member => late.keeps key (early.keeps key member)⟩

theorem Gains.insert (unexpired : map.Unexpired nowMs) {binding : Binding}
    (ahead : binding.isExpired nowMs = false)
    : map.Gains (map.insert key binding) nowMs :=
  ⟨unexpired.insert ahead, fun _ member => Finmap.mem_insert.mpr (.inr member)⟩

theorem setDeadline_gains (unexpired : map.Unexpired nowMs) {expireAt : Int64}
    (ahead : nowMs < expireAt) (key : CString)
    : map.Gains (LogicalMap.setDeadline map key expireAt) nowMs := by
  refine ⟨unexpired.setDeadline (.inr ahead), fun other member => ?_⟩
  rw [LogicalMap.setDeadline]
  split
  · exact Finmap.mem_insert.mpr (.inr member)
  · exact member

end LogicalMap

/-- Applying the record to an unlimited map without passed deadlines keeps all keys, and this one
is bound afterwards.
-/
def Record.Adds (record : Record) (key : CString) (now : Int64) : Prop :=
  ∀ map : LogicalMap, map.Unexpired now →
    map.Gains (record.apply 0 now map) now ∧ key ∈ record.apply 0 now map

/-- A record adds its key if it creates it where it is missing, and otherwise changes at most the
content under it.
-/
theorem Record.adds_of {record : Record} {now : Int64}
    (created : ∀ map : LogicalMap, map.lookup key = none →
      ∃ content, record.apply 0 now map = map.insert key ⟨content, 0⟩)
    (rewritten : ∀ (map : LogicalMap) (content : Content) (expireAt : Int64),
      map.Unexpired now → map.lookup key = some ⟨content, expireAt⟩ →
        record.apply 0 now map = map
          ∨ ∃ content, record.apply 0 now map = map.insert key ⟨content, expireAt⟩)
    : record.Adds key now := by
  intro map unexpired
  cases found : map.lookup key with
  | none =>
      obtain ⟨content, inserted⟩ := created map found
      rw [inserted]
      exact ⟨.insert unexpired (Binding.isExpired_of_deadline (.inl rfl)),
        Finmap.mem_insert.mpr (.inl rfl)⟩
  | some binding =>
      obtain ⟨content, expireAt⟩ := binding
      rcases rewritten map content expireAt unexpired found with same | ⟨other, inserted⟩
      · rw [same]
        exact ⟨.refl unexpired, Finmap.mem_iff.mpr ⟨_, found⟩⟩
      · rw [inserted]
        exact ⟨.insert unexpired (unexpired key ⟨content, expireAt⟩ found),
          Finmap.mem_insert.mpr (.inl rfl)⟩

theorem Record.set_adds (key value : CString) (now : Int64)
    : (Record.set key value).Adds key now := by
  refine Record.adds_of (fun map unbound => ⟨_, apply_set_new now value unbound⟩) ?_
  intro map content expireAt unexpired found
  simp only [Record.apply, LogicalMap.set, found]
  cases content with
  | string old => exact .inr ⟨_, rfl⟩
  | _ => exact .inl rfl

theorem Record.lpush_adds (key : CString) (now : Int64) (value : CString)
    : (Record.lpush key value).Adds key now := by
  refine Record.adds_of
    (fun map unbound => ⟨_, applyRecords_lpush now (List.cons_ne_nil value []) unbound⟩) ?_
  intro map content expireAt unexpired found
  simp only [Record.apply, LogicalMap.lpush, unexpired.expire (Int64.le_refl now), found]
  cases content with
  | list items => exact .inr ⟨_, rfl⟩
  | _ => exact .inl rfl

theorem Record.sadd_adds (key : CString) (now : Int64) (value : CString)
    : (Record.sadd key value).Adds key now := by
  refine Record.adds_of
    (fun map unbound => ⟨_, applyRecords_sadd now (List.cons_ne_nil value []) unbound⟩) ?_
  intro map content expireAt unexpired found
  simp only [Record.apply, LogicalMap.sadd, unexpired.expire (Int64.le_refl now), found]
  cases content with
  | set members =>
      simp only
      split
      · exact .inl rfl
      · exact .inr ⟨_, rfl⟩
  | _ => exact .inl rfl

/-- Elements, by induction on them. -/
theorem applyRecords_gains {record : CString → Record}
    (adds : ∀ value, (record value).Adds key nowMs) (unexpired : map.Unexpired nowMs)
    (values : List CString)
    : map.Gains (applyRecords 0 nowMs (values.map record) map) nowMs
      ∧ (values ≠ [] → key ∈ applyRecords 0 nowMs (values.map record) map) := by
  induction values generalizing map with
  | nil => exact ⟨.refl unexpired, fun some => absurd rfl some⟩
  | cons value rest ih =>
      obtain ⟨gains, bound⟩ := adds value map unexpired
      have later := (ih gains.unexpired).1
      rw [List.map_cons, applyRecords_cons]
      exact ⟨gains.trans later, fun _ => later.keeps key bound⟩

theorem SavedEntry.isLive_deadline (live : entry.isLive nowMs = true)
    (some : entry.expireAt ≠ 0)
    : nowMs < Int64.ofNat entry.expireAt := by
  simpa [SavedEntry.isLive, some] using live

/-- A live entry with values is bound afterwards. -/
theorem SavedEntry.onMap_gains (legible : entry.Legible) (live : entry.isLive nowMs = true)
    (some : entry.values ≠ []) (unexpired : map.Unexpired nowMs)
    : map.Gains (entry.onMap false 0 nowMs map) nowMs
      ∧ entry.key ∈ entry.onMap false 0 nowMs map := by
  have container : ∀ {record : CString → Record},
      (∀ value, (record value).Adds entry.key nowMs) →
        map.Gains (entry.containerOnMap record 0 nowMs map) nowMs
          ∧ entry.key ∈ entry.containerOnMap record 0 nowMs map := by
    intro record adds
    obtain ⟨gains, bound⟩ := applyRecords_gains adds unexpired entry.values
    rw [SavedEntry.containerOnMap]
    split
    · next timed =>
        have later := LogicalMap.setDeadline_gains gains.unexpired
          (entry.isLive_deadline live timed.2.2) entry.key
        exact ⟨gains.trans later, later.keeps _ (bound some)⟩
    · exact ⟨gains, bound some⟩
  rcases legible.typed some with isString | isList | isSet
  · obtain ⟨value, rest, given⟩ := List.exists_cons_of_ne_nil some
    obtain ⟨gains, bound⟩ := Record.set_adds entry.key value nowMs map unexpired
    simp only [SavedEntry.onMap, isString, if_true, SavedEntry.stringOnMap, given, setOnMap,
      Bool.false_and, Bool.false_eq_true, if_false]
    split
    · next timed =>
        have later := LogicalMap.setDeadline_gains gains.unexpired
          (entry.isLive_deadline live timed.2) entry.key
        exact ⟨gains.trans later, later.keeps _ bound⟩
    · exact ⟨gains, bound⟩
  · simp only [SavedEntry.onMap, isList]
    exact container (Record.lpush_adds entry.key nowMs)
  · simp only [SavedEntry.onMap, isSet]
    exact container (Record.sadd_adds entry.key nowMs)

/-- Loading a decoded entry into a store without a log and without limits. -/
theorem SavedEntry.Legible.load_gains (legible : entry.Legible) (quiet : Quiet envs nowMs)
    (sound : store.Sound) (uncapped : store.table.maxCapacity = 0)
    (closed : store.aof.fp.isSome = false) (unexpired : store.table.logical.Unexpired nowMs)
    (nth : Nat)
    : ∃ map, store.Loads (entry.load nowMs envs store nth) map
        ∧ store.table.logical.Gains map nowMs
        ∧ (¬ entry.Inert nowMs → entry.key ∈ map) := by
  by_cases inert : entry.Inert nowMs
  · rw [inert.load sound.wellFormed]
    exact ⟨_, .refl sound.wellFormed, .refl unexpired, fun active => absurd inert active⟩
  · obtain ⟨some, live, validKey⟩ : entry.values ≠ [] ∧ entry.isLive nowMs = true
        ∧ ValidKey entry.key := by
      simpa [SavedEntry.Inert] using inert
    have loads := entry.handOver_loads quiet sound ⟨validKey, legible.values⟩ nth
    obtain ⟨gains, bound⟩ := entry.onMap_gains legible live some unexpired
    rw [uncapped, closed] at loads
    rw [SavedEntry.load, if_pos live]
    exact ⟨_, loads, gains, fun _ => bound⟩

/-- Every decoded entry that is not inert is bound in the end, by induction on the entries. -/
theorem loadAll_gains (quiet : Quiet envs nowMs) (sound : store.Sound)
    (uncapped : store.table.maxCapacity = 0) (closed : store.aof.fp.isSome = false)
    (unexpired : store.table.logical.Unexpired nowMs) {entries : List SavedEntry}
    (legible : ∀ entry ∈ entries, entry.Legible) (nth : Nat)
    : store.table.logical.Gains (loadAll nowMs envs entries store nth).table.logical nowMs
      ∧ ∀ entry ∈ entries, ¬ entry.Inert nowMs →
          entry.key ∈ (loadAll nowMs envs entries store nth).table.logical := by
  induction entries generalizing store nth with
  | nil => exact ⟨.refl unexpired, fun entry member => absurd member List.not_mem_nil⟩
  | cons entry rest ih =>
      -- Keys are never lost again: nothing expires, and the loader deletes nothing.
      obtain ⟨map, loads, gains, bound⟩ := (legible entry List.mem_cons_self).load_gains quiet
        sound uncapped closed unexpired (nth + 1)
      have logical := loads.table.logical
      obtain ⟨later, others⟩ := ih (loads.sound sound) (loads.table.maxCapacity.trans uncapped)
        (loads.isOpen.trans closed) (logical ▸ gains.unexpired)
        (fun other member => legible other (List.mem_cons_of_mem _ member))
        (nth + 1 + entry.values.length)
      rw [logical] at later
      rw [loadAll]
      refine ⟨gains.trans later, ?_⟩
      intro other member active
      rcases List.mem_cons.mp member with rfl | inRest
      · exact later.keeps _ (bound active)
      · exact others other inRest active

-- Failed loads

/-- A file whose failed load leaves the logical map of every store alone is one that cannot
fail, or whose entries up to the failure are all without values, expired, or under an invalid
key.
Witness: any other entry is bound in an empty store, and stays bound whatever follows.
-/
theorem failed_load_keeps_map_iff (file : List UInt8) (nowMs : Int64)
    : (∀ (store : Store) (envs : Nat → CallEnv),
        store.table.WellFormed → BuffersAllocated envs →
          (kvLoadSnapshot store file nowMs envs).1 ≠ kvOk →
            (kvLoadSnapshot store file nowMs envs).2.table.logical = store.table.logical)
      ↔ (decodeSnapshot file).2 = true
        ∨ ∀ entry ∈ (decodeSnapshot file).1, entry.Inert nowMs := by
  refine ⟨fun keeps => ?_, ?_⟩
  · cases intact : (decodeSnapshot file).2 with
    | true => exact .inl rfl
    | false =>
        refine .inr (fun entry member => ?_)
        by_contra active
        -- An empty store without a log or limits refuses nothing, so the entry shows there.
        have quiet : Quiet (fun _ => .at nowMs) nowMs :=
          ⟨fun _ => CallEnv.clean_at nowMs, fun _ => rfl⟩
        have fresh := Store.fresh_wellFormed (by decide : 0 < 1) 0 0 0 []
        have empty := Store.fresh_logical 1 0 0 0 []
        have same := keeps (Store.fresh 1 0 0 0 []) (fun _ => .at nowMs) fresh quiet.allocated
        rw [kvLoadSnapshot_eq quiet.allocated, intact] at same
        have unchanged := same (by simp [kvErrIo, kvOk])
        have bound := (@loadAll_gains (Store.fresh 1 0 0 0 []) _ nowMs quiet ⟨fresh, rfl⟩ rfl rfl
          (empty ▸ .empty nowMs) _ (decodeSnapshot_legible file) 0).2 entry member active
        rw [unchanged, empty] at bound
        exact Finmap.notMem_empty bound
  · rintro (intact | inert) store envs wf allocated failed
    · rw [kvLoadSnapshot_eq allocated, intact] at failed
      exact absurd rfl failed
    · rw [kvLoadSnapshot_eq allocated, loadAll_inert inert wf]

/-- A file that breaks off behind an entry that expired at 5, loaded at 20. -/
theorem failed_load_keeps_map_iff_expired
    : let file := snapshotMagic
        ++ [5, 0, 0, 0, 0, 0, 0, 0, 1, 0, 0, 0, 107, 0, 1, 0, 0, 0, 97]
      let loaded := kvLoadSnapshot (Store.fresh 1 0 0 9 []) file 20 (fun _ => .at 20)
      loaded.1 = kvErrIo ∧ loaded.2.table.logical = (Store.fresh 1 0 0 9 []).table.logical := by
  refine ⟨by decide +kernel, ?_⟩
  refine (failed_load_keeps_map_iff _ 20).mpr (.inr ?_) (Store.fresh 1 0 0 9 []) (fun _ => .at 20)
    (Store.fresh_wellFormed (by decide) _ _ _ _) (fun _ => rfl) (by decide +kernel)
  have decoded : (decodeSnapshot (snapshotMagic
      ++ [5, 0, 0, 0, 0, 0, 0, 0, 1, 0, 0, 0, 107, 0, 1, 0, 0, 0, 97])).1
      = [⟨5, ⟨[107], by decide⟩, 0, [⟨[97], by decide⟩], true⟩] := by
    decide +kernel
  rw [decoded]
  exact List.forall_mem_singleton.mpr (.inr (.inl (by decide +kernel)))

/-- A file that breaks off behind an entry without a deadline: the load fails, and the entry is
there.
-/
theorem failed_load_binds_entry
    : let file := snapshotMagic
        ++ [0, 0, 0, 0, 0, 0, 0, 0, 1, 0, 0, 0, 107, 0, 1, 0, 0, 0, 97]
      let loaded := kvLoadSnapshot (Store.fresh 1 0 0 9 []) file 20 (fun _ => .at 20)
      loaded.1 = kvErrIo
        ∧ (Store.fresh 1 0 0 9 []).table.logical.lookup ⟨[107], by decide⟩ = none
        ∧ loaded.2.table.logical.lookup ⟨[107], by decide⟩
          = some ⟨.string ⟨[97], by decide⟩, 0⟩ := by
  decide +kernel

end MiniKv
