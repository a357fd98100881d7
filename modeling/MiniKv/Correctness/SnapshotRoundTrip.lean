import MiniKv.Correctness.RecordCodec
import MiniKv.Refinement.FileFailures
import MiniKv.Refinement.SnapshotCodec
import MiniKv.Refinement.SnapshotLoad

/-! Saving and loading: the file a store was saved to gives an empty store the entries that are
still live.
-/

namespace MiniKv

open MiniKv.Foundations.FiniteMaps

variable {store target : Store} {map : LogicalMap} {envs : Nat → CallEnv}
  {saveTime loadTime : Int64} {entry : Entry}

/-- The deadline of a saved entry is the one it was saved with. -/
theorem Entry.saved_deadline (entry : Entry)
    : Int64.ofNat entry.saved.expireAt = entry.expireAtMs :=
  ofNat_toUInt64 entry.expireAtMs

theorem Entry.saved_persistent (entry : Entry)
    : entry.saved.expireAt = 0 ↔ entry.expireAtMs = 0 := by
  refine ⟨fun none => ?_, fun none => ?_⟩
  · rw [← entry.saved_deadline, none]
    rfl
  · simp only [Entry.saved, none]
    rfl

/-- Writer and reader agree on what is expired. -/
theorem Entry.saved_isLive (entry : Entry) (nowMs : Int64)
    : entry.saved.isLive nowMs = entry.isSaved nowMs := by
  simp only [SavedEntry.isLive, Entry.isSaved, entry.saved_deadline, entry.saved_persistent]

/-- The deadline is set behind the value. -/
theorem Entry.saved_setDeadline (entry : Entry) (content : Content) (map : LogicalMap)
    : (if entry.saved.expireAt ≠ 0 then
        LogicalMap.setDeadline (map.insert entry.key ⟨content, 0⟩) entry.key
          (Int64.ofNat entry.saved.expireAt)
      else map.insert entry.key ⟨content, 0⟩)
      = map.insert entry.key ⟨content, entry.expireAtMs⟩ := by
  rw [entry.saved_deadline]
  split
  · simp only [LogicalMap.setDeadline, Finmap.lookup_insert, Finmap.insert_insert]
  · next none => rw [entry.saved_persistent.mp (not_not.mp none)]

/-- A string is set by a command of its own, which a log that is open has to have room for. -/
def Content.lands (logging : Bool) (key : CString) : Content → Bool
  | .string value => !(logging && !(Record.set key value).fits)
  | _ => true

/-- A saved entry, handed to a map without its key, is bound there unless the log refuses it. -/
theorem Entry.Dumpable.saved_onMap (dumpable : entry.Dumpable) (logging : Bool) (nowMs : Int64)
    (unbound : map.lookup entry.key = none)
    : entry.saved.onMap logging 0 nowMs map
      = if entry.binding.content.lands logging entry.key then
          map.insert entry.key entry.binding
        else map := by
  have rebuilt := dumpable.applyRecords_value nowMs unbound
  have some := dumpable.values_ne_nil
  rw [Entry.binding, ← entry.saved_setDeadline, ← rebuilt]
  obtain ⟨key, payload, expireAtMs, time⟩ := entry
  cases payload with
  | string value =>
      have accepted : (LogicalMap.set map 0 key value).reply = .status kvOk := by
        simp only [LogicalMap.set, unbound, LogicalMap.full_zero]
        rfl
      cases refuses : logging && !(Record.set key value).fits with
      | false =>
          simp only [Entry.saved, SavedEntry.onMap, SavedEntry.stringOnMap, Payload.values,
            Payload.typeByte, setOnMap, Payload.content, Content.lands, refuses, accepted,
            Bool.false_eq_true, if_false, Bool.not_false, if_true, true_and]
          rfl
      | true =>
          simp only [Entry.saved, SavedEntry.onMap, SavedEntry.stringOnMap, Payload.values,
            Payload.typeByte, setOnMap, Payload.content, Content.lands, refuses, Outcome.silent,
            Reply.status.injEq, show ¬ kvErrIo = kvOk by decide, Bool.false_eq_true, if_false,
            Bool.not_true, if_true, false_and]
  | _ =>
      simp only [Entry.saved, SavedEntry.onMap, SavedEntry.containerOnMap, Payload.typeByte, some,
        ne_eq, not_false_eq_true, true_and]
      rfl

theorem Entry.Dumpable.saved_valid (dumpable : entry.Dumpable) : entry.saved.Valid :=
  ⟨dumpable.wellFormed.key, dumpable.wellFormed.value.values_valid⟩

/-- The entries that a load at a time binds. -/
def Entry.isLoaded (logging : Bool) (nowMs : Int64) (entry : Entry) : Bool :=
  entry.isSaved nowMs && entry.binding.content.lands logging entry.key

/-- Saved entries with distinct keys are bound unless they are expired or refused, by induction on
them.
-/
theorem loadAll_saved (quiet : Quiet envs loadTime) (sound : target.Sound)
    (uncapped : target.table.maxCapacity = 0) {entries : List Entry}
    (dumpable : ∀ entry ∈ entries, entry.Dumpable) (distinct : (entries.map Entry.key).Nodup)
    (unbound : ∀ entry ∈ entries, target.table.logical.lookup entry.key = none) (nth : Nat)
    : target.Loads (loadAll loadTime envs (entries.map Entry.saved) target nth)
        ((entries.filter (Entry.isLoaded target.aof.fp.isSome loadTime)).foldl
          (fun map entry => map.insert entry.key entry.binding) target.table.logical) := by
  induction entries generalizing target nth with
  | nil => exact .refl sound.wellFormed
  | cons entry rest ih =>
      rw [List.map_cons, List.nodup_cons] at distinct
      have thisDumpable := dumpable entry List.mem_cons_self
      have thisUnbound := unbound entry List.mem_cons_self
      have first : target.Loads (entry.saved.load loadTime envs target (nth + 1))
          (if entry.isLoaded target.aof.fp.isSome loadTime then
            target.table.logical.insert entry.key entry.binding
          else target.table.logical) := by
        rw [SavedEntry.load, entry.saved_isLive, Entry.isLoaded]
        cases entry.isSaved loadTime with
        | true =>
            have handed := entry.saved.handOver_loads quiet sound thisDumpable.saved_valid (nth + 1)
            rwa [uncapped, thisDumpable.saved_onMap _ loadTime thisUnbound] at handed
        | false => exact .refl sound.wellFormed
      -- Keys are distinct, so the entries to come still find their keys unbound.
      have stillUnbound : ∀ other ∈ rest, (entry.saved.load loadTime envs target
          (nth + 1)).table.logical.lookup other.key = none := by
        intro other member
        have before := unbound other (List.mem_cons_of_mem _ member)
        have different : other.key ≠ entry.key :=
          fun same => distinct.1 (same ▸ List.mem_map_of_mem member)
        rw [first.table.logical]
        split
        · rw [Finmap.lookup_insert_of_ne _ different, before]
        · exact before
      have others := ih (first.sound sound) (first.table.maxCapacity.trans uncapped)
        (fun other member => dumpable other (List.mem_cons_of_mem _ member))
        distinct.2 stillUnbound (nth + 1 + entry.saved.values.length)
      rw [first.table.logical, first.isOpen] at others
      have whole := first.trans others
      rw [List.map_cons, loadAll, List.filter_cons]
      split at whole
      · next saved => rwa [if_pos saved, List.foldl_cons]
      · next saved => rwa [if_neg saved]

/-- The number of elements of a list or a set. -/
def Content.elementCount : Content → Nat
  | .string _ => 0
  | .list items => items.length
  | .set members => members.card

theorem Entry.WellFormed.savable (wf : entry.WellFormed)
    (small : entry.binding.content.elementCount < 2 ^ 32) (deadline : 0 ≤ entry.expireAtMs)
    : entry.Savable := by
  obtain ⟨validKey, valid⟩ := wf
  refine ⟨⟨validKey, valid⟩, ?_, deadline⟩
  obtain ⟨key, payload, expireAtMs, time⟩ := entry
  cases payload with
  | string value =>
      simp only [Payload.values, List.length_singleton]
      decide
  | list links =>
      rw [Payload.values, (ListWellFormed.links valid).toListBackward_eq, List.length_reverse]
      exact small
  | set chains =>
      have counted : chains.members.toFinset.card = chains.members.length :=
        List.toFinset_card_of_nodup (KvSet.WellFormed.nodup valid)
      rw [Payload.values, ← counted]
      exact small

theorem Entry.Dumpable.savable (dumpable : entry.Dumpable)
    (small : entry.binding.content.elementCount < 2 ^ 32)
    : entry.Savable := by
  refine dumpable.wellFormed.savable small ?_
  rcases dumpable.deadline with none | positive
  · rw [none]
    exact Int64.le_refl 0
  · exact Int64.le_of_lt positive

/-- Whoever is live at the load time was live when it was saved. -/
theorem Entry.isSaved_of_le (ordered : saveTime ≤ loadTime)
    (live : entry.isSaved loadTime = true)
    : entry.isSaved saveTime = true := by
  simp only [Entry.isSaved, Bool.or_eq_true, decide_eq_true_eq] at live ⊢
  exact live.imp_right (Int64.lt_of_le_of_lt ordered)

/-- A table is saved and loaded into an empty store without limits: the store binds the entries
that are live at the load time and that its log does not refuse, as long as the writer has not
left one of them out.
-/
theorem Table.WellFormed.load_saved {table : Table} (wf : table.WellFormed)
    (occupied : table.logical.Occupied)
    (deadlines : Each (fun binding => binding.expireAt = 0 ∨ 0 < binding.expireAt) table.logical)
    (small : Each (fun binding => binding.content.elementCount < 2 ^ 32) table.logical)
    (kept : ∀ entry ∈ table.entries,
      entry.isSaved loadTime = true → entry.isSaved saveTime = true)
    (sound : target.Sound) (uncapped : target.table.maxCapacity = 0)
    (empty : target.table.logical = ∅) (quiet : Quiet envs loadTime)
    : ∃ loaded, kvLoadSnapshot target (kvSaveInternalUnlocked table saveTime) loadTime envs
          = (kvOk, loaded)
        ∧ target.Loads loaded loaded.table.logical
        ∧ ∀ key, loaded.table.logical.lookup key
          = (table.logical.lookup key).filter
              (fun binding => (binding.expireAt = 0 || loadTime < binding.expireAt)
                && binding.content.lands target.aof.fp.isSome key) := by
  have dumpable := wf.dumpable occupied deadlines
  have decoded := @decodeSnapshot_save table saveTime (fun entry member _ =>
    (dumpable entry member).savable (small _ _ (wf.logical_of_mem member)))
  have distinct : ∀ keep, ((table.entries.filter keep).map Entry.key).Nodup :=
    fun keep => wf.placed.distinct.sublist (List.filter_sublist.map Entry.key)
  have loads := loadAll_saved quiet sound uncapped
    (fun entry member => dumpable entry (List.mem_of_mem_filter member))
    (distinct (Entry.isSaved saveTime)) (by simp [empty]) 0
  have liveOnly : (table.entries.filter (Entry.isSaved saveTime)).filter
        (Entry.isLoaded target.aof.fp.isSome loadTime)
      = table.entries.filter (Entry.isLoaded target.aof.fp.isSome loadTime) := by
    rw [List.filter_filter]
    refine List.filter_congr fun entry member => ?_
    rw [Bool.and_eq_left_iff_imp]
    exact fun loaded => kept entry member (Bool.and_eq_true_iff.mp loaded).1
  rw [liveOnly, empty, foldl_insert_eq_tabulate (distinct _)] at loads
  rw [kvLoadSnapshot_eq quiet.allocated, decoded]
  refine ⟨_, rfl, loads.table.logical ▸ loads, ?_⟩
  intro key
  rw [loads.table.logical]
  exact lookup_tabulate_filter wf.placed.distinct
    (fun key (binding : Binding) => (binding.expireAt = 0 || loadTime < binding.expireAt)
      && binding.content.lands target.aof.fp.isSome key) key

/-- A lookup keeps a binding by one test and by two exactly if the second one holds whenever the
first one does.
-/
theorem filter_and_eq_iff {α : Type} {found : Option α} (first second : α → Bool)
    : found.filter (fun binding => first binding && second binding) = found.filter first
      ↔ ∀ binding, found = some binding → first binding = true → second binding = true := by
  cases found with
  | none => simp
  | some binding =>
      cases holds : first binding <;> cases also : second binding <;>
        simp [Option.filter, holds, also]

/-- Loading the file a store was saved to into an empty store without limits succeeds. It gives
exactly the entries without a deadline and those whose deadline lies behind the load time, each with
its content and its deadline, if and only if no log is open in the loading store or the log has
room for the record of every string among them.
Witness: the file spells the live entries, none of them empty, and handing an entry to a map
without its key binds it unless the log refuses it.
-/
theorem load_of_save_iff (reachable : store.Reachable CallEnv.Allocates)
    (deadlines : Each (fun binding => binding.expireAt = 0 ∨ 0 < binding.expireAt)
      store.table.logical)
    (small : Each (fun binding => binding.content.elementCount < 2 ^ 32) store.table.logical)
    (ordered : saveTime ≤ loadTime) (sound : target.Sound)
    (uncapped : target.table.maxCapacity = 0) (empty : target.table.logical = ∅)
    (quiet : Quiet envs loadTime)
    : ∃ loaded, kvLoadSnapshot target (kvSaveInternalUnlocked store.table saveTime) loadTime envs
          = (kvOk, loaded)
        ∧ ((∀ key, loaded.table.logical.lookup key
            = (store.table.logical.lookup key).filter
                (fun binding => binding.expireAt = 0 || loadTime < binding.expireAt))
          ↔ target.aof.fp = none
            ∨ ∀ key value expireAt,
                store.table.logical.lookup key = some ⟨.string value, expireAt⟩ →
                expireAt = 0 ∨ loadTime < expireAt →
                  (Record.set key value).bytes.length < aofRecordBufSize) := by
  have steady := reachable.steady
  obtain ⟨loaded, loads, _, shows⟩ := steady.sound.wellFormed.load_saved steady.occupied deadlines
    small (fun _ _ => Entry.isSaved_of_le ordered) sound uncapped empty quiet
  refine ⟨loaded, loads, ?_⟩
  simp only [shows, filter_and_eq_iff]
  cases target.aof.fp with
  | none =>
      refine iff_of_true (fun key binding _ _ => ?_) (.inl rfl)
      cases h : binding.content with
      | _ => rfl
  | some written =>
      simp only [reduceCtorEq, false_or]
      constructor
      · intro landed key value expireAt held live
        simpa [Content.lands, Record.fits] using landed key _ held (by simpa using live)
      · rintro fit key ⟨content, expireAt⟩ held live
        cases content with
        | string value =>
            have short := fit key value expireAt held (by simpa using live)
            simpa [Content.lands, Record.fits] using short
        | _ => rfl

/-- A list, a string that is expired when it is loaded, and one that is not, without a log. -/
theorem load_of_save_expired
    : ∃ start, kvInitFull 2 0 0 none [] 7 (.at 0) (fun _ => .at 0) = .ok start
        ∧ let saved := (start.run
            [⟨.op (.lpush (some ⟨[107], by decide⟩) (some ⟨[97], by decide⟩)), .at 1, 0⟩,
              ⟨.op (.lpush (some ⟨[107], by decide⟩) (some ⟨[98], by decide⟩)), .at 2, 0⟩,
              ⟨.op (.set (some ⟨[108], by decide⟩) (some ⟨[97], by decide⟩)), .at 3, 0⟩,
              ⟨.op (.pexpireat (some ⟨[108], by decide⟩) 10), .at 3, 0⟩,
              ⟨.op (.set (some ⟨[109], by decide⟩) (some ⟨[97], by decide⟩)), .at 4, 0⟩,
              ⟨.op (.pexpireat (some ⟨[109], by decide⟩) 900), .at 4, 0⟩]).2
          ∃ loaded, kvLoadSnapshot (Store.fresh 1 0 0 9 []) (kvSaveInternalUnlocked saved.table 5)
                20 (fun _ => .at 20)
              = (kvOk, loaded)
            ∧ loaded.table.logical.lookup ⟨[107], by decide⟩
              = some ⟨.list [⟨[98], by decide⟩, ⟨[97], by decide⟩], 0⟩
            ∧ loaded.table.logical.lookup ⟨[108], by decide⟩ = none
            ∧ loaded.table.logical.lookup ⟨[109], by decide⟩
              = some ⟨.string ⟨[97], by decide⟩, 900⟩ := by
  refine ⟨_, rfl, ?_⟩
  intro saved
  obtain ⟨loaded, loads, iff⟩ := @load_of_save_iff saved (Store.fresh 1 0 0 9 [])
    (fun _ => .at 20) 5 20
    ⟨2, 0, none, [], 7, .at 0, fun _ => .at 0, _, _, rfl, fun _ _ => rfl,
      by simp [Action.keepsUnlimited, CallEnv.Allocates, CallEnv.at], rfl⟩
    (Each.tabulate (by decide +kernel)) (Each.tabulate (by decide +kernel)) (by decide)
    ⟨Store.fresh_wellFormed (by decide) _ _ _ _, rfl⟩ rfl rfl
    ⟨fun _ => CallEnv.clean_at 20, fun _ => rfl⟩
  have shows := iff.mpr (.inl rfl)
  refine ⟨loaded, loads, ?_, ?_, ?_⟩
  · rw [shows]
    decide +kernel
  · rw [shows]
    decide +kernel
  · rw [shows]
    decide +kernel

/-- A value of 4089 bytes, accepted by a store without a log, is saved, and a store with a log
loads the file without it.
-/
theorem load_of_save_drops
    : let key : CString := ⟨[107], by decide⟩
      let long : CString := CString.ofBuffer (List.replicate 4089 97)
      ∃ start target,
        kvInitFull 1 0 0 none [] 7 (.at 0) (fun _ => .at 0) = .ok start
        ∧ kvInitFull 1 0 0 (some ⟨[108], by decide⟩) [] 7 (.at 0) (fun _ => .at 0) = .ok target
        ∧ ∃ saved, kvSet start (some key) (some long) (.at 1) = (kvOk, saved)
          ∧ saved.table.logical.lookup key = some ⟨.string long, 0⟩
          ∧ ∃ loaded,
              kvLoadSnapshot target (kvSaveInternalUnlocked saved.table 2) 3 (fun _ => .at 3)
                = (kvOk, loaded)
              ∧ loaded.table.logical.lookup key = none := by
  intro key long
  have validKey : ValidKey key :=
    ⟨by decide, by decide, List.forall_mem_singleton.mpr (by decide)⟩
  have length : long.length = 4089 := CString.length_ofBuffer_replicate (by decide) 4089
  have refused : (Content.string long).lands true key = false := by
    rw [Content.lands, Record.fits, Record.length_bytes rfl, length]
    decide
  clear_value long
  -- In memory the value is set, so it is in the file.
  let start := Store.fresh 1 0 0 7 []
  have startSound : start.Sound := ⟨Store.fresh_wellFormed (by decide) 0 0 7 [], rfl⟩
  have set : setOnMap start.aof.fp.isSome start.table.maxCapacity start.table.logical key long
      = .recorded (.status kvOk) (Finmap.insert key ⟨.string long, 0⟩ ∅) (.set key long) := by
    rw [Store.fresh_logical]
    rfl
  obtain ⟨accepted, stores⟩ := kvSet_loads startSound (CallEnv.clean_at 1) validKey
    (length.trans_le (by decide))
  rw [set] at accepted stores
  have logical := stores.table.logical
  have held : (kvSet start (some key) (some long) (.at 1)).2.table.logical.lookup key
      = some ⟨.string long, 0⟩ := by
    rw [logical]
    exact Finmap.lookup_insert ∅
  obtain ⟨target, opens, blank⟩ := @kvInitFull_blank 1 (by decide) 0 ⟨[108], by decide⟩ 7 _
    (CallEnv.clean_at 0) (fun _ => .at 0)
  refine ⟨start, target, rfl, opens, _, Prod.ext (Reply.status.inj accepted) rfl, held, ?_⟩
  -- The log of the loading store has no room for the record.
  have each : ∀ {Property : Binding → Prop}, Property ⟨.string long, 0⟩ →
      Each Property (kvSet start (some key) (some long) (.at 1)).2.table.logical := by
    intro Property holds
    rw [logical]
    exact Each.empty.insert holds
  obtain ⟨loaded, loads, _, shows⟩ := (stores.sound startSound).wellFormed.load_saved
    (each trivial) (each (.inl rfl)) (each (show 0 < 2 ^ 32 by decide))
    (fun _ _ => @Entry.isSaved_of_le 2 3 _ (by decide)) ⟨blank.wellFormed, blank.unlimited⟩
    blank.maxCapacity blank.logical ⟨fun _ => CallEnv.clean_at 3, fun _ => rfl⟩
  refine ⟨loaded, loads, ?_⟩
  rw [shows, held, blank.atStart, Option.isSome_some, Option.filter_some, refused, Bool.and_false]
  rfl

end MiniKv
