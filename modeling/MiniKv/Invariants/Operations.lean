import MiniKv.Invariants.Changes

/-! Every operation is a path of primitive changes, whatever the clock, the allocator, the file
system and the memory budget do, and stores only the value it is given. Hence every operation keeps
the representation invariant.
-/

namespace MiniKv

open MiniKv.Foundations.ChainedTable
open MiniKv.Foundations.DoublyLinked

variable {table : Table} {store : Store}

theorem Table.makeRoom_path (table : Table) (bytes : Nat)
    : table.Path (table.makeRoom bytes).2 :=
  (table.makeRoom_removals bytes).path

-- Strings

/-- Without a budget, a new string is linked as with every allocation at hand, or not at all. -/
theorem Table.insertString_unlimited (unlimited : table.maxMemoryBudget = 0) (key value : CString)
    (env : CallEnv) (now : Int64)
    : (table.insertString key value env = table.insertString key value (.at now)
        ∧ (table.insertString key value env).1 = kvOk)
      ∨ (table.insertString key value env).1 ≠ kvOk
        ∧ (table.insertString key value env).2 = table := by
  have room := Table.makeRoom_of_unlimited unlimited
  have all := (CallEnv.clean_at now).1
  simp only [Table.insertString, room, all, Bool.and_self, Bool.true_eq_false, if_false]
  split_ifs
  · exact .inr ⟨show kvErrCapacityFull ≠ kvOk by decide, rfl⟩
  · exact .inr ⟨show kvErrInternal ≠ kvOk by decide, rfl⟩
  · exact .inl ⟨rfl, rfl⟩

/-- The same for a string that may be there already. -/
theorem Table.storeString_unlimited (unlimited : table.maxMemoryBudget = 0) (key value : CString)
    (env : CallEnv) (now : Int64)
    : (table.storeString key value env = table.storeString key value (.at now)
        ∧ (table.storeString key value env).1 = kvOk)
      ∨ (table.storeString key value env).1 ≠ kvOk
        ∧ (table.storeString key value env).2 = table := by
  have room := Table.makeRoom_of_unlimited unlimited
  have all := (CallEnv.clean_at now).1
  rw [Table.storeString, Table.storeString]
  cases found : table.lookup key with
  | none => exact Table.insertString_unlimited unlimited key value env now
  | some entry =>
      simp only
      cases shown : entry.value with
      | string old =>
          simp only [room, ite_self, found, Bool.true_eq_false, if_false, Table.overwriteString,
            all]
          cases env.alloc .value with
          | false => exact .inr ⟨show kvErrInternal ≠ kvOk by decide, rfl⟩
          | true =>
              refine .inl ⟨rfl, ?_⟩
              simp only [Bool.true_eq_false, if_false]
              split_ifs <;> rfl
      | _ => exact .inr ⟨show kvErrWrongType ≠ kvOk by decide, rfl⟩

theorem Table.WellFormed.insertString (wf : table.WellFormed) {key value : CString}
    (absent : table.lookup key = none) (validKey : ValidKey key) (validValue : ValidValue value)
    (env : CallEnv)
    : table.Stores [value] (table.insertString key value env).2 := by
  generalize entryBytes : sizeofEntry + key.length + 1 + value.length + 1 = bytes
  have room := table.makeRoom_removals bytes
  simp only [Table.insertString, entryBytes]
  split
  · exact .refl _ table
  · next notFull =>
      split
      · exact room.stores
      · next made =>
          split
          · exact room.stores
          · have valid : (Payload.string value).WellFormed := validValue
            have bytesExact : bytes
                = sizeofEntry + (key.length + 1) + (Payload.string value).footprint := by
              rw [Payload.footprint]
              omega
            exact room.stores.trans (.of_change (.insert (room.absent wf absent) validKey valid
              trivial bytesExact (List.Subset.refl _) (room.notFull (by simpa using notFull))
              (Table.makeRoom_fits made)))

/-- Overwriting a string charges or gives back the difference to the value that is there. -/
theorem Table.overwriteString_stores (wf : table.WellFormed) {key value old : CString}
    {entry : Entry} (found : table.lookup key = some entry) (isString : entry.value = .string old)
    (validValue : ValidValue value)
    (fits : 0 < value.length + 1 - (old.length + 1) →
      table.Fits (value.length + 1 - (old.length + 1)))
    (env : CallEnv)
    : table.Stores [value] (table.overwriteString key value (old.length + 1) env).2 := by
  have valid : (Payload.string value).WellFormed := validValue
  have written := wf.lookup_modifyEntry found (fun entry => { entry with value := .string value })
    (fun _ => rfl)
  have footprint : entry.value.footprint = old.length + 1 := by
    rw [isString, Payload.footprint]
  have values : (Payload.string value).values ⊆ entry.value.values ++ [value] :=
    List.subset_append_right _ _
  simp only [Table.overwriteString]
  split
  · exact .refl _ table
  · split
    · next longer =>
        have grown : Table.Change [value] table 0 ((table.setPayload key (.string value)).charge
            (value.length + 1 - (old.length + 1))) := by
          refine .grow found ⟨valid, fun _ => trivial, ?_, values⟩ (fits (by omega))
          rw [footprint, Payload.footprint]
          omega
        exact (Table.Stores.of_change grown).trans
          (.of_change (@Table.Change.access _ ((table.setPayload key _).charge _) _ _ written))
    · next shorter =>
        have shrunk : Table.Change [value] table (old.length + 1 - (value.length + 1))
            ((table.setPayload key (.string value)).refund
              (old.length + 1 - (value.length + 1))) := by
          refine .shrink found valid (fun _ => trivial) ?_ values
          rw [footprint, Payload.footprint]
          omega
        exact (Table.Stores.of_change shrunk).trans
          (.of_change (@Table.Change.access _ ((table.setPayload key _).refund _) _ _ written))

theorem Table.WellFormed.storeString (wf : table.WellFormed) {key value : CString}
    (validKey : ValidKey key) (validValue : ValidValue value) (env : CallEnv)
    : table.Stores [value] (table.storeString key value env).2 := by
  simp only [Table.storeString]
  split
  · next absent => exact wf.insertString absent validKey validValue env
  · next existing present =>
      split
      · next old isString =>
          generalize delta : value.length + 1 - (old.length + 1) = bytes
          generalize made : (if 0 < bytes then table.makeRoom bytes else (true, table)) = room
          have removals : Table.Removals (fun _ => True) table room.2 := by
            rw [← made]
            split
            · exact table.makeRoom_removals bytes
            · exact .refl _ _
          have kept := removals.path.keeps wf
          split
          · exact removals.stores
          · next enough =>
              split
              · next entry found =>
                  -- Evicting other entries in between leaves this one as it was.
                  have same := removals.lookup wf found
                  rw [present, Option.some.injEq] at same
                  refine removals.stores.trans (Table.overwriteString_stores kept.wellFormed found
                    (same ▸ isString) validValue ?_ env)
                  intro positive
                  rw [delta] at positive ⊢
                  rw [if_pos positive] at made
                  subst made
                  exact Table.makeRoom_fits enough
              · next absent =>
                  exact removals.stores.trans
                    (kept.wellFormed.insertString absent validKey validValue env)
      · exact .refl _ table

theorem kvSetInternal_stores (wf : store.table.WellFormed) (key value : Option CString)
    (env : CallEnv)
    : store.table.Stores value.toList (kvSetInternal store key value env).2.table := by
  simp only [kvSetInternal]
  split
  · exact .refl _ _
  · next validKey checkedKey =>
      split
      · exact .refl _ _
      · next checkedValue =>
          obtain ⟨rfl, validValue⟩ := validateValue_eq_ok.mp checkedValue
          have stored := wf.storeString (validateKey_eq_ok.mp checkedKey).2 validValue env
          split
          · exact stored
          · exact stored

theorem kvSet_stores (wf : store.table.WellFormed) (key value : Option CString) (env : CallEnv)
    : store.table.Stores value.toList (kvSet store key value env).2.table := by
  simp only [kvSet]
  split
  · exact .refl _ _
  · split
    · exact .refl _ _
    · have grown : store.table.Stores value.toList (store.table.growIfLoaded env) :=
        (store.table.growIfLoaded_stores env).of_nil
      have grownWf := (wf.growIfLoaded env).wellFormed
      have applied : ∀ aof : Aof, store.table.Stores value.toList
          (kvSetInternal { table := store.table.growIfLoaded env, aof } key value env).2.table :=
        fun aof => grown.trans (@kvSetInternal_stores { table := store.table.growIfLoaded env, aof }
          grownWf key value env)
      split
      · exact applied _
      · split
        · exact grown
        · split
          · exact applied _
          · exact applied _

/-- A lookup followed by marking the access, as the readers do it. -/
theorem Table.WellFormed.find_touch_quiet (wf : table.WellFormed) {key : CString} {now : Int64}
    {entry : Entry} (found : (table.findEntryUnlocked key now).1 = some entry)
    : table.QuietPath ((table.findEntryUnlocked key now).2.touch key) := by
  have same := (wf.findEntry key now).2
  exact (table.find_quiet key now).trans (Table.QuietPath.access (same.trans found))

/-- `kv_get` returns the string under the key, unless it has expired. -/
theorem kvGet_fst (store : Store) (key : CString) (env : CallEnv)
    : (kvGet store (some key) env).1
      = ((store.table.lookup key).filter (fun entry => !entryIsExpired entry env.now)).bind
          (fun entry => entry.value.content.text) := by
  rw [← Table.findEntry_fst]
  simp only [kvGet]
  cases (store.table.findEntryUnlocked key env.now).1 with
  | none => rfl
  | some entry =>
      obtain ⟨entryKey, payload, deadline, used⟩ := entry
      cases payload with
      | _ => rfl

theorem kvGet_quiet (wf : store.table.WellFormed) (key : Option CString) (env : CallEnv)
    : store.table.QuietPath (kvGet store key env).2.table := by
  simp only [kvGet]
  split
  · exact .refl _
  · split
    · next found => exact wf.find_touch_quiet found
    · exact store.table.find_quiet _ _

theorem kvDeleteInternal_quiet (store : Store) (key : Option CString) (env : CallEnv) (nth : Nat)
    : store.table.QuietPath (kvDeleteInternal store key env nth).2.table := by
  simp only [kvDeleteInternal]
  split
  · exact .refl _
  · split
    · exact .refl _
    · next deleted =>
        obtain ⟨cursor, met, rfl⟩ := Option.map_eq_some_iff.mp deleted
        exact Table.expireAndDelete_quiet met

theorem kvDelete_quiet (store : Store) (key : Option CString) (env : CallEnv)
    : store.table.QuietPath (kvDelete store key env).2.table := by
  simp only [kvDelete]
  split
  · exact .refl _
  · split
    · exact kvDeleteInternal_quiet store key env 0
    · have applied : ∀ aof : Aof, store.table.QuietPath
          (kvDeleteInternal { store with aof } key env 0).2.table :=
        fun aof => kvDeleteInternal_quiet { store with aof } key env 0
      split
      · exact .refl _
      · split
        · exact applied _
        · exact applied _

theorem kvExists_quiet (store : Store) (key : Option CString) (env : CallEnv)
    : store.table.QuietPath (kvExists store key env).2.table := by
  simp only [kvExists]
  split
  · exact .refl _
  · exact store.table.find_quiet _ _

-- Containers

theorem Table.WellFormed.openContainer (wf : table.WellFormed) {key : CString}
    (validKey : ValidKey key) (wanted : Payload → Bool) {fresh : Payload}
    (valid : fresh.WellFormed) (sized : fresh.Sized) {overhead : Nat}
    (bytesExact : overhead = sizeofEntry + (key.length + 1) + fresh.footprint)
    (empty : fresh.values = []) (sites : List AllocSite) (env : CallEnv)
    : table.Stores [] (table.openContainer key wanted fresh overhead sites env).2 := by
  have looked : table.Stores [] _ := (table.find_quiet key env.now).stores
  have same := (wf.findEntry key env.now).2
  simp only [Table.openContainer]
  split
  · next found =>
      split
      · exact (wf.find_touch_quiet found).stores
      · exact looked
  · next absent =>
      have room := (table.findEntryUnlocked key env.now).2.makeRoom_removals overhead
      split
      · exact looked
      · next notFull =>
          split
          · exact looked.trans room.stores
          · next made =>
              split
              · exact looked.trans room.stores
              · exact (looked.trans room.stores).trans (.of_change (.insert
                  (room.absent (looked.keeps wf).wellFormed (same.trans absent)) validKey valid
                  sized bytesExact (List.subset_nil.mpr empty)
                  (room.notFull (by simpa using notFull)) (Table.makeRoom_fits made)))

/-- A container that was found or created is there, with the wanted type; it is not expired and was
used last.
-/
theorem Table.WellFormed.openContainer_lookup (wf : table.WellFormed) {key : CString}
    (validKey : ValidKey key) {wanted : Payload → Bool} {fresh : Payload}
    (valid : fresh.WellFormed) (isWanted : wanted fresh = true) {overhead : Nat}
    {sites : List AllocSite} {env : CallEnv}
    (opened : (table.openContainer key wanted fresh overhead sites env).1 = .ok ())
    : ∃ entry, (table.openContainer key wanted fresh overhead sites env).2.lookup key
          = some entry
        ∧ wanted entry.value = true
        ∧ entryIsExpired entry env.now = false
        ∧ entry.lastAccessedTime
          = (table.openContainer key wanted fresh overhead sites env).2.lruClock := by
  have looked := ((table.find_quiet key env.now).keeps wf).wellFormed
  have same := (wf.findEntry key env.now).2
  simp only [Table.openContainer] at opened ⊢
  cases found : (table.findEntryUnlocked key env.now).1 with
  | some entry =>
      simp only [found] at opened ⊢
      split_ifs at opened ⊢ with hasType
      have live := Table.findEntry_live found
      exact ⟨_, looked.lookup_modifyEntry (same.trans found) _ (fun _ => rfl), hasType, live, rfl⟩
  | none =>
      simp only [found] at opened ⊢
      split_ifs at opened ⊢
      have room := (table.findEntryUnlocked key env.now).2.makeRoom_removals overhead
      have roomWf := (room.path.keeps looked).wellFormed
      exact ⟨_, roomWf.lookup_insertEntry (room.absent looked (same.trans found)) validKey valid _,
        isWanted, rfl, rfl⟩

/-- A container that is not opened is reported with a negative code. -/
theorem Table.openContainer_error {key : CString} {wanted : Payload → Bool} {fresh : Payload}
    {overhead : Nat} {sites : List AllocSite} {env : CallEnv} {err : Int}
    (failed : (table.openContainer key wanted fresh overhead sites env).1 = .error err)
    : err < 0 := by
  simp only [Table.openContainer] at failed
  split at failed
  · split_ifs at failed
    exact Except.error.inj failed ▸ (by decide)
  · split_ifs at failed <;> exact Except.error.inj failed ▸ (by decide)

/-- A container that was found has the elements it had, and a created one is empty. -/
theorem Table.WellFormed.openContainer_value (wf : table.WellFormed) {key : CString}
    (validKey : ValidKey key) {wanted : Payload → Bool} {fresh : Payload}
    (valid : fresh.WellFormed) {overhead : Nat} {sites : List AllocSite} {env : CallEnv}
    (opened : (table.openContainer key wanted fresh overhead sites env).1 = .ok ())
    {entry : Entry}
    (found : (table.openContainer key wanted fresh overhead sites env).2.lookup key = some entry)
    : entry.value = fresh ∨ ∃ old, table.lookup key = some old ∧ entry.value = old.value := by
  have looked := ((table.find_quiet key env.now).keeps wf).wellFormed
  have same := (wf.findEntry key env.now).2
  simp only [Table.openContainer] at opened found
  cases sought : (table.findEntryUnlocked key env.now).1 with
  | some old =>
      simp only [sought] at opened found
      split_ifs at opened found with hasType
      have touched := looked.lookup_modifyEntry (same.trans sought)
        (fun old => { old with lastAccessedTime :=
          (table.findEntryUnlocked key env.now).2.lruClock + 1 }) (fun _ => rfl)
      obtain rfl := Option.some.inj (found.symm.trans touched)
      exact .inr ⟨old, Table.lookup_of_findEntry sought, rfl⟩
  | none =>
      simp only [sought] at opened found
      split_ifs at opened found
      have room := (table.findEntryUnlocked key env.now).2.makeRoom_removals overhead
      have roomWf := (room.path.keeps looked).wellFormed
      have inserted := roomWf.lookup_insertEntry (room.absent looked (same.trans sought)) validKey
        valid overhead
      obtain rfl := Option.some.inj (found.symm.trans inserted)
      exact .inl rfl

/-- Linking a node is a path when `link` adds a node of that size to the payload that the key
shows.
-/
theorem Table.WellFormed.linkNode (wf : table.WellFormed) {key : CString} (nodeOverhead : Nat)
    {link : Payload → Option (Payload × Int)} {stored : List CString} (env : CallEnv)
    (links : ∀ entry : Entry, table.lookup key = some entry → entry.value.WellFormed →
      ∀ linked ∈ link entry.value, entry.value.Grows stored linked.1 nodeOverhead)
    : table.Stores stored (table.linkNode key nodeOverhead link env).2 := by
  have room := table.makeRoom_removals nodeOverhead
  have kept := room.path.keeps wf
  simp only [Table.linkNode]
  split
  · exact room.stores
  · next made =>
      split
      · exact room.stores
      · split
        · next payload result linked =>
            obtain ⟨entry, found, makes⟩ := Option.bind_eq_some_iff.mp linked
            have grows := links entry (room.lookup wf found)
              (kept.wellFormed.value_of_lookup found) (payload, result) makes
            exact room.stores.trans
              (.of_change (.grow found grows (Table.makeRoom_fits made)))
        · exact room.stores

/-- The bytes of an entry with an empty list. -/
theorem emptyList_bytes (key : CString)
    : sizeofEntry + key.length + 1 + sizeofList
      = sizeofEntry + (key.length + 1) + (Payload.list DList.empty).footprint := by
  simp only [Payload.footprint, toList_empty, List.map_nil, List.sum_nil]
  omega

/-- The bytes of an entry with an empty set. -/
theorem emptySet_bytes (key : CString)
    : sizeofEntry + key.length + 1 + sizeofSet + initialSetBuckets * sizeofPointer
      = sizeofEntry + (key.length + 1) + (Payload.set KvSet.empty).footprint := by
  simp only [Payload.footprint, members_empty, List.map_nil, List.sum_nil]
  omega

theorem sized_emptySet : (Payload.set KvSet.empty).Sized := by
  simp [Payload.Sized, KvSet.bucketCount, KvSet.empty]

theorem Table.WellFormed.openList (wf : table.WellFormed) {key : CString}
    (validKey : ValidKey key) (env : CallEnv)
    : table.Stores [] (table.openContainer key Payload.isList (.list DList.empty)
        (sizeofEntry + key.length + 1 + sizeofList) [.entry, .key, .list] env).2 :=
  wf.openContainer validKey Payload.isList
    (show (Payload.list DList.empty).WellFormed from listWellFormed_empty) trivial
    (emptyList_bytes key) rfl [.entry, .key, .list] env

theorem Table.WellFormed.openSet (wf : table.WellFormed) {key : CString}
    (validKey : ValidKey key) (env : CallEnv)
    : table.Stores [] (table.openContainer key Payload.isSet (.set KvSet.empty)
        (sizeofEntry + key.length + 1 + sizeofSet + initialSetBuckets * sizeofPointer)
        [.entry, .key, .set, .setBuckets] env).2 :=
  wf.openContainer validKey Payload.isSet
    (show (Payload.set KvSet.empty).WellFormed from setWellFormed_empty) sized_emptySet
    (emptySet_bytes key) members_empty [.entry, .key, .set, .setBuckets] env

theorem Table.WellFormed.lpush (wf : table.WellFormed) {key value : CString}
    (validKey : ValidKey key) (validValue : ValidValue value) (env : CallEnv)
    : table.Stores [value] (table.lpush key value env).2 := by
  have opened := wf.openList validKey env
  simp only [Table.lpush]
  split
  · exact opened.of_nil
  · refine opened.of_nil.trans ((opened.keeps wf).wellFormed.linkNode _ env ?_)
    intro entry _ valid linked made
    cases payload : entry.value with
    | list links =>
        rw [payload] at made valid
        obtain rfl := Option.some.inj made
        exact ⟨(ListWellFormed.pushFront valid validValue).1, fun _ => trivial,
          ListWellFormed.footprint_pushFront valid validValue,
          ListWellFormed.values_pushFront valid validValue⟩
    | _ => simp [payload, pushFrontPayload] at made

/-- A push checks its arguments and then changes the table. -/
theorem kvLpush_eq (store : Store) (key value : CString) (env : CallEnv)
    : (∃ err, err < 0 ∧ ¬ (ValidKey key ∧ ValidValue value)
        ∧ kvLpush store (some key) (some value) env = (some err, store))
      ∨ ValidKey key ∧ ValidValue value
        ∧ (kvLpush store (some key) (some value) env).1
          = (store.table.lpush key value env).1.reply
        ∧ (kvLpush store (some key) (some value) env).2.table
          = (store.table.lpush key value env).2 := by
  rcases validate_cases key value with
    ⟨err, negative, invalid, refused | ⟨accepted, refused⟩⟩
      | ⟨validKey, validValue, accepted, acceptedValue⟩
  · exact .inl ⟨err, negative, invalid, by simp only [kvLpush, refused]⟩
  · exact .inl ⟨err, negative, invalid, by simp only [kvLpush, accepted, refused]⟩
  · refine .inr ⟨validKey, validValue, ?_⟩
    simp only [kvLpush, accepted, acceptedValue]
    split
    · next linked => simp [linked, Linking.reply]
    · exact ⟨rfl, rfl⟩

theorem kvLpush_stores (wf : store.table.WellFormed) (key value : Option CString)
    (env : CallEnv)
    : store.table.Stores value.toList (kvLpush store key value env).2.table := by
  cases key with
  | none => exact .refl _ _
  | some key =>
      cases value with
      | none => exact .refl _ _
      | some value =>
          rcases kvLpush_eq store key value env with
            ⟨_, _, _, refused⟩ | ⟨validKey, validValue, _, pushed⟩
          · rw [refused]
            exact .refl _ _
          · rw [pushed]
            exact wf.lpush validKey validValue env

theorem kvRpop_quiet (wf : store.table.WellFormed) (key : Option CString) (env : CallEnv)
    : store.table.QuietPath (kvRpop store key env).2.table := by
  simp only [kvRpop]
  split
  · exact .refl _
  · next key =>
      have looked := store.table.find_quiet key env.now
      have lookedWf := (looked.keeps wf).wellFormed
      split
      · exact looked
      · next entry found =>
          have inTable := (wf.findEntry key env.now).2.trans found
          have valid := lookedWf.value_of_lookup inTable
          split
          · next links payload =>
              rw [payload] at valid
              split
              · exact looked
              · next last rest popped =>
                  split
                  · exact looked
                  · split
                    · exact looked
                    · obtain ⟨restValid, bytes⟩ := ListWellFormed.footprint_popBack valid popped
                      have shrunk := looked.trans (Table.QuietPath.shrink inTable
                        (show (Payload.list rest).WellFormed from restValid) (fun _ => trivial)
                        (payload ▸ bytes) (payload ▸ ListWellFormed.values_popBack valid popped))
                      split
                      · exact shrunk.trans (kvDeleteInternal_quiet ⟨_, _⟩ _ env 3)
                      · have again := lookedWf.lookup_modifyEntry inTable
                          (fun entry => { entry with value := .list rest }) (fun _ => rfl)
                        exact shrunk.trans
                          (@Table.QuietPath.access ((Table.setPayload _ key _).refund _) _ _
                            again)
          · exact looked

theorem kvLlen_quiet (wf : store.table.WellFormed) (key : Option CString) (env : CallEnv)
    : store.table.QuietPath (kvLlen store key env).2.table := by
  simp only [kvLlen]
  split
  · exact .refl _
  · split
    · exact store.table.find_quiet _ _
    · next found => exact wf.find_touch_quiet found
    · exact store.table.find_quiet _ _

theorem Table.WellFormed.sadd (wf : table.WellFormed) {key value : CString}
    (validKey : ValidKey key) (validValue : ValidValue value) (env : CallEnv)
    : table.Stores [value] (table.sadd key value env).2 := by
  have openedWf := ((wf.openSet validKey env).keeps wf).wellFormed
  have opened : table.Stores [value] _ := (wf.openSet validKey env).of_nil
  simp only [Table.sadd]
  split
  · exact opened
  · split
    · next set _ _ found =>
        have valid := openedWf.value_of_lookup found
        split
        · exact opened
        · next missing =>
            have absent : value ∉ set.members :=
              fun member => missing (KvSet.WellFormed.contains_iff valid |>.mpr member)
            refine opened.trans (openedWf.linkNode _ env ?_)
            intro entry here _ linked made
            rw [found, Option.some.injEq] at here
            subst here
            obtain rfl := Option.some.inj made
            exact ⟨(KvSet.WellFormed.add valid validValue absent).1, KvSet.sized_add value,
              KvSet.WellFormed.footprint_add valid absent,
              KvSet.WellFormed.values_add valid absent⟩
    · exact opened

/-- An add checks its arguments and then changes the table. -/
theorem kvSadd_eq (store : Store) (key value : CString) (env : CallEnv)
    : (∃ err, err < 0 ∧ ¬ (ValidKey key ∧ ValidValue value)
        ∧ kvSadd store (some key) (some value) env = (some err, store))
      ∨ ValidKey key ∧ ValidValue value
        ∧ (kvSadd store (some key) (some value) env).1
          = (store.table.sadd key value env).1.reply
        ∧ (kvSadd store (some key) (some value) env).2.table
          = (store.table.sadd key value env).2 := by
  rcases validate_cases key value with
    ⟨err, negative, invalid, refused | ⟨accepted, refused⟩⟩
      | ⟨validKey, validValue, accepted, acceptedValue⟩
  · exact .inl ⟨err, negative, invalid, by simp only [kvSadd, refused]⟩
  · exact .inl ⟨err, negative, invalid, by simp only [kvSadd, accepted, refused]⟩
  · refine .inr ⟨validKey, validValue, ?_⟩
    simp only [kvSadd, accepted, acceptedValue]
    split
    · next linked => simp [linked, Linking.reply]
    · exact ⟨rfl, rfl⟩

theorem kvSadd_stores (wf : store.table.WellFormed) (key value : Option CString)
    (env : CallEnv)
    : store.table.Stores value.toList (kvSadd store key value env).2.table := by
  cases key with
  | none => exact .refl _ _
  | some key =>
      cases value with
      | none => exact .refl _ _
      | some value =>
          rcases kvSadd_eq store key value env with
            ⟨_, _, _, refused⟩ | ⟨validKey, validValue, _, added⟩
          · rw [refused]
            exact .refl _ _
          · rw [added]
            exact wf.sadd validKey validValue env

theorem kvSrem_quiet (wf : store.table.WellFormed) (key value : Option CString) (env : CallEnv)
    : store.table.QuietPath (kvSrem store key value env).2.table := by
  simp only [kvSrem]
  split
  · exact .refl _
  · exact .refl _
  · next key value =>
      have looked := store.table.find_quiet key env.now
      have lookedWf := (looked.keeps wf).wellFormed
      split
      · exact looked
      · next entry found =>
          have inTable := (wf.findEntry key env.now).2.trans found
          have valid := lookedWf.value_of_lookup inTable
          split
          · next chains payload =>
              rw [payload] at valid
              split
              · exact looked
              · split
                · next contained =>
                    have present := (KvSet.WellFormed.contains_iff valid).mp contained
                    have shrunk := looked.trans (Table.QuietPath.shrink inTable
                      (show (Payload.set (chains.remove value)).WellFormed from
                        (KvSet.WellFormed.remove valid present).1)
                      (payload ▸ KvSet.sized_remove value)
                      (payload ▸ KvSet.WellFormed.footprint_remove valid present)
                      (payload ▸ KvSet.WellFormed.values_remove valid present))
                    split
                    · exact shrunk.trans (kvDeleteInternal_quiet ⟨_, _⟩ _ env 5)
                    · have again := lookedWf.lookup_modifyEntry inTable
                        (fun entry => { entry with value := .set (chains.remove value) })
                        (fun _ => rfl)
                      exact shrunk.trans
                        (@Table.QuietPath.access ((Table.setPayload _ key _).refund _) _ _
                          again)
                · exact looked
          · exact looked

theorem kvScard_quiet (wf : store.table.WellFormed) (key : Option CString) (env : CallEnv)
    : store.table.QuietPath (kvScard store key env).2.table := by
  simp only [kvScard]
  split
  · exact .refl _
  · split
    · exact store.table.find_quiet _ _
    · next found => exact wf.find_touch_quiet found
    · exact store.table.find_quiet _ _

theorem kvSmembers_quiet (wf : store.table.WellFormed) (key : Option CString) (env : CallEnv)
    : store.table.QuietPath (kvSmembers store key env).2.table := by
  simp only [kvSmembers]
  split
  · exact .refl _
  · split
    · next found =>
        split
        · exact store.table.find_quiet _ _
        · split
          · exact store.table.find_quiet _ _
          · exact wf.find_touch_quiet found
    · exact store.table.find_quiet _ _

-- Deadlines

/-- Writing a deadline through the entry pointer, whether or not the key is there. -/
theorem Table.WellFormed.setDeadline (wf : table.WellFormed) (key : CString)
    (expireAtMs : Int64)
    : table.Becomes (table.modifyEntry key (fun entry => { entry with expireAtMs }))
        (LogicalMap.setDeadline table.logical key expireAtMs) := by
  have shown := wf.logical_lookup key
  cases found : table.lookup key with
  | none =>
      rw [found, Option.map_none] at shown
      rw [Table.modifyEntry_of_lookup_none found, LogicalMap.setDeadline, shown]
      exact .refl wf
  | some entry =>
      rw [found, Option.map_some] at shown
      rw [LogicalMap.setDeadline, shown]
      exact wf.modifyEntry found _ (fun _ => rfl) rfl
        (wf.entries entry (mem_of_lookup found).1).value

theorem kvPexpireat_quiet (store : Store) (key : Option CString) (unixMs : Int64) (env : CallEnv)
    : store.table.QuietPath (kvPexpireat store key unixMs env).2.table := by
  simp only [kvPexpireat]
  split
  · exact .refl _
  · next key =>
      have looked := store.table.find_quiet key env.now
      split
      · exact looked
      · exact looked.trans (Table.setDeadline_quiet _ key unixMs)

theorem kvPttl_quiet (store : Store) (key : Option CString) (env : CallEnv)
    : store.table.QuietPath (kvPttl store key env).2.table := by
  simp only [kvPttl]
  split
  · exact .refl _
  · split
    · exact store.table.find_quiet _ _
    · split
      · exact store.table.find_quiet _ _
      · exact store.table.find_quiet _ _

theorem kvTtl_quiet (store : Store) (key : Option CString) (env : CallEnv)
    : store.table.QuietPath (kvTtl store key env).2.table := by
  simp only [kvTtl]
  split
  · exact kvPttl_quiet store key env
  · exact kvPttl_quiet store key env

theorem kvPersist_quiet (store : Store) (key : Option CString) (env : CallEnv)
    : store.table.QuietPath (kvPersist store key env).2.table := by
  simp only [kvPersist]
  split
  · exact .refl _
  · next key =>
      have looked := store.table.find_quiet key env.now
      split
      · exact looked
      · split
        · exact looked
        · exact looked.trans (Table.setDeadline_quiet _ key 0)

end MiniKv
