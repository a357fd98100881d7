import MiniKv.Correctness.ReplicationStream
import MiniKv.Correctness.SnapshotRoundTrip
import MiniKv.Correctness.TornLog
import MiniKv.Refinement.ReplicaStream

/-! Updates during the SYNC handshake. The snapshot has what was there at the fork, and the stream
has what is broadcast once the socket is in the list of replicas; a call in between reaches neither.
-/

namespace MiniKv

open MiniKv.Foundations.FiniteMaps

variable {store : Store} {map base : LogicalMap} {env : CallEnv} {record : Record}
  {records : List Record} {mutation : Mutation} {handshake : Handshake} {event : SyncEvent}

-- A call on the master

def Mutation.toRecord : Mutation → Record
  | .set key value => .set key value
  | .delete key => .delete key

theorem Mutation.toRecord_isReplicated (mutation : Mutation)
    : mutation.toRecord.isReplicated = true := by
  cases mutation <;> rfl

/-- The call gets as far as its record: the arguments are valid and the record is not too long. -/
def Mutation.isPublished (mutation : Mutation) : Bool :=
  mutation.check.isOk && mutation.toRecord.fits

/-- With an open log, a record is broadcast whether or not the mutation succeeds. -/
theorem Mutation.call_published (mutation : Mutation) (env : CallEnv)
    (opened : store.aof.fp ≠ none)
    : (mutation.call env store).2.aof.broadcasts = store.aof.broadcasts
        ++ if mutation.isPublished then [mutation.toRecord.bytes] else [] := by
  rw [mutation.call_eq]
  cases checked : mutation.check with
  | error err => simp [Mutation.isPublished, checked, Except.isOk, Except.toBool]
  | ok _ =>
      have written : (store.aof.writeAofRecord mutation.record env.io).2.2.broadcasts
          = store.aof.broadcasts
            ++ if mutation.isPublished then [mutation.toRecord.bytes] else [] := by
        have sent : mutation.record = mutation.toRecord.bytes := by cases mutation <;> rfl
        rw [sent, Aof.writeAofRecord_broadcasts]
        simp [publication, Mutation.isPublished, checked, Except.isOk, Except.toBool, Record.fits]
      have appends := @Mutation.append_opened (mutation.prepare env store) mutation env
        (mutation.prepare_aof env store ▸ opened)
      simp only [appends, mutation.prepare_aof]
      split
      · exact written
      · split
        · rw [(mutation.apply_stream env _).2.2]
          exact written
        · rw [Store.rollback, Aof.rollbackAofRecord_broadcasts, (mutation.apply_stream env _).2.2]
          exact written

/-- What a call does on a master without a budget whose log is open, when nothing fails. -/
theorem Mutation.call_master (mutation : Mutation) (sound : store.Sound)
    (opened : store.aof.fp.isSome = true) (clean : env.Clean)
    : store.table.Becomes (mutation.call env store).2.table
        (if mutation.isPublished then
          mutation.toRecord.apply store.table.maxCapacity env.now store.table.logical
        else store.table.logical)
      ∧ (mutation.call env store).2.aof.fp.isSome = true := by
  cases mutation with
  | set key value =>
      have isMatch := kvSet_matches sound.wellFormed sound.unlimited clean (some key) (some value)
      refine ⟨?_, isMatch.aof.isOpen.trans opened⟩
      have becomes := isMatch.table
      rw [opened, Op.outcome] at becomes
      refine becomes.cast ?_
      rcases validate_cases key value with
        ⟨err, _, _, refused | ⟨accepted, refused⟩⟩ | ⟨validKey, validValue, accepted⟩
      · simp [Mutation.isPublished, Mutation.check, refused, Except.isOk, Except.toBool,
          Outcome.silent]
      · simp [Mutation.isPublished, Mutation.check, accepted, refused, Except.isOk, Except.toBool,
          Except.map, Outcome.silent]
      · simp only [Mutation.isPublished, Mutation.check, accepted, Except.isOk, Except.toBool,
          Except.map, Mutation.toRecord, Record.apply]
        cases (Record.set key value).fits <;> rfl
  | delete key =>
      have isMatch := kvDelete_matches sound.wellFormed clean (some key)
      refine ⟨?_, isMatch.aof.isOpen.trans opened⟩
      have becomes := isMatch.table
      rw [Op.outcome] at becomes
      refine becomes.cast ?_
      cases checked : validateKey (some key) with
      | error err =>
          simp [Mutation.isPublished, Mutation.check, checked, Except.isOk, Except.toBool,
            Outcome.silent]
      | ok valid =>
          obtain ⟨same, validKey⟩ := validateKey_eq_ok.mp checked
          obtain rfl := Option.some.inj same
          have fits : (Record.delete key).fits = true := decide_eq_true (delete_fits validKey)
          simp [Mutation.isPublished, Mutation.check, checked, Except.isOk, Except.toBool, fits,
            Mutation.toRecord, Record.apply]

/-- The record does on a replica without limits what the call does on the master: the replica sees
the value as one line, and the master does not refuse the key.
-/
def Mutation.Travels (mutation : Mutation) (table : Table) : Prop :=
  match mutation with
  | .set key value =>
      lf ∉ value.bytes ∧ (table.lookup key = none → table.atCapacity = false)
  | .delete _ => True

theorem Mutation.Travels.oneLine {table : Table} (travels : mutation.Travels table)
    (published : mutation.isPublished = true)
    : mutation.toRecord.OneLine := by
  rw [Mutation.isPublished, Bool.and_eq_true] at published
  have checked : mutation.check = .ok () := by
    cases checked : mutation.check with
    | error err => simp [checked, Except.isOk, Except.toBool] at published
    | ok _ => rfl
  obtain ⟨record, stands, _, valid⟩ := mutation.op_record 0
  cases mutation with
  | set key value =>
      obtain rfl := Option.some.inj stands
      exact ⟨valid checked, fun _ held => Option.some.inj held ▸ travels.1⟩
  | delete key =>
      obtain rfl := Option.some.inj stands
      exact ⟨valid checked, fun _ held => absurd held (by simp [Mutation.toRecord, Record.value])⟩

theorem Mutation.Travels.apply_uncapped {table : Table} (travels : mutation.Travels table)
    (wf : table.WellFormed) (now later : Int64)
    : mutation.toRecord.apply table.maxCapacity now table.logical
      = mutation.toRecord.apply 0 later table.logical := by
  cases mutation with
  | delete key => rfl
  | set key value =>
      simp only [Mutation.toRecord, Record.apply, LogicalMap.set, wf.logical_lookup,
        LogicalMap.full_zero, wf.full_eq]
      cases found : table.lookup key with
      | none => rw [travels.2 found]
      | some entry =>
          rw [Option.map_some]
          generalize entry.binding = binding
          obtain ⟨content, expireAt⟩ := binding
          cases content <;> rfl

-- What is under way

/-- A snapshot has the whole binding: it is not an empty container, has no deadline, and its
elements can be counted in the file.
-/
def Binding.Shippable (binding : Binding) : Prop :=
  binding.content.Occupied ∧ binding.expireAt = 0 ∧ binding.content.elementCount < 2 ^ 32

theorem Record.apply_shippable (shippable : Each Binding.Shippable map)
    (replicated : record.isReplicated = true) (capacity : Nat) (now : Int64)
    : Each Binding.Shippable (record.apply capacity now map) := by
  have string : ∀ value, Binding.Shippable ⟨.string value, 0⟩ :=
    fun _ => ⟨trivial, rfl, show 0 < 2 ^ 32 by decide⟩
  cases record with
  | set key value =>
      simp only [Record.apply, LogicalMap.set]
      split
      · next expireAt found =>
          obtain rfl : expireAt = 0 := (shippable key _ found).2.1
          exact Each.insert shippable (string value)
      · exact shippable
      · split
        · exact shippable
        · exact Each.insert shippable (string value)
  | delete key =>
      simp only [Record.apply, LogicalMap.delete]
      split
      · exact Each.erase shippable
      · exact shippable
  | _ => contradiction

/-- A file that was saved from a table with a map. -/
def IsSnapshot (file : List UInt8) (map : LogicalMap) : Prop :=
  ∃ table now, file = kvSaveInternalUnlocked table now ∧ table.WellFormed ∧ table.logical = map
    ∧ Each Binding.Shippable map

/-- A replica that loads the file has the map. -/
theorem IsSnapshot.load {file : List UInt8} (isSnapshot : IsSnapshot file map) {target : Store}
    (sound : target.Sound) (uncapped : target.table.maxCapacity = 0)
    (empty : target.table.logical = ∅) (closed : target.aof.fp = none)
    {envs : Nat → CallEnv} {now : Int64} (quiet : Quiet envs now)
    : target.Loads (kvLoadSnapshot target file now envs).2 map := by
  obtain ⟨table, saveTime, rfl, wf, rfl, shippable⟩ := isSnapshot
  have persistent : ∀ entry ∈ table.entries, entry.isSaved saveTime = true := by
    intro entry member
    have none : entry.expireAtMs = 0 := (shippable _ _ (wf.logical_of_mem member)).2.1
    simp [Entry.isSaved, none]
  obtain ⟨loaded, loads, whole, shows⟩ := wf.load_saved
    (Each.imp shippable fun _ fine => fine.1) (Each.imp shippable fun _ fine => .inl fine.2.1)
    (Each.imp shippable fun _ fine => fine.2.2) (fun entry member _ => persistent entry member)
    sound uncapped empty quiet
  have same : loaded.table.logical = table.logical := by
    refine Finmap.ext_lookup fun key => ?_
    rw [shows]
    cases found : table.logical.lookup key with
    | none => rfl
    | some binding =>
        have landed : binding.content.lands false key = true := by
          cases binding.content with
          | _ => rfl
        simp [(shippable key binding found).2.1, closed, landed]
  rw [loads, ← same]
  exact whole

/-- Records on their way that take one map to another. -/
structure Leads (base : LogicalMap) (records : List Record) (map : LogicalMap) : Prop where
  oneLine : ∀ record ∈ records, record.OneLine
  replicated : ∀ record ∈ records, record.isReplicated = true
  fits : ∀ record ∈ records, record.fits = true
  target : applyRecords 0 0 records base = map

theorem Leads.refl (map : LogicalMap) : Leads map [] map := by
  constructor <;> simp [applyRecords]

theorem Leads.snoc (leads : Leads base records map) (oneLine : record.OneLine)
    (replicated : record.isReplicated = true) (fits : record.fits = true)
    : Leads base (records ++ [record]) (record.apply 0 0 map) := by
  refine ⟨?_, ?_, ?_, ?_⟩
  · simpa [or_imp, forall_and] using ⟨leads.oneLine, oneLine⟩
  · simpa [or_imp, forall_and] using ⟨leads.replicated, replicated⟩
  · simpa [or_imp, forall_and] using ⟨leads.fits, fits⟩
  · rw [applyRecords_append, leads.target, applyRecords_cons, applyRecords_nil]

/-- The first records are applied, the others are still on their way. -/
theorem Leads.drop {early later : List Record} (leads : Leads base (early ++ later) map)
    : Leads (applyRecords 0 0 early base) later map where
  oneLine := fun record member => leads.oneLine record (List.mem_append_right _ member)
  replicated := fun record member => leads.replicated record (List.mem_append_right _ member)
  fits := fun record member => leads.fits record (List.mem_append_right _ member)
  target := by rw [← applyRecords_append, leads.target]

/-- No record of the stream looks at the clock. -/
theorem applyRecords_replicated (replicated : ∀ record ∈ records, record.isReplicated = true)
    (capacity : Nat) (now later : Int64) (map : LogicalMap)
    : applyRecords capacity now records map = applyRecords capacity later records map := by
  induction records generalizing map with
  | nil => rw [applyRecords_nil, applyRecords_nil]
  | cons record rest ih =>
      have same : record.apply capacity now map = record.apply capacity later map := by
        have first := replicated record List.mem_cons_self
        cases record with
        | set key value => simp only [Record.apply]
        | delete key => simp only [Record.apply]
        | _ => contradiction
      rw [applyRecords_cons, applyRecords_cons, same]
      exact ih (fun other member => replicated other (List.mem_cons_of_mem _ member)) _

/-- Cutting a log anywhere: the records behind the whole ones are the torn tail and what is
behind the cut.
-/
theorem encode_behind (records : List Record) (cut : Nat)
    : ∃ later, records = wholeRecords records cut ++ later
        ∧ encode later = tornTail records cut ++ (encode records).drop cut := by
  obtain ⟨later, behind⟩ : ∃ later, records = wholeRecords records cut ++ later := by
    induction records generalizing cut with
    | nil => exact ⟨[], rfl⟩
    | cons record rest ih =>
        rw [wholeRecords]
        split
        · obtain ⟨later, behind⟩ := ih (cut - record.bytes.length)
          exact ⟨later, congrArg (record :: ·) behind⟩
        · exact ⟨record :: rest, rfl⟩
  refine ⟨later, behind, ?_⟩
  have whole := List.take_append_drop cut (encode records)
  have pieces : encode records = encode (wholeRecords records cut) ++ encode later := by
    rw [← encode_append, ← behind]
  rw [take_encode, List.append_assoc] at whole
  exact (List.append_cancel_left (whole.trans pieces)).symm

/-- A replica that will have loaded a map once the snapshot, if it waits for it, is loaded, and
to which the records are still to come.
-/
def Replica.Expects (replica : Replica) (snapshot : Option (List UInt8)) (stream : List UInt8)
    (base : LogicalMap) (records : List Record)
    : Prop :=
  match replica with
  | .waiting => (∃ file, snapshot = some file ∧ IsSnapshot file base) ∧ stream = encode records
  | .streaming store cmdbuf =>
      store.Sound ∧ store.table.maxCapacity = 0 ∧ store.table.logical = base
        ∧ lf ∉ cmdbuf ∧ cmdbuf ++ stream = encode records

theorem Replica.Expects.snoc {replica : Replica} {snapshot : Option (List UInt8)}
    {stream : List UInt8} (expects : replica.Expects snapshot stream base records)
    (record : Record)
    : replica.Expects snapshot (stream ++ record.bytes) base (records ++ [record]) := by
  have longer : encode (records ++ [record]) = encode records ++ record.bytes := by
    simp [encode]
  cases replica with
  | waiting => exact ⟨expects.1, by rw [longer, expects.2]⟩
  | streaming store cmdbuf =>
      obtain ⟨sound, uncapped, logical, noLf, text⟩ := expects
      exact ⟨sound, uncapped, logical, noLf, by rw [longer, ← text, List.append_assoc]⟩

/-- The master's map is what the replica has or loads, and the records that are under way. -/
def Handshake.InTransit (handshake : Handshake) : Prop :=
  ∃ base records, Leads base records handshake.master.table.logical
    ∧ handshake.replica.Expects handshake.snapshot handshake.stream base records

/-- Nothing is sent yet. -/
structure Handshake.Unserved (handshake : Handshake) : Prop where
  waiting : handshake.replica = .waiting
  unsent : handshake.snapshot = none
  silent : handshake.stream = []
  detached : handshake.attached = false

/-- The invariant of the handshake: until the file is sent it has the master's map. -/
structure Handshake.Consistent (handshake : Handshake) : Prop where
  sound : handshake.master.Sound
  opened : handshake.master.aof.fp.isSome = true
  shippable : Each Binding.Shippable handshake.master.table.logical
  served : match handshake.stage with
    | .idle => handshake.Unserved
    | .forked file | .waited file =>
        handshake.Unserved ∧ IsSnapshot file handshake.master.table.logical
    | .sent | .ended => handshake.InTransit

theorem Handshake.Consistent.withMaster (consistent : handshake.Consistent) {master : Store}
    (sound : master.Sound) (opened : master.aof.fp.isSome = true)
    (same : master.table.logical = handshake.master.table.logical)
    : Handshake.Consistent { handshake with master } := by
  obtain ⟨_, _, shippable, served⟩ := consistent
  refine ⟨sound, opened, same ▸ shippable, ?_⟩
  obtain ⟨_, replication, socketFd, stage, snapshot, stream, replica⟩ := handshake
  cases stage with
  | idle => exact ⟨served.1, served.2, served.3, served.4⟩
  | sent =>
      obtain ⟨base, records, leads, expects⟩ := served
      exact ⟨base, records, same ▸ leads, expects⟩
  | ended =>
      obtain ⟨base, records, leads, expects⟩ := served
      exact ⟨base, records, same ▸ leads, expects⟩
  | _ => exact ⟨⟨served.1.1, served.1.2, served.1.3, served.1.4⟩, same ▸ served.2⟩

/-- Once something is sent or attached, the snapshot is on its way. -/
theorem Handshake.Consistent.transit (consistent : handshake.Consistent)
    (started : ¬ handshake.Unserved)
    : (handshake.stage = .sent ∨ handshake.stage = .ended) ∧ handshake.InTransit := by
  have served := consistent.served
  cases stage : handshake.stage with
  | idle =>
      rw [stage] at served
      exact absurd served started
  | sent =>
      rw [stage] at served
      exact ⟨.inl rfl, served⟩
  | ended =>
      rw [stage] at served
      exact ⟨.inr rfl, served⟩
  | _ =>
      rw [stage] at served
      exact absurd served.1 started

theorem Handshake.Consistent.of_transit (sound : handshake.master.Sound)
    (opened : handshake.master.aof.fp.isSome = true)
    (shippable : Each Binding.Shippable handshake.master.table.logical)
    (stage : handshake.stage = .sent ∨ handshake.stage = .ended)
    (transit : handshake.InTransit)
    : handshake.Consistent := by
  refine ⟨sound, opened, shippable, ?_⟩
  rcases stage with sent | ended
  · rw [sent]
    exact transit
  · rw [ended]
    exact transit

-- Steps

/-- Nothing fails, and the event loses no update. Before the fork a call may do anything. Then,
until the socket is attached, its record has to be one that changes nothing; from then on the record
has to do the same on the replica.
-/
def SyncEvent.Admits (event : SyncEvent) (handshake : Handshake) : Prop :=
  match event with
  | .call mutation env =>
      env.Clean ∧ (mutation.isPublished = true →
        if handshake.attached then mutation.Travels handshake.master.table
        else handshake.stage = .idle
          ∨ mutation.toRecord.Redundant handshake.master.table.maxCapacity env.now
            handshake.master.table.logical)
  | .load _ _ now envs => Quiet envs now
  | .receive _ env => env.Clean
  | .fork _ _ | .wait | .send | .attach _ => True

theorem Handshake.step_call_stream (mutation : Mutation) (env : CallEnv)
    (opened : handshake.master.aof.fp.isSome = true)
    : (handshake.step (.call mutation env)).2
      = { handshake with
          master := (mutation.call env handshake.master).2
          stream := if handshake.attached && mutation.isPublished then
              handshake.stream ++ mutation.toRecord.bytes
            else handshake.stream } := by
  have broadcasts := mutation.call_published env (Option.isSome_iff_ne_none.mp opened)
  simp only [Handshake.step, broadcasts, List.drop_left]
  cases handshake.attached <;> cases mutation.isPublished <;> simp

theorem Handshake.Consistent.call (consistent : handshake.Consistent)
    (admits : (SyncEvent.call mutation env).Admits handshake)
    : (handshake.step (.call mutation env)).2.Consistent := by
  obtain ⟨clean, harmless⟩ := admits
  obtain ⟨becomes, opened⟩ := mutation.call_master consistent.sound consistent.opened clean
  have sound : (mutation.call env handshake.master).2.Sound :=
    ⟨becomes.wellFormed, becomes.maxMemoryBudget.trans consistent.sound.unlimited⟩
  have logical := becomes.logical
  rw [Handshake.step_call_stream mutation env consistent.opened]
  cases published : mutation.isPublished with
  | false =>
      simp only [Bool.and_false, Bool.false_eq_true, if_false]
      rw [published] at logical
      exact consistent.withMaster sound opened logical
  | true =>
      rw [published, if_pos rfl] at logical
      replace harmless := harmless published
      have shippable := Record.apply_shippable consistent.shippable
        mutation.toRecord_isReplicated handshake.master.table.maxCapacity env.now
      rw [← logical] at shippable
      cases attached : handshake.attached with
      | false =>
          simp only [attached, Bool.false_eq_true, if_false, Bool.false_and] at harmless ⊢
          rcases harmless with idle | redundant
          · have served := consistent.served
            rw [idle] at served
            refine ⟨sound, opened, shippable, ?_⟩
            simp only [idle]
            exact ⟨served.waiting, served.unsent, served.silent, served.detached⟩
          · rw [(Record.apply_eq_self_iff _ _ _ _).mpr redundant] at logical
            exact consistent.withMaster sound opened logical
      | true =>
          simp only [attached, if_true, Bool.and_self] at harmless ⊢
          have fits : mutation.toRecord.fits = true := by
            rw [Mutation.isPublished, Bool.and_eq_true] at published
            exact published.2
          rw [harmless.apply_uncapped consistent.sound.wellFormed env.now 0] at logical
          obtain ⟨stage, base, records, leads, expects⟩ := consistent.transit
            (fun unserved => by rw [unserved.detached] at attached; contradiction)
          have longer := leads.snoc (harmless.oneLine published) mutation.toRecord_isReplicated
            fits
          rw [← logical] at longer
          refine .of_transit sound opened shippable stage ⟨base, _, longer, ?_⟩
          exact expects.snoc _

theorem kvBgsave_keeps (store : Store) (pid : Int)
    : (kvBgsave store pid).2.table = store.table
      ∧ (kvBgsave store pid).2.aof.fp = store.aof.fp := by
  simp only [kvBgsave]
  split
  · exact ⟨rfl, rfl⟩
  · split <;> exact ⟨rfl, rfl⟩

/-- The steps of `replication_handle_sync` itself. -/
theorem Handshake.Consistent.serve (consistent : handshake.Consistent)
    (serving : (∃ pid now, event = .fork pid now) ∨ event = .wait ∨ event = .send
      ∨ ∃ allocated, event = .attach allocated)
    : (handshake.step event).2.Consistent := by
  have sound := consistent.sound
  have opened := consistent.opened
  have shippable := consistent.shippable
  have served := consistent.served
  obtain ⟨master, replication, socketFd, stage, snapshot, stream, replica⟩ := handshake
  rcases serving with ⟨pid, now, rfl⟩ | rfl | rfl | ⟨allocated, rfl⟩
  · cases stage with
    | idle =>
        obtain ⟨table, fp⟩ := kvBgsave_keeps master pid
        simp only [Handshake.step]
        split
        · exact consistent
        · refine ⟨⟨table ▸ sound.wellFormed, table ▸ sound.unlimited⟩, fp ▸ opened,
            table ▸ shippable, ⟨served.1, served.2, served.3, served.4⟩, ?_⟩
          exact ⟨master.table, now, rfl, sound.wellFormed, by rw [table], table ▸ shippable⟩
    | _ => exact consistent
  · cases stage with
    | forked file =>
        exact ⟨⟨sound.wellFormed, sound.unlimited⟩, opened, shippable,
          ⟨served.1.1, served.1.2, served.1.3, served.1.4⟩, served.2⟩
    | _ => exact consistent
  · cases stage with
    | waited file =>
        obtain ⟨⟨rfl, rfl, rfl, detached⟩, isSnapshot⟩ := served
        exact ⟨sound, opened, shippable, _, [], .refl _, ⟨file, rfl, isSnapshot⟩, rfl⟩
    | _ => exact consistent
  · cases stage with
    | sent => exact ⟨sound, opened, shippable, served⟩
    | _ => exact consistent

theorem Handshake.Consistent.load (consistent : handshake.Consistent) {envs : Nat → CallEnv}
    {now : Int64} (quiet : Quiet envs now) (prng : UInt32) (env : CallEnv)
    : (handshake.step (.load prng env now envs)).2.Consistent := by
  simp only [Handshake.step]
  split
  · next file target waiting received initialized =>
      obtain ⟨stage, base, records, leads, expects⟩ := consistent.transit
        (fun unserved => by rw [unserved.unsent] at received; contradiction)
      rw [waiting] at expects
      obtain ⟨⟨other, isSent, isSnapshot⟩, stream⟩ := expects
      obtain rfl := Option.some.inj (received.symm.trans isSent)
      have fresh : target = Store.fresh replicaBuckets 0 0 prng [] := by
        rcases (kvInitFull_ok initialized).2 with ⟨_, fresh⟩ | ⟨_, named, _⟩
        · exact fresh
        · contradiction
      subst fresh
      have sound := kvInitFull_sound initialized
      have loads := isSnapshot.load sound rfl (Store.fresh_logical _ _ _ _ _) rfl quiet
      exact .of_transit consistent.sound consistent.opened consistent.shippable stage
        ⟨base, records, leads, loads.sound sound, loads.table.maxCapacity, loads.table.logical,
          List.not_mem_nil, stream⟩
  · exact consistent

/-- However many bytes arrive, the complete records are applied. -/
theorem Handshake.Consistent.receive (consistent : handshake.Consistent) (clean : env.Clean)
    (count : Nat)
    : (handshake.step (.receive count env)).2.Consistent := by
  simp only [Handshake.step]
  split
  · exact consistent
  · next store cmdbuf streaming =>
      obtain ⟨stage, base, records, leads, expects⟩ := consistent.transit
        (fun unserved => by rw [unserved.waiting] at streaming; contradiction)
      rw [streaming] at expects
      obtain ⟨sound, uncapped, logical, _, text⟩ := expects
      generalize min count (cmdbufSize - cmdbuf.length - 1) = taken
      have read : cmdbuf ++ handshake.stream.take taken
          = (encode records).take (cmdbuf.length + taken) := by
        rw [← text, List.take_length_add_append]
      have unread : handshake.stream.drop taken
          = (encode records).drop (cmdbuf.length + taken) := by
        rw [← text, List.drop_length_add_append]
      obtain ⟨later, cut, behind⟩ := encode_behind records (cmdbuf.length + taken)
      obtain ⟨noLf, _⟩ := tornTail_line leads.oneLine (cmdbuf.length + taken)
      have inside := (wholeRecords_begins records (cmdbuf.length + taken)).subset
      have enough : (wholeRecords records (cmdbuf.length + taken)).length
          ≤ (cmdbuf ++ handshake.stream.take taken).length := by
        rw [read, take_encode, List.length_append]
        exact Nat.le_add_right_of_le (length_le_encode _)
      obtain ⟨after, applied, becomes⟩ := applyLines_encode sound clean
        (fun record member => leads.oneLine record (inside member))
        (fun record member => leads.replicated record (inside member)) noLf enough
      rw [← take_encode, ← read] at applied
      rw [uncapped, logical, applyRecords_replicated
        (fun record member => leads.replicated record (inside member)) 0 env.now 0]
        at becomes
      simp only [applied]
      rw [cut] at leads
      refine .of_transit consistent.sound consistent.opened consistent.shippable stage
        ⟨_, later, leads.drop, ⟨becomes.wellFormed, becomes.maxMemoryBudget.trans sound.unlimited⟩,
          becomes.maxCapacity.trans uncapped, becomes.logical, noLf, ?_⟩
      rw [unread, behind]

theorem Handshake.Consistent.step (consistent : handshake.Consistent)
    (admits : event.Admits handshake)
    : (handshake.step event).2.Consistent := by
  cases event with
  | call mutation env => exact consistent.call admits
  | load prng env now envs => exact consistent.load admits prng env
  | receive count env => exact consistent.receive admits count
  | fork pid now => exact consistent.serve (.inl ⟨pid, now, rfl⟩)
  | wait => exact consistent.serve (.inr (.inl rfl))
  | send => exact consistent.serve (.inr (.inr (.inl rfl)))
  | attach allocated => exact consistent.serve (.inr (.inr (.inr ⟨allocated, rfl⟩)))

-- Runs

/-- Every event along a run meets a handshake that admits it. -/
def Handshake.AdmitsAlong : Handshake → List SyncEvent → Prop
  | _, [] => True
  | handshake, event :: rest =>
      event.Admits handshake ∧ Handshake.AdmitsAlong (handshake.step event).2 rest

theorem Handshake.Consistent.run (consistent : handshake.Consistent) {events : List SyncEvent}
    (admits : handshake.AdmitsAlong events)
    : (handshake.run events).2.Consistent := by
  induction events generalizing handshake with
  | nil => exact consistent
  | cons event rest ih => exact ih (consistent.step admits.1) admits.2

/-- A replica that has read the whole stream has the master's map. -/
theorem Handshake.Consistent.caughtUp (consistent : handshake.Consistent) {cmdbuf : List UInt8}
    (streaming : handshake.replica = .streaming store cmdbuf) (read : handshake.stream = [])
    : store.table.logical = handshake.master.table.logical := by
  obtain ⟨_, base, records, leads, expects⟩ := consistent.transit
    (fun unserved => by rw [unserved.waiting] at streaming; contradiction)
  rw [streaming, read] at expects
  obtain ⟨_, _, logical, noLf, text⟩ := expects
  rw [List.append_nil] at text
  cases records with
  | nil => rw [logical, ← leads.target, applyRecords_nil]
  | cons record rest =>
      -- A record that is left would end in an LF.
      refine absurd ?_ noLf
      rw [text, encode, List.flatMap_cons, Record.bytes_eq]
      simp

/-- No record is longer than the buffer, so the replica can always read on. -/
theorem Handshake.Consistent.readsOn (consistent : handshake.Consistent) {cmdbuf : List UInt8}
    (streaming : handshake.replica = .streaming store cmdbuf) (unread : handshake.stream ≠ [])
    {count : Nat} (positive : 0 < count) (env : CallEnv)
    : (handshake.step (.receive count env)).2.stream.length < handshake.stream.length := by
  obtain ⟨_, base, records, leads, expects⟩ := consistent.transit
    (fun unserved => by rw [unserved.waiting] at streaming; contradiction)
  rw [streaming] at expects
  obtain ⟨_, _, _, noLf, text⟩ := expects
  have room : cmdbuf.length + 1 < cmdbufSize := by
    cases records with
    | nil => exact absurd (List.append_eq_nil_iff.mp text).2 unread
    | cons record rest =>
        have fits : record.bytes.length < aofRecordBufSize :=
          of_decide_eq_true (leads.fits record List.mem_cons_self)
        have size : record.bytes.length = record.body.length + 1 := by simp [Record.bytes_eq]
        have inLine : cmdbuf.length ≤ record.body.length := by
          by_contra longer
          have ends : (cmdbuf ++ handshake.stream)[record.body.length]? = some lf := by
            rw [text, encode, List.flatMap_cons, Record.bytes_eq]
            simp
          rw [List.getElem?_append_left (Nat.lt_of_not_le longer)] at ends
          exact noLf (List.mem_of_getElem? ends)
        rw [aofRecordBufSize, size] at fits
        rw [cmdbufSize]
        omega
  have some : 0 < handshake.stream.length := List.length_pos_iff.mpr unread
  simp only [Handshake.step, streaming, List.length_drop]
  omega

/-- No update is lost if none falls between the fork and the list of replicas: in any interleaving
of calls with the steps of the handshake, of the loading and of the receiving, a replica that has
read all that was sent has the map of the master, and until then it can read on.
Witness: the snapshot and the records under way always lead to the master's map.
-/
theorem sync_keeps_updates {master : Store} (sound : master.Sound) (opened : master.aof.fp ≠ none)
    (shippable : Each Binding.Shippable master.table.logical) {replication : Replication}
    {socketFd : Int} (fresh : socketFd ∉ replication.replicas) {events : List SyncEvent}
    (admits : (Handshake.start master replication socketFd).AdmitsAlong events)
    {cmdbuf : List UInt8}
    (streaming : ((Handshake.start master replication socketFd).run events).2.replica
      = .streaming store cmdbuf)
    : let ended := ((Handshake.start master replication socketFd).run events).2
      (ended.stream = [] → store.table.logical = ended.master.table.logical)
        ∧ (ended.stream ≠ [] → ∀ count env, 0 < count →
          (ended.step (.receive count env)).2.stream.length < ended.stream.length) := by
  have start : (Handshake.start master replication socketFd).Consistent := by
    refine ⟨sound, Option.isSome_iff_ne_none.mpr opened, shippable, rfl, rfl, rfl, ?_⟩
    simp [Handshake.attached, Handshake.start, fresh]
  have consistent := start.run admits
  exact ⟨consistent.caughtUp streaming,
    fun unread count env positive => consistent.readsOn streaming unread positive env⟩

/-- A key is set before the fork and another behind the attaching; in between a key is deleted that
is not there.
-/
theorem sync_keeps_updates_around
    : ∃ master events,
        kvInitFull 2 0 0 (some ⟨[97], by decide⟩) [] 7 (.at 0) (fun _ => .at 0) = .ok master
        ∧ (Handshake.start master ⟨.master, []⟩ 4).AdmitsAlong events
        ∧ let ended := ((Handshake.start master ⟨.master, []⟩ 4).run events).2
          ended.stage = .ended ∧ ended.stream = []
          ∧ ended.master.table.logical.lookup ⟨[108], by decide⟩
            = some ⟨.string ⟨[119], by decide⟩, 0⟩
          ∧ ∃ store cmdbuf, ended.replica = .streaming store cmdbuf
            ∧ store.table.logical = ended.master.table.logical := by
  let events : List SyncEvent :=
    [.call (.set ⟨[107], by decide⟩ ⟨[118], by decide⟩) (.at 1), .fork 9 1,
      .call (.delete ⟨[109], by decide⟩) (.at 2), .wait, .send, .attach true,
      .call (.set ⟨[108], by decide⟩ ⟨[119], by decide⟩) (.at 2),
      .load 5 (.at 3) 3 (fun _ => .at 3), .receive 100 (.at 4)]
  obtain ⟨master, initialized, opened, empty, admits, stage, read, bound, store, cmdbuf, streaming⟩
      : ∃ master,
        kvInitFull 2 0 0 (some ⟨[97], by decide⟩) [] 7 (.at 0) (fun _ => .at 0) = .ok master
        ∧ master.aof.fp ≠ none ∧ master.table.entries = []
        ∧ (Handshake.start master ⟨.master, []⟩ 4).AdmitsAlong events
        ∧ let ended := ((Handshake.start master ⟨.master, []⟩ 4).run events).2
          ended.stage = .ended ∧ ended.stream = []
          ∧ ended.master.table.logical.lookup ⟨[108], by decide⟩
            = some ⟨.string ⟨[119], by decide⟩, 0⟩
          ∧ ∃ store cmdbuf, ended.replica = .streaming store cmdbuf := by
    refine ⟨_, rfl, by decide +kernel, by decide +kernel, ?_, by decide +kernel,
      by decide +kernel, by decide +kernel, _, _, rfl⟩
    refine ⟨⟨CallEnv.clean_at 1, fun _ => .inl rfl⟩, trivial, ⟨CallEnv.clean_at 2, fun _ => ?_⟩,
      trivial, trivial, trivial, ⟨CallEnv.clean_at 2, fun _ => ?_⟩,
      ⟨fun _ => CallEnv.clean_at 3, fun _ => rfl⟩, CallEnv.clean_at 4, trivial⟩
    · exact .inr (show (Table.logical _).lookup _ = none by decide +kernel)
    · exact ⟨by decide, fun _ => rfl⟩
  have logical : master.table.logical = ∅ := by simp [Table.logical, empty]
  refine ⟨master, events, initialized, admits, stage, read, bound, store, cmdbuf, streaming, ?_⟩
  exact (sync_keeps_updates (kvInitFull_sound initialized) opened (logical ▸ Each.empty)
    List.not_mem_nil admits streaming).1 read

/-- A key is set after the fork and before the socket is attached. The call succeeds, but the key
reaches the replica neither with the snapshot nor with the stream.
-/
theorem sync_loses_update
    : ∃ master,
        kvInitFull 2 0 0 (some ⟨[97], by decide⟩) [] 7 (.at 0) (fun _ => .at 0) = .ok master
        ∧ let ended := (Handshake.start master ⟨.master, []⟩ 4).run
            [.fork 9 1, .call (.set ⟨[107], by decide⟩ ⟨[118], by decide⟩) (.at 2), .wait, .send,
              .attach true, .load 5 (.at 3) 3 (fun _ => .at 3)]
          ended.1 = [none, some kvOk, none, none, none, none]
          ∧ ended.2.stage = .ended ∧ ended.2.attached = true ∧ ended.2.stream = []
          ∧ ended.2.master.table.logical.lookup ⟨[107], by decide⟩
            = some ⟨.string ⟨[118], by decide⟩, 0⟩
          ∧ ∃ store, ended.2.replica = .streaming store []
            ∧ store.table.logical.lookup ⟨[107], by decide⟩ = none := by
  refine ⟨_, rfl, ?_⟩
  refine ⟨by decide +kernel, by decide +kernel, by decide +kernel, by decide +kernel,
    by decide +kernel, ?_⟩
  refine ⟨_, rfl, ?_⟩
  decide +kernel

end MiniKv
