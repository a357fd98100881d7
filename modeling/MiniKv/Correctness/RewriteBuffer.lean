import MiniKv.Invariants.Appenders
import MiniKv.Invariants.Reachable
import MiniKv.Refinement.Logs
import MiniKv.Semantics.Histories

/-! The rewrite buffer under threads. A record reaches it in three to five pieces, and another
thread may append in between. The buffer is a sequence of whole records as long as no thread begins
its record while another one is within its own.
-/

namespace MiniKv

variable {machine : Appenders} {id : Nat} {appender : Appender} {calls : List (Op × CallEnv)}
  {base : List UInt8} {order : List Nat}

-- What a thread has appended

/-- A thread within its record: the first piece is in the buffer, the last one is not. -/
def Progress.within : Progress → Bool
  | .appending _ (_ :: _) _ _ => true
  | _ => false

/-- A thread whose first piece is in the buffer. -/
def Appender.begun (appender : Appender) : Bool :=
  match appender.progress with
  | .ready => false
  | .appending _ done _ _ => done ≠ []
  | .returned reply => appender.op.succeeded reply

/-- What a thread has put into the buffer. -/
def Appender.text (appender : Appender) : List UInt8 :=
  match appender.progress with
  | .ready => []
  | .appending _ done _ _ => done.flatten
  | .returned reply =>
      if appender.op.succeeded reply then (appender.op.fragments appender.env.now).flatten else []

def Appenders.text (machine : Appenders) (id : Nat) : List UInt8 :=
  (machine.appenders[id]?.map Appender.text).getD []

/-- The call stands for a valid record. -/
def Op.Recorded (op : Op) (now : Int64) : Prop :=
  ∃ record, op.record now = some record ∧ record.Valid

/-- The pieces of a thread are those of its record, and one is left until it returns. -/
def Appender.Sound (appender : Appender) : Prop :=
  match appender.progress with
  | .ready => True
  | .appending _ done rest reply =>
      done ++ rest = appender.op.fragments appender.env.now ∧ rest ≠ []
        ∧ appender.op.succeeded reply = true ∧ appender.op.Recorded appender.env.now
  | .returned reply =>
      appender.op.succeeded reply = true → appender.op.Recorded appender.env.now

/-- The threads in `order` have begun in that order, and all but the last have returned; the buffer
holds what they have appended.
-/
structure Appenders.Whole (machine : Appenders) (calls : List (Op × CallEnv)) (base : List UInt8)
    (order : List Nat) : Prop where
  threads : machine.appenders.map (fun appender => (appender.op, appender.env)) = calls
  wellFormed : machine.store.table.WellFormed
  rewriting : 0 < machine.store.aof.rewritePid
  bufferReady : machine.store.aof.BufferReady
  sound : ∀ (id : Nat) (appender : Appender), machine.appenders[id]? = some appender →
    appender.Sound
  nodup : order.Nodup
  begun : ∀ id : Nat, id ∈ order
    ↔ ∃ appender : Appender, machine.appenders[id]? = some appender ∧ appender.begun = true
  complete : ∀ id ∈ order.dropLast, ∃ (appender : Appender) (reply : Reply (List CString)),
    machine.appenders[id]? = some appender ∧ appender.progress = .returned reply
  buffer : machine.store.aof.rewriteBuffer = base ++ order.flatMap machine.text

-- Steps

/-- A thread begins its record only while no other one is within its own. A call takes no last
element out of its container, since that makes two records of it, and a pushed length is an `int`.
-/
def Appenders.permits (machine : Appenders) (shift : Shift) : Bool :=
  match machine.appenders[shift.id]? with
  | none => true
  | some appender =>
      match appender.progress with
      | .ready =>
          (appender.op.emptied machine.store.table).isNone
            && appender.op.countFits machine.store.table
      | .appending _ [] _ _ => machine.appenders.all (fun other => !other.progress.within)
      | _ => true

/-- A thread that comes further changes no text but its own. -/
theorem Appenders.texts_advance {others : List Nat} (apart : ∀ other ∈ others, other ≠ id)
    (progress : Progress) (store : Store)
    : others.flatMap (machine.advance id progress store).text = others.flatMap machine.text := by
  apply List.flatMap_congr
  intro other member
  rw [Appenders.text, Appenders.advance_get_ne (apart other member), Appenders.text]

theorem Appenders.text_advance (here : machine.appenders[id]? = some appender)
    (progress : Progress) (store : Store)
    : (machine.advance id progress store).text id
      = Appender.text { appender with progress } := by
  rw [Appenders.text, Appenders.advance_get here]
  rfl

theorem Appenders.text_of_get (here : machine.appenders[id]? = some appender)
    : machine.text id = appender.text := by
  rw [Appenders.text, here]
  rfl

theorem Op.fragments_ne_nil {op : Op} {now : Int64} (recorded : op.Recorded now)
    : op.fragments now ≠ [] := by
  obtain ⟨record, stands, _⟩ := recorded
  intro empty
  have joined := Op.fragments_flatten stands
  rw [empty, List.flatten_nil, Record.bytes_eq] at joined
  simp at joined

/-- What every step of a thread keeps: the threads and their calls, what others have appended, and
that the others are sound. The rest is about the thread itself.
-/
theorem Appenders.Whole.advance (whole : machine.Whole calls base order)
    (here : machine.appenders[id]? = some appender) {progress : Progress} {store : Store}
    {next : List Nat} (wellFormed : store.table.WellFormed)
    (rewriting : store.aof.rewritePid = machine.store.aof.rewritePid)
    (bufferReady : store.aof.BufferReady)
    (sound : Appender.Sound { appender with progress })
    (nodup : next.Nodup)
    (begun : ∀ other, other ∈ next ↔ other ≠ id ∧ other ∈ order
      ∨ other = id ∧ Appender.begun { appender with progress } = true)
    (complete : ∀ other ∈ next.dropLast, other ≠ id ∧ ∃ (thread : Appender)
      (reply : Reply (List CString)),
      machine.appenders[other]? = some thread ∧ thread.progress = .returned reply)
    (buffer : store.aof.rewriteBuffer
      = base ++ next.flatMap (machine.advance id progress store).text)
    : (machine.advance id progress store).Whole calls base next := by
  constructor
  · rw [← whole.threads]
    apply List.ext_getElem?
    intro other
    simp only [Appenders.advance, List.getElem?_map, List.getElem?_modify]
    cases machine.appenders[other]? with
    | none => rfl
    | some thread =>
        simp only [Option.map_eq_map, Option.map_some]
        split <;> rfl
  · exact wellFormed
  · exact rewriting ▸ whole.rewriting
  · exact bufferReady
  · intro other thread there
    by_cases same : other = id
    · subst same
      obtain rfl := Option.some.inj ((Appenders.advance_get here progress store).symm.trans there)
      exact sound
    · rw [Appenders.advance_get_ne same] at there
      exact whole.sound other thread there
  · exact nodup
  · intro other
    rw [begun]
    by_cases same : other = id
    · subst same
      rw [Appenders.advance_get here]
      simp
    · rw [Appenders.advance_get_ne same, ← whole.begun]
      simp [same]
  · intro other member
    obtain ⟨different, thread, reply, there, returned⟩ := complete other member
    exact ⟨thread, reply, (Appenders.advance_get_ne different progress store).trans there, returned⟩
  · exact buffer

theorem Appenders.Whole.call_mem (whole : machine.Whole calls base order)
    (here : machine.appenders[id]? = some appender)
    : (appender.op, appender.env) ∈ calls := by
  rw [← whole.threads]
  exact List.mem_map_of_mem (List.mem_of_getElem? here)

theorem Aof.Written.isRecorded {before after : Aof} {op : Op} {env : CallEnv} {table : Table}
    {reply : Reply (List CString)} (written : before.Written op env table reply after)
    (succeeded : op.succeeded reply = true)
    : op.Recorded env.now := by
  cases written with
  | untouched failed => simp [failed] at succeeded
  | undone stands first opened failed => simp [failed] at succeeded
  | @recorded record stands _ valid => exact ⟨record, stands, valid⟩

/-- After the first step of its call a thread has all its pieces left, or it has returned without
having taken effect.
-/
theorem Appender.mutated (appender : Appender) {table : Table} {reply : Reply (List CString)}
    (single : appender.op.emptied table = none) (all : Bool)
    (records : appender.op.succeeded reply = true → appender.op.Recorded appender.env.now)
    : let next : Appender :=
        { appender with progress := .next all [] (appender.pieces table reply) reply }
      next.Sound ∧ next.begun = false ∧ next.text = [] := by
  cases succeeded : appender.op.succeeded reply with
  | false => simp [Appender.pieces, succeeded, Progress.next, Appender.Sound, Appender.begun,
      Appender.text]
  | true =>
      have recorded := records succeeded
      have pieces : appender.pieces table reply = appender.op.fragments appender.env.now := by
        simp [Appender.pieces, succeeded, Op.appends, single]
      have some := Op.fragments_ne_nil recorded
      simp [pieces, Progress.next, some, Appender.Sound, Appender.begun, Appender.text, succeeded,
        recorded]

/-- The first step of a call appends nothing. -/
theorem Appenders.Whole.mutate (whole : machine.Whole calls base order)
    (here : machine.appenders[id]? = some appender) (ready : appender.progress = .ready)
    (single : appender.op.emptied machine.store.table = none)
    (fits : appender.op.countFits machine.store.table = true) (all : Bool)
    : (machine.advance id
        (.next all [] (appender.pieces machine.store.table (appender.mutate machine.store).1)
          (appender.mutate machine.store).1)
        (appender.mutate machine.store).2).Whole calls base order := by
  have written := @Op.call_written machine.store appender.env appender.op whole.wellFormed fits
  have path := @Op.call_path machine.store appender.op appender.env whole.wellFormed
  have unbegun : id ∉ order := by
    rw [whole.begun]
    rintro ⟨thread, there, begun⟩
    obtain rfl := Option.some.inj (here.symm.trans there)
    simp [Appender.begun, ready] at begun
  have apart : ∀ other ∈ order, other ≠ id := fun other member same => unbegun (same ▸ member)
  obtain ⟨sound, unbegunAfter, _⟩ := @Appender.mutated appender machine.store.table
    (appender.mutate machine.store).1 single all (fun succeeded => written.isRecorded succeeded)
  refine whole.advance here (path.keeps whole.wellFormed).wellFormed
    (appender.op.call_stable (Aof.stable_fixture (·.2.2 = _)) rfl) whole.bufferReady sound
    whole.nodup ?_ ?_ ?_
  · intro other
    rw [unbegunAfter]
    simp only [Bool.false_eq_true, and_false, or_false, iff_and_self]
    exact apart other
  · intro other member
    exact ⟨apart other (List.mem_of_mem_dropLast member), whole.complete other member⟩
  · rw [Appenders.texts_advance apart]
    exact whole.buffer

/-- A thread that appends a piece has one more of its pieces in the buffer. -/
theorem Appender.Sound.append {all : Bool} {piece : List UInt8} {done rest : List (List UInt8)}
    {reply : Reply (List CString)} (sound : appender.Sound)
    (appending : appender.progress = .appending all done (piece :: rest) reply)
    : let next : Appender := { appender with progress := .next all (done ++ [piece]) rest reply }
      next.Sound ∧ next.begun = true ∧ next.text = appender.text ++ piece := by
  simp only [Appender.Sound, appending] at sound
  obtain ⟨pieces, _, succeeded, recorded⟩ := sound
  cases rest with
  | nil => simp [Progress.next, Appender.Sound, Appender.begun, Appender.text, appending, succeeded,
      recorded, ← pieces]
  | cons last rest => simp [Progress.next, Appender.Sound, Appender.begun, Appender.text, appending,
      succeeded, recorded, ← pieces]

/-- A thread that appends a piece. It is the last one in the order of those that have begun, and
its text is the end of the buffer.
-/
theorem Appenders.Whole.append (whole : machine.Whole calls base order)
    (here : machine.appenders[id]? = some appender) {all : Bool} {piece : List UInt8}
    {done rest : List (List UInt8)} {reply : Reply (List CString)}
    (appending : appender.progress = .appending all done (piece :: rest) reply)
    (allocated : ∀ call ∈ calls, ∀ nth, call.2.alloc (.rewriteBuffer nth) = true)
    {before : List Nat} (others : ∀ other, other ∈ before ↔ other ≠ id ∧ other ∈ order)
    (nodup : before.Nodup)
    (complete : ∀ other ∈ before, ∃ (thread : Appender) (reply : Reply (List CString)),
      machine.appenders[other]? = some thread ∧ thread.progress = .returned reply)
    (texts : order.flatMap machine.text = before.flatMap machine.text ++ appender.text)
    : (machine.advance id (.next all (done ++ [piece]) rest reply)
        { machine.store with
          aof := machine.store.aof.appendAofRewriteBuffer piece
            (appender.env.alloc (.rewriteBuffer done.length)) }).Whole calls base
        (before ++ [id]) := by
  obtain ⟨sound, begun, text⟩ := (whole.sound id appender here).append appending
  have apart : ∀ other ∈ before, other ≠ id := fun other member => ((others other).mp member).1
  refine whole.advance here whole.wellFormed
    ((Aof.stable_fixture (·.2.2 = _)).append _ _ _ rfl) (whole.bufferReady.append _ _) sound
    ?_ ?_ ?_ ?_
  · refine List.nodup_append.mpr ⟨nodup, List.nodup_singleton id, ?_⟩
    intro other member last same
    exact List.mem_singleton.mp same ▸ apart other member
  · intro other
    rw [List.mem_append, List.mem_singleton, begun, others]
    simp
  · intro other member
    rw [List.dropLast_concat] at member
    exact ⟨apart other member, complete other member⟩
  · rw [List.flatMap_append, List.flatMap_singleton, Appenders.text_advance here, text,
      Appenders.texts_advance apart, allocated _ (whole.call_mem here),
      whole.bufferReady.rewriteBuffer_append whole.rewriting,
      whole.buffer, texts]
    simp only [List.append_assoc]

/-- A thread that has begun and not returned is the last one in the order. -/
theorem Appenders.Whole.last (whole : machine.Whole calls base order)
    (here : machine.appenders[id]? = some appender) (begun : appender.begun = true)
    (running : ∀ reply, appender.progress ≠ .returned reply)
    : order = order.dropLast ++ [id] := by
  have member := (whole.begun id).mpr ⟨appender, here, begun⟩
  have parts := List.dropLast_append_getLast (List.ne_nil_of_mem member)
  rw [← parts, List.mem_append, List.mem_singleton] at member
  rcases member with earlier | last
  · obtain ⟨thread, reply, there, returned⟩ := whole.complete id earlier
    obtain rfl := Option.some.inj (here.symm.trans there)
    exact absurd returned (running reply)
  · rw [last, parts]

/-- One step of one thread. The order grows by a thread that begins its record. -/
theorem Appenders.Whole.step (whole : machine.Whole calls base order)
    (allocated : ∀ call ∈ calls, ∀ nth, call.2.alloc (.rewriteBuffer nth) = true)
    {shift : Shift} (permits : machine.permits shift = true)
    : (machine.step shift).2.Whole calls base (order ++ (machine.step shift).1.toList) := by
  obtain ⟨id, all⟩ := shift
  simp only [Appenders.step]
  cases here : machine.appenders[id]? with
  | none => simpa using whole
  | some appender =>
      simp only [Appenders.permits, here] at permits
      cases progress : appender.progress with
      | ready =>
          simp only [progress, Bool.and_eq_true, Option.isNone_iff_eq_none] at permits
          simp only [progress]
          split
          · simpa using whole
          · simpa using whole.mutate here progress permits.1 permits.2 all
      | returned reply => simpa [progress] using whole
      | appending held done rest reply =>
          have sound := whole.sound id appender here
          cases rest with
          | nil => simp [Appender.Sound, progress] at sound
          | cons piece rest =>
              simp only [progress] at permits ⊢
              cases done with
              | nil =>
                  have unbegun : id ∉ order := by
                    rw [whole.begun]
                    rintro ⟨thread, there, begun⟩
                    obtain rfl := Option.some.inj (here.symm.trans there)
                    simp [Appender.begun, progress] at begun
                  refine whole.append here progress allocated (fun other => ?_) whole.nodup ?_ ?_
                  · exact ⟨fun member => ⟨fun same => unbegun (same ▸ member), member⟩, And.right⟩
                  · intro other member
                    -- A thread in the order that has not returned is within its record.
                    obtain ⟨thread, there, begun⟩ := (whole.begun other).mp member
                    have outside := List.all_eq_true.mp permits thread (List.mem_of_getElem? there)
                    cases reached : thread.progress with
                    | ready => simp [Appender.begun, reached] at begun
                    | returned reply => exact ⟨thread, reply, there, reached⟩
                    | appending all done rest reply =>
                        cases done with
                        | nil => simp [Appender.begun, reached] at begun
                        | cons first done => simp [Progress.within, reached] at outside
                  · simp [Appender.text, progress]
              | cons first done =>
                  obtain ⟨before, rfl⟩ : ∃ before, order = before ++ [id] :=
                    ⟨_, whole.last here (by simp [Appender.begun, progress]) (by simp [progress])⟩
                  obtain ⟨nodup, _, apart⟩ := List.nodup_append.mp whole.nodup
                  have different : ∀ other ∈ before, other ≠ id :=
                    fun other member => apart other member id (List.mem_singleton_self id)
                  simp only [reduceCtorEq, if_false, Option.toList_none, List.append_nil]
                  refine whole.append here progress allocated (fun other => ?_) nodup ?_ ?_
                  · simp only [List.mem_append, List.mem_singleton]
                    exact ⟨fun member => ⟨different other member, .inl member⟩,
                      fun both => both.2.resolve_right both.1⟩
                  · intro other member
                    exact whole.complete other (List.dropLast_concat.symm ▸ member)
                  · rw [List.flatMap_append, List.flatMap_singleton, Appenders.text_of_get here]

-- Runs

/-- Every step along a run is permitted where it is taken. -/
def Appenders.PermitsAlong : Appenders → List Shift → Prop
  | _, [] => True
  | machine, shift :: rest =>
      machine.permits shift = true ∧ Appenders.PermitsAlong (machine.step shift).2 rest

instance instDecidablePermitsAlong
    : (machine : Appenders) → (shifts : List Shift) → Decidable (machine.PermitsAlong shifts)
  | _, [] => isTrue trivial
  | machine, shift :: rest =>
      @instDecidableAnd _ _ _ (instDecidablePermitsAlong (machine.step shift).2 rest)

/-- By induction on the run: the order is that of the threads that have begun. -/
theorem Appenders.Whole.run {shifts : List Shift} (whole : machine.Whole calls base order)
    (allocated : ∀ call ∈ calls, ∀ nth, call.2.alloc (.rewriteBuffer nth) = true)
    (permits : machine.PermitsAlong shifts)
    : (machine.run shifts).2.Whole calls base
        (order ++ (machine.run shifts).1.flatMap Option.toList) := by
  induction shifts generalizing machine order with
  | nil => simpa [Appenders.run, Foundations.Runs.run] using whole
  | cons shift rest ih =>
      have events : (machine.run (shift :: rest)).1.flatMap Option.toList
          = (machine.step shift).1.toList
            ++ ((machine.step shift).2.run rest).1.flatMap Option.toList := rfl
      rw [events, ← List.append_assoc]
      exact ih (whole.step allocated permits.1) permits.2

theorem Appenders.start_whole {store : Store} (wf : store.table.WellFormed)
    (rewriting : 0 < store.aof.rewritePid) (ready : store.aof.BufferReady) (numLocks : Nat)
    (calls : List (Op × CallEnv))
    : (Appenders.start store numLocks calls).Whole calls store.aof.rewriteBuffer [] := by
  have atStart : ∀ (id : Nat) (appender : Appender),
      (Appenders.start store numLocks calls).appenders[id]? = some appender →
        appender.progress = .ready := by
    intro id appender here
    simp only [Appenders.start, List.getElem?_map, Option.map_eq_some_iff] at here
    obtain ⟨call, _, rfl⟩ := here
    rfl
  constructor
  · simp [Appenders.start, Function.comp_def]
  · exact wf
  · exact rewriting
  · exact ready
  · intro id appender here
    simp only [Appender.Sound, atStart id appender here]
  · exact List.nodup_nil
  · intro id
    simp only [List.not_mem_nil, false_iff, not_exists, not_and]
    intro appender here
    simp [Appender.begun, atStart id appender here]
  · simp
  · simp [Appenders.start]

/-- The record of a thread's call. -/
def callRecord (calls : List (Op × CallEnv)) (id : Nat) : Option Record :=
  calls[id]?.bind (fun call => call.1.record call.2.now)

theorem Op.value_of_record {op : Op} {now : Int64} {record : Record} {value : CString}
    (stands : op.record now = some record) (held : record.value = some value)
    : op.value = some value := by
  unfold Op.record at stands
  split at stands <;> cases stands <;> exact held

/-- Once all threads have returned, the text of one that took effect is its record. -/
theorem Appenders.Whole.text_returned (whole : machine.Whole calls base order)
    (finished : ∀ appender ∈ machine.appenders, ∃ reply, appender.progress = .returned reply)
    (fields : ∀ call ∈ calls, ∀ value, call.1.value = some value → value.IsField)
    (member : id ∈ order)
    : ∃ record, callRecord calls id = some record ∧ record.Readable
        ∧ machine.text id = record.bytes := by
  obtain ⟨appender, here, begun⟩ := (whole.begun id).mp member
  obtain ⟨reply, returned⟩ := finished appender (List.mem_of_getElem? here)
  have succeeded : appender.op.succeeded reply = true := by
    simpa [Appender.begun, returned] using begun
  have sound := whole.sound id appender here
  simp only [Appender.Sound, returned] at sound
  obtain ⟨record, stands, valid⟩ := sound succeeded
  refine ⟨record, ?_, ⟨valid, fun value held => ?_⟩, ?_⟩
  · rw [callRecord, ← whole.threads, List.getElem?_map, here]
    exact stands
  · exact fields _ (whole.call_mem here) value (Op.value_of_record stands held)
  · rw [Appenders.text_of_get here, Appender.text, returned]
    simp only [succeeded, if_true]
    exact Op.fragments_flatten stands

/-- The records of several threads, by induction on their order. -/
theorem exists_records {ids : List Nat} {text : Nat → List UInt8}
    (each : ∀ id ∈ ids, ∃ record, callRecord calls id = some record ∧ record.Readable
      ∧ text id = record.bytes)
    : ∃ records, ids.map (callRecord calls) = records.map some
        ∧ (∀ record ∈ records, record.Readable) ∧ ids.flatMap text = encode records := by
  induction ids with
  | nil => exact ⟨[], rfl, by simp, rfl⟩
  | cons first rest ih =>
      obtain ⟨record, stands, readable, bytes⟩ := each first List.mem_cons_self
      obtain ⟨records, listed, allReadable, texts⟩ :=
        ih (fun id member => each id (List.mem_cons_of_mem _ member))
      refine ⟨record :: records, ?_, ?_, ?_⟩
      · rw [List.map_cons, List.map_cons, stands, listed]
      · intro other member
        rcases List.mem_cons.mp member with rfl | later
        · exact readable
        · exact allReadable other later
      · rw [List.flatMap_cons, bytes, texts, encode, encode, List.flatMap_cons]

/-- Any number of threads call mutations, in any order of their steps in which no thread begins its
record while another one is within its own. When all have returned, the rewrite buffer has gained
the records of the calls that took effect, one each, and a replay reads them back.
Witness: the threads that have begun are kept in order; only the last may be within its record.
-/
theorem rewriteBuffer_whole_records {store : Store} (wf : store.table.WellFormed)
    (rewriting : 0 < store.aof.rewritePid) (ready : store.aof.BufferReady) {numLocks : Nat}
    (allocated : ∀ call ∈ calls, ∀ nth, call.2.alloc (.rewriteBuffer nth) = true)
    (fields : ∀ call ∈ calls, ∀ value, call.1.value = some value → value.IsField)
    {shifts : List Shift}
    (permits : (Appenders.start store numLocks calls).PermitsAlong shifts)
    (finished : ∀ appender ∈ ((Appenders.start store numLocks calls).run shifts).2.appenders,
      ∃ reply, appender.progress = .returned reply)
    : ∃ (order : List Nat) (records : List Record),
        order.Nodup
        ∧ (∀ id, id ∈ order ↔ ∃ (appender : Appender) (reply : Reply (List CString)),
          ((Appenders.start store numLocks calls).run shifts).2.appenders[id]? = some appender
            ∧ appender.progress = .returned reply ∧ appender.op.succeeded reply = true)
        ∧ order.map (callRecord calls) = records.map some
        ∧ ((Appenders.start store numLocks calls).run shifts).2.store.aof.rewriteBuffer
          = store.aof.rewriteBuffer ++ encode records
        ∧ (readLines (encode records)).map parseLine = records.map some := by
  have whole := (Appenders.start_whole wf rewriting ready numLocks calls).run allocated permits
  rw [List.nil_append] at whole
  generalize ((Appenders.start store numLocks calls).run shifts).1.flatMap Option.toList = order
    at whole
  generalize ((Appenders.start store numLocks calls).run shifts).2 = ended at whole finished ⊢
  obtain ⟨records, listed, readable, texts⟩ := exists_records
    (fun id member => @Appenders.Whole.text_returned ended id calls _ order whole finished fields
      member)
  refine ⟨order, records, whole.nodup, fun id => ?_, listed, ?_, ?_⟩
  · rw [whole.begun]
    constructor
    · rintro ⟨appender, here, begun⟩
      obtain ⟨reply, returned⟩ := finished appender (List.mem_of_getElem? here)
      exact ⟨appender, reply, here, returned, by simpa [Appender.begun, returned] using begun⟩
    · rintro ⟨appender, reply, here, returned, succeeded⟩
      exact ⟨appender, here, by simpa [Appender.begun, returned] using succeeded⟩
  · rw [whole.buffer, texts]
  · have lines := @readLines_encode records (fun record member => (readable record member).oneLine)
      [] (List.not_mem_nil) (by decide)
    rw [List.append_nil] at lines
    rw [lines]
    simp only [if_true, List.append_nil, List.map_map]
    exact List.map_congr_left (fun record member => (readable record member).parseLine_bytes)

/-- Two strings are set while a rewrite is running, and the second thread waits with its record for
the first one.
-/
theorem rewriteBuffer_whole_records_serial
    : ∃ (opened store : Store) (calls : List (Op × CallEnv)) (shifts : List Shift),
        kvInitFull 32 0 0 (some ⟨[97], by decide⟩) [] 7 (.at 0) (fun _ => .at 0) = .ok opened
        ∧ kvBgrewriteaof opened 9 (.at 0) = (kvOk, store)
        ∧ calls.map Prod.fst
          = [.set (some ⟨[107], by decide⟩) (some ⟨[118], by decide⟩),
            .set (some ⟨[109], by decide⟩) (some ⟨[119], by decide⟩)]
        ∧ (Appenders.start store (numLocks 32) calls).PermitsAlong shifts
        ∧ ∃ (order : List Nat) (records : List Record),
          order.Nodup
          ∧ (∀ id, id ∈ order ↔ ∃ (appender : Appender) (reply : Reply (List CString)),
            ((Appenders.start store (numLocks 32) calls).run shifts).2.appenders[id]?
                = some appender
              ∧ appender.progress = .returned reply ∧ appender.op.succeeded reply = true)
          ∧ order.map (callRecord calls) = records.map some
          ∧ ((Appenders.start store (numLocks 32) calls).run shifts).2.store.aof.rewriteBuffer
            = store.aof.rewriteBuffer ++ encode records
          ∧ (readLines (encode records)).map parseLine = records.map some := by
  let calls : List (Op × CallEnv) :=
    [(.set (some ⟨[107], by decide⟩) (some ⟨[118], by decide⟩), .at 1),
      (.set (some ⟨[109], by decide⟩) (some ⟨[119], by decide⟩), .at 1)]
  let shifts : List Shift :=
    [⟨0, false⟩, ⟨1, false⟩] ++ List.replicate 5 ⟨0, false⟩ ++ List.replicate 5 ⟨1, false⟩
  obtain ⟨opened, store, started, forked, same, empty, rewriting, permits, ended⟩
    : ∃ opened store : Store,
      kvInitFull 32 0 0 (some ⟨[97], by decide⟩) [] 7 (.at 0) (fun _ => .at 0) = .ok opened
      ∧ kvBgrewriteaof opened 9 (.at 0) = (kvOk, store)
      ∧ store.table = opened.table
      ∧ store.aof.rewriteBuf = none
      ∧ 0 < store.aof.rewritePid
      ∧ (Appenders.start store (numLocks 32) calls).PermitsAlong shifts
      ∧ ((Appenders.start store (numLocks 32) calls).run shifts).2.appenders.map
          Appender.progress
        = [.returned (.status kvOk), .returned (.status kvOk)] := by
    refine ⟨_, _, rfl, rfl, rfl, rfl, ?_, ?_, ?_⟩
    · decide +kernel
    · decide +kernel
    · decide +kernel
  refine ⟨opened, store, calls, shifts, started, forked, rfl, permits, ?_⟩
  refine rewriteBuffer_whole_records (same ▸ (kvInitFull_keeps started).wellFormed) rewriting
    (fun buffer held => absurd (empty.symm.trans held) (by simp)) ?_ ?_ permits ?_
  · intro call member nth
    simp only [calls, List.mem_cons, List.not_mem_nil, or_false] at member
    rcases member with rfl | rfl <;> rfl
  · intro call member value held
    simp only [calls, List.mem_cons, List.not_mem_nil, or_false] at member
    rcases member with rfl | rfl
    · obtain rfl := Option.some.inj held
      decide
    · obtain rfl := Option.some.inj held
      decide
  · intro appender member
    have returned := List.mem_map_of_mem (f := Appender.progress) member
    rw [ended] at returned
    simp only [List.mem_cons, List.not_mem_nil, or_false, or_self] at returned
    exact ⟨_, returned⟩

/-- Two strings are set by threads with different locks that take turns, and replaying the buffer
finds neither record.
-/
theorem interleaved_records_torn
    : ∃ (opened store : Store),
        kvInitFull 32 0 0 (some ⟨[97], by decide⟩) [] 7 (.at 0) (fun _ => .at 0) = .ok opened
        ∧ kvBgrewriteaof opened 9 (.at 0) = (kvOk, store)
        ∧ let calls : List (Op × CallEnv) :=
            [(.set (some ⟨[107], by decide⟩) (some ⟨[118], by decide⟩), .at 1),
              (.set (some ⟨[109], by decide⟩) (some ⟨[119], by decide⟩), .at 1)]
          let shifts : List Shift := (List.replicate 6 [⟨0, false⟩, ⟨1, false⟩]).flatten
          let ended := ((Appenders.start store (numLocks 32) calls).run shifts).2
          kvLockIndex (numLocks 32) ⟨[107], by decide⟩
            ≠ kvLockIndex (numLocks 32) ⟨[109], by decide⟩
          ∧ ended.appenders.map Appender.progress
            = [.returned (.status kvOk), .returned (.status kvOk)]
          ∧ ∀ id < 2,
            callRecord calls id ∉ (readLines ended.store.aof.rewriteBuffer).map parseLine := by
  refine ⟨_, _, rfl, rfl, ?_⟩
  decide +kernel

end MiniKv
