import MiniKv.Refinement.Replay
import MiniKv.Semantics.Histories

/-! Runs of the store follow histories of the logical machine. -/

namespace MiniKv

open MiniKv.Foundations.ChainedTable
open MiniKv.Foundations.DoublyLinked
open MiniKv.Foundations.FiniteMaps

/-- The logical map of a well-formed table has valid keys and values. -/
theorem Table.WellFormed.logical_valid {table : Table} (wf : table.WellFormed)
    : table.logical.Valid := by
  have entryOf : ∀ key binding, table.logical.lookup key = some binding →
      ∃ entry : Entry, entry.WellFormed ∧ entry.key = key ∧ entry.binding = binding := by
    intro key binding bound
    obtain ⟨entry, member, sameKey, sameBinding⟩ := exists_of_lookup_tabulate bound
    exact ⟨entry, wf.entries entry member, sameKey, sameBinding⟩
  refine ⟨?_, ?_⟩
  · intro key binding bound
    obtain ⟨entry, entryWf, rfl, _⟩ := entryOf key binding bound
    exact entryWf.key
  · intro key binding bound
    obtain ⟨entry, entryWf, _, rfl⟩ := entryOf key binding bound
    have valid := entryWf.value
    obtain ⟨entryKey, payload, expireAtMs, time⟩ := entry
    cases payload with
    | string value => exact valid
    | list links => exact valid.bounded
    | set chains =>
        intro member held
        exact valid.bounded member (List.mem_toFinset.mp held)

theorem encodeLogged_append (first second : List Record)
    : encodeLogged (first ++ second) = encodeLogged first ++ encodeLogged second :=
  List.flatMap_append

/-- A log gets the records that fit. -/
theorem encodeLogged_eq (records : List Record)
    : encodeLogged records = encode (records.filter Record.fits) := by
  induction records with
  | nil => rfl
  | cons record rest ih =>
      rw [encodeLogged, List.flatMap_cons, ← encodeLogged, ih, List.filter_cons, loggedBytes,
        Record.fits]
      by_cases fits : record.bytes.length < aofRecordBufSize
      · simp only [fits, if_true, decide_true]
        rfl
      · simp only [fits, if_false, decide_false, Bool.false_eq_true, List.nil_append]

theorem encode_append (first second : List Record)
    : encode (first ++ second) = encode first ++ encode second :=
  List.flatMap_append

/-- Since `start`, the store has gone through a history whose records carry values with a
property.
-/
structure Store.Tracks (property : CString → Prop) (start store : Store) (history : History)
    : Prop where
  table : start.table.Becomes store.table history.map
  aof : start.aof.Extends store.aof (encodeLogged history.logged) (encode history.buffered)
  logged : ∀ record ∈ history.logged, record.Carries property
  buffered : ∀ record ∈ history.buffered, record.Carries property

variable {property : CString → Prop} {start store : Store}

theorem Store.Tracks.refl (wf : store.table.WellFormed)
    : store.Tracks property store (.start store.table.logical) where
  table := .refl wf
  aof := .refl _
  logged := by simp [History.start]
  buffered := by simp [History.start]

/-- One operation on the store is one call of the logical machine. -/
theorem Store.Tracks.step {history : History} {call : Call}
    (tracks : start.Tracks property store history)
    (unlimited : start.table.maxMemoryBudget = 0) (carries : call.Carries property)
    : (store.step call).1.view
        = (History.step start.table.maxCapacity start.aof.fp.isSome history call).1
      ∧ start.Tracks property (store.step call).2
          (History.step start.table.maxCapacity start.aof.fp.isSome history call).2 := by
  obtain ⟨⟨op, action, fields⟩, clean⟩ := carries
  let drawn : Store := { store with table := { store.table with prng := call.prng } }
  have drawnWf : drawn.table.WellFormed := tracks.table.wellFormed.congr rfl rfl rfl
  have isMatch := @Op.call_matches drawn call.env op drawnWf
    (tracks.table.maxMemoryBudget.trans unlimited) clean
  have readable := op.outcome_carries drawnWf.logical_valid fields drawn.table.maxCapacity
    drawn.aof.fp.isSome call.env.now
  have logical : drawn.table.logical = history.map := tracks.table.logical
  have maxCapacity : drawn.table.maxCapacity = start.table.maxCapacity :=
    tracks.table.maxCapacity
  have logging : drawn.aof.fp.isSome = start.aof.fp.isSome := tracks.aof.isOpen
  rw [logical, maxCapacity, logging] at isMatch readable
  have stepped : store.step call = op.call call.env drawn := by
    simp only [Store.step, action, drawn]
  simp only [stepped, History.step, action]
  refine ⟨isMatch.reply, ?_, ?_, ?_, ?_⟩
  · have drawnTable : start.table.Becomes drawn.table history.map :=
      ⟨drawnWf, logical, maxCapacity, tracks.table.maxMemoryBudget⟩
    exact drawnTable.trans isMatch.table
  · rw [encodeLogged_append, encode_append]
    exact tracks.aof.trans isMatch.aof
  · intro record member
    rcases List.mem_append.mp member with earlier | now
    · exact tracks.logged record earlier
    · exact readable.1 record now
  · intro record member
    rcases List.mem_append.mp member with earlier | now
    · exact tracks.buffered record earlier
    · exact readable.2 record now

/-- A run of operations follows the history of the logical machine. -/
theorem Store.run_tracks (wf : start.table.WellFormed)
    (unlimited : start.table.maxMemoryBudget = 0) {calls : List Call}
    (carries : ∀ call ∈ calls, call.Carries property)
    : start.Tracks property (start.run calls).2
        (History.run start.table.maxCapacity start.aof.fp.isSome (.start start.table.logical)
          calls) :=
  (@Foundations.Runs.run_simulation _ _ _ _ _ Store.step
    (History.step start.table.maxCapacity start.aof.fp.isSome) Reply.view
    (Call.Carries property) (Store.Tracks property start)
    (fun _ _ _ tracks carries => tracks.step unlimited carries) _ _ (.refl wf) calls
    carries).2

/-- The records of a history that reached the log. -/
def History.written (history : History) : List Record :=
  history.logged.filter Record.fits

theorem History.written_of_fits {history : History}
    (fit : ∀ record ∈ history.logged, record.fits = true)
    : history.written = history.logged :=
  List.filter_eq_self.mpr fit

/-- The log of a store that was opened on an empty one. -/
theorem Store.Blank.log_of_tracks {maxCapacity : Nat} {history : History}
    (blank : start.Blank maxCapacity) (tracks : start.Tracks property store history)
    : store.aof.log = encode history.written := by
  have atEnd : start.aof.fp = some start.aof.log.length := by
    rw [blank.atStart, blank.log, List.length_nil]
  rw [(tracks.aof.log atEnd).1, blank.log, List.nil_append, encodeLogged_eq]
  rfl

end MiniKv
