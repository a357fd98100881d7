import MiniKv.Semantics.LogicalMap

/-! What a call appends to the log file and to the buffer of a running rewrite when no file
operation and no allocation fails.
-/

namespace MiniKv

/-- A rewrite buffer holds the bytes it counts and can be doubled. -/
def Aof.BufferReady (aof : Aof) : Prop :=
  ∀ buffer, aof.rewriteBuf = some buffer →
    aof.rewriteBufLen ≤ buffer.length ∧ 0 < aof.rewriteBufCap

/-- Doubling a positive capacity reaches any need, by induction on the fuel. -/
theorem growCap_some {need fuel cap : Nat} (positive : 0 < cap) (enough : need ≤ cap * 2 ^ fuel)
    : ∃ grown, growCap need fuel cap = some grown ∧ 0 < grown := by
  induction fuel generalizing cap with
  | zero =>
      rw [Nat.pow_zero, Nat.mul_one] at enough
      exact ⟨cap, by rw [growCap, if_pos enough], positive⟩
  | succ fuel ih =>
      rw [growCap]
      split
      · exact ⟨cap, rfl, positive⟩
      · apply ih (by omega)
        rw [Nat.pow_succ] at enough
        rwa [Nat.mul_assoc, Nat.mul_comm 2]

theorem growCap_need {need cap : Nat} (positive : 0 < cap)
    : ∃ grown, growCap need need cap = some grown ∧ 0 < grown := by
  apply growCap_some positive
  have power : need < 2 ^ need := Nat.lt_two_pow_self
  have scaled : 2 ^ need ≤ cap * 2 ^ need := Nat.le_mul_of_pos_left _ positive
  omega

theorem take_overwriteAt {buffer data : List UInt8} {offset : Nat}
    (inside : offset ≤ buffer.length)
    : (overwriteAt buffer offset data).take (offset + data.length)
        = buffer.take offset ++ data
      ∧ offset + data.length ≤ (overwriteAt buffer offset data).length := by
  have front : (buffer.take offset ++ data).length = offset + data.length := by
    rw [List.length_append, List.length_take, Nat.min_eq_left inside]
  refine ⟨?_, ?_⟩
  · rw [overwriteAt, ← front, List.take_left]
  · rw [overwriteAt, List.length_append, front]
    omega

/-- Appending to the buffer keeps it ready, also when an allocation fails. -/
theorem Aof.BufferReady.append {aof : Aof} (ready : aof.BufferReady) (data : List UInt8)
    (allocated : Bool)
    : (aof.appendAofRewriteBuffer data allocated).BufferReady := by
  simp only [Aof.appendAofRewriteBuffer]
  split
  · exact ready
  · split
    · next missing =>
        split
        · intro buffer same
          obtain rfl := Option.some.inj same
          refine ⟨le_rfl, ?_⟩
          simp only
          split <;> omega
        · intro buffer same
          simp [missing] at same
    · next buffer held =>
        obtain ⟨bound, positive⟩ := ready buffer held
        have copied := (@take_overwriteAt buffer data _ bound).2
        split
        · intro other same
          obtain rfl := Option.some.inj same
          exact ⟨copied, positive⟩
        · obtain ⟨cap, grown, capPositive⟩ :=
            @growCap_need (aof.rewriteBufLen + data.length) _ positive
          simp only [grown]
          split
          · intro other same
            obtain rfl := Option.some.inj same
            exact ⟨copied, capPositive⟩
          · intro other same
            simp at same

/-- A successful append to the buffer of a running rewrite adds the data. -/
theorem Aof.BufferReady.rewriteBuffer_append {aof : Aof} (ready : aof.BufferReady)
    (running : 0 < aof.rewritePid) (data : List UInt8)
    : (aof.appendAofRewriteBuffer data true).rewriteBuffer = aof.rewriteBuffer ++ data := by
  simp only [Aof.appendAofRewriteBuffer]
  split
  · next skipped =>
      rcases skipped with empty | stopped
      · simp [empty]
      · omega
  · split
    · next missing =>
        simp [Aof.rewriteBuffer, missing]
    · next buffer held =>
        obtain ⟨bound, positive⟩ := ready buffer held
        have copied := (@take_overwriteAt buffer data _ bound).1
        split
        · simpa only [Aof.rewriteBuffer, held] using copied
        · obtain ⟨cap, grown, _⟩ :=
            @growCap_need (aof.rewriteBufLen + data.length) _ positive
          simpa only [grown, if_true, Aof.rewriteBuffer, held] using copied

/-- (Extends before after logged buffered) says what a call without failures does to the
append-only file: an open stream that stands at the end of its file appends `logged` and stands
at the new end, and the buffer of a running rewrite gets `buffered`.
-/
structure Aof.Extends (before after : Aof) (logged buffered : List UInt8) : Prop where
  path : after.path = before.path
  bgsavePid : after.bgsavePid = before.bgsavePid
  rewritePid : after.rewritePid = before.rewritePid
  rewriteTmp : after.rewriteTmp = before.rewriteTmp
  isOpen : after.fp.isSome = before.fp.isSome
  closed : before.fp = none → after.log = before.log
  log : before.fp = some before.log.length →
    after.log = before.log ++ logged ∧ after.fp = some after.log.length
  ready : before.BufferReady → after.BufferReady
  buffer : before.BufferReady → 0 < before.rewritePid →
    after.rewriteBuffer = before.rewriteBuffer ++ buffered

theorem Aof.Extends.refl (aof : Aof) : aof.Extends aof [] [] where
  path := rfl
  bgsavePid := rfl
  rewritePid := rfl
  rewriteTmp := rfl
  isOpen := rfl
  closed _ := rfl
  log atEnd := ⟨by simp, atEnd⟩
  ready ready := ready
  buffer _ _ := by simp

theorem Aof.Extends.trans {first second third : Aof}
    {logged logged' buffered buffered' : List UInt8}
    (early : first.Extends second logged buffered)
    (late : second.Extends third logged' buffered')
    : first.Extends third (logged ++ logged') (buffered ++ buffered') where
  path := late.path.trans early.path
  bgsavePid := late.bgsavePid.trans early.bgsavePid
  rewritePid := late.rewritePid.trans early.rewritePid
  rewriteTmp := late.rewriteTmp.trans early.rewriteTmp
  isOpen := late.isOpen.trans early.isOpen
  closed missing := by
    have stillMissing : second.fp = none := by
      rw [← Option.isNone_iff_eq_none, ← Option.not_isSome, early.isOpen, missing]
      rfl
    exact (late.closed stillMissing).trans (early.closed missing)
  log atEnd := by
    obtain ⟨earlyLog, earlyEnd⟩ := early.log atEnd
    obtain ⟨lateLog, lateEnd⟩ := late.log earlyEnd
    exact ⟨by rw [lateLog, earlyLog, List.append_assoc], lateEnd⟩
  ready := late.ready ∘ early.ready
  buffer ready running := by
    rw [late.buffer (early.ready ready) (early.rewritePid ▸ running),
      early.buffer ready running, List.append_assoc]

/-- One append to the rewrite buffer touches nothing else. -/
theorem Aof.extends_appendAofRewriteBuffer (aof : Aof) (data : List UInt8)
    : aof.Extends (aof.appendAofRewriteBuffer data true) [] data := by
  have same : ∃ rewriteBuf rewriteBufLen rewriteBufCap,
      aof.appendAofRewriteBuffer data true
        = { aof with rewriteBuf, rewriteBufLen, rewriteBufCap } := by
    simp only [Aof.appendAofRewriteBuffer]
    split
    · exact ⟨_, _, _, rfl⟩
    · split
      · exact ⟨_, _, _, rfl⟩
      · split
        · exact ⟨_, _, _, rfl⟩
        · split
          · exact ⟨_, _, _, rfl⟩
          · exact ⟨_, _, _, rfl⟩
  have ready : aof.BufferReady → (aof.appendAofRewriteBuffer data true).BufferReady :=
    fun ready => ready.append data true
  have buffer : aof.BufferReady → 0 < aof.rewritePid →
      (aof.appendAofRewriteBuffer data true).rewriteBuffer = aof.rewriteBuffer ++ data :=
    fun ready running => ready.rewriteBuffer_append running data
  obtain ⟨rewriteBuf, rewriteBufLen, rewriteBufCap, shape⟩ := same
  rw [shape] at ready buffer ⊢
  exact ⟨rfl, rfl, rfl, rfl, rfl, fun _ => rfl, fun atEnd => ⟨by simp, atEnd⟩, ready, buffer⟩

/-- The appends of one record, by induction on its fragments. -/
theorem Aof.extends_appendFragments {env : CallEnv} (clean : env.Clean) (aof : Aof)
    (fragments : List (List UInt8)) (nth : Nat)
    : aof.Extends (aof.appendFragments env fragments nth) [] fragments.flatten := by
  induction fragments generalizing aof nth with
  | nil => exact .refl aof
  | cons data rest ih =>
      rw [Aof.appendFragments, clean.1, List.flatten_cons]
      exact (aof.extends_appendAofRewriteBuffer data).trans (ih _ _)

theorem keyFragments_flatten (command : Command) (key : CString)
    : (keyFragments command key).flatten = formatRecord command key.bytes none := by
  simp [keyFragments, formatRecord]

theorem valueFragments_flatten (command : Command) (key : CString) (value : List UInt8)
    : (valueFragments command key value).flatten
      = formatRecord command key.bytes (some value) := by
  simp [valueFragments, formatRecord]

/-- What an open log gets for a record: nothing when the record is too long. -/
def loggedBytes (record : List UInt8) : List UInt8 :=
  if record.length < aofRecordBufSize then record else []

/-- The three ways of writing a record when no file operation fails. -/
theorem Aof.writeAofRecord_cases (aof : Aof) (record : List UInt8)
    : (aof.fp = none
        ∧ ∃ broadcasts, aof.writeAofRecord record .ok = (kvOk, none, { aof with broadcasts }))
      ∨ (∃ pos broadcasts, aof.fp = some pos ∧ record.length < aofRecordBufSize
        ∧ aof.writeAofRecord record .ok
          = (kvOk, some pos,
              { aof with
                log := aof.log ++ record
                fp := some (aof.log.length + record.length)
                broadcasts }))
      ∨ (∃ pos, aof.fp = some pos ∧ ¬ record.length < aofRecordBufSize
        ∧ aof.writeAofRecord record .ok = (kvErrIo, some pos, aof)) := by
  simp only [Aof.writeAofRecord]
  by_cases fits : record.length < aofRecordBufSize
  · simp only [fits, if_true]
    cases opened : aof.fp with
    | none => exact .inl ⟨rfl, _, rfl⟩
    | some pos => exact .inr (.inl ⟨pos, _, rfl, trivial, rfl⟩)
  · simp only [fits, if_false]
    split
    · next missing => exact .inl ⟨missing, aof.broadcasts, rfl⟩
    · next pos opened => exact .inr (.inr ⟨pos, opened, not_false, rfl⟩)

/-- Replacing the broadcasts only. -/
theorem Aof.extends_broadcasts {aof : Aof} (missing : aof.fp = none)
    (broadcasts : List (List UInt8)) (logged : List UInt8)
    : aof.Extends { aof with broadcasts } logged [] :=
  { Aof.Extends.refl aof with
    path := rfl
    bgsavePid := rfl
    rewritePid := rfl
    rewriteTmp := rfl
    isOpen := rfl
    closed := fun _ => rfl
    log := by simp [missing]
    ready := id
    buffer := fun _ _ => by simp [Aof.rewriteBuffer] }

/-- Writing a record without a failure appends it unless it is too long. -/
theorem Aof.extends_writeAofRecord (aof : Aof) (record : List UInt8)
    : aof.Extends (aof.writeAofRecord record .ok).2.2 (loggedBytes record) [] := by
  rcases aof.writeAofRecord_cases record with
    ⟨missing, broadcasts, written⟩ | ⟨pos, broadcasts, opened, fits, written⟩
      | ⟨pos, opened, long, written⟩
  · rw [written]
    exact Aof.extends_broadcasts missing broadcasts _
  · rw [written, loggedBytes, if_pos fits]
    exact ⟨rfl, rfl, rfl, rfl, by simp [opened], by simp [opened], by simp, id,
      fun _ _ => by simp [Aof.rewriteBuffer]⟩
  · rw [written, loggedBytes, if_neg long]
    exact .refl aof

theorem Aof.extends_logAfter {env : CallEnv} (clean : env.Clean) (aof : Aof)
    (record : List UInt8)
    : aof.Extends (aof.logAfter record env) (loggedBytes record) [] := by
  rw [Aof.logAfter]
  split
  · next missing =>
      exact { Aof.Extends.refl aof with log := by simp [missing] }
  · rw [clean.2]
    exact aof.extends_writeAofRecord record

/-- The status of a write: an open log refuses a record that is too long. -/
theorem Aof.writeAofRecord_status (aof : Aof) (record : List UInt8)
    : (aof.writeAofRecord record .ok).1
      = if aof.fp.isSome && !decide (record.length < aofRecordBufSize) then kvErrIo
        else kvOk := by
  rcases aof.writeAofRecord_cases record with
    ⟨missing, broadcasts, written⟩ | ⟨pos, broadcasts, opened, fits, written⟩
      | ⟨pos, opened, long, written⟩
  · simp [written, missing]
  · simp [written, fits]
  · simp [written, opened, long]

/-- Rolling back a record right after writing it leaves the file as it was. -/
theorem Aof.extends_rollback (aof : Aof) (record : List UInt8)
    : aof.Extends
        ((aof.writeAofRecord record .ok).2.2.rollbackAofRecord
          (aof.writeAofRecord record .ok).2.1) [] [] := by
  rcases aof.writeAofRecord_cases record with
    ⟨missing, broadcasts, written⟩ | ⟨pos, broadcasts, opened, fits, written⟩
      | ⟨pos, opened, long, written⟩
  · rw [written, Aof.rollbackAofRecord_none]
    exact Aof.extends_broadcasts missing broadcasts _
  · simp only [written, Aof.rollbackAofRecord]
    refine ⟨rfl, rfl, rfl, rfl, by simp [opened], by simp [opened], ?_, id,
      fun _ _ => by simp [Aof.rewriteBuffer]⟩
    intro atEnd
    obtain rfl := Option.some.inj (opened.symm.trans atEnd)
    simp [ftruncate]
  · simp only [written, Aof.rollbackAofRecord, opened]
    refine ⟨rfl, rfl, rfl, rfl, by simp [opened], by simp [opened], ?_, id,
      fun _ _ => by simp [Aof.rewriteBuffer]⟩
    intro atEnd
    obtain rfl := Option.some.inj (opened.symm.trans atEnd)
    simp [ftruncate]

end MiniKv
