import MiniKv.Store.Mutations

/-! What operations do to the append-only file: they append to the rewrite buffer, write a record
and roll it back. What these three keep is kept by every operation, whatever fails.
-/

namespace MiniKv

/-- A property of the append-only file that its three primitive changes keep. -/
structure Aof.Stable (Property : Aof → Prop) : Prop where
  append : ∀ aof data allocated, Property aof →
    Property (aof.appendAofRewriteBuffer data allocated)
  write : ∀ aof record io, Property aof → Property (aof.writeAofRecord record io).2.2
  rollback : ∀ aof pos, Property aof → Property (aof.rollbackAofRecord pos)

/-- What no call of a client touches: the path, and the children that run. -/
def Aof.fixture (aof : Aof) : Option CString × Int × Int :=
  (aof.path, aof.bgsavePid, aof.rewritePid)

theorem Aof.appendAofRewriteBuffer_fixture (aof : Aof) (data : List UInt8) (allocated : Bool)
    : (aof.appendAofRewriteBuffer data allocated).fixture = aof.fixture := by
  simp only [Aof.appendAofRewriteBuffer]
  split
  · rfl
  · split
    · split <;> rfl
    · split
      · rfl
      · split
        · rfl
        · split <;> rfl

theorem Aof.writeAofRecord_fixture (aof : Aof) (record : List UInt8) (io : IoOutcome)
    : (aof.writeAofRecord record io).2.2.fixture = aof.fixture := by
  simp only [Aof.writeAofRecord]
  split
  · split <;> rfl
  · split <;> split <;> rfl

theorem Aof.rollbackAofRecord_fixture (aof : Aof) (pos : Option Nat)
    : (aof.rollbackAofRecord pos).fixture = aof.fixture := by
  simp only [Aof.rollbackAofRecord]
  split <;> rfl

theorem Aof.stable_fixture (Property : Option CString × Int × Int → Prop)
    : Aof.Stable (fun aof => Property aof.fixture) where
  append aof data allocated holds := aof.appendAofRewriteBuffer_fixture data allocated ▸ holds
  write aof record io holds := aof.writeAofRecord_fixture record io ▸ holds
  rollback aof pos holds := aof.rollbackAofRecord_fixture pos ▸ holds

/-- Appending to the rewrite buffer leaves the log, its stream and the replicas alone. -/
theorem Aof.appendAofRewriteBuffer_stream (aof : Aof) (data : List UInt8) (allocated : Bool)
    : (aof.appendAofRewriteBuffer data allocated).fp = aof.fp
      ∧ (aof.appendAofRewriteBuffer data allocated).log = aof.log
      ∧ (aof.appendAofRewriteBuffer data allocated).broadcasts = aof.broadcasts := by
  simp only [Aof.appendAofRewriteBuffer]
  split
  · exact ⟨rfl, rfl, rfl⟩
  · split
    · split <;> exact ⟨rfl, rfl, rfl⟩
    · split
      · exact ⟨rfl, rfl, rfl⟩
      · split
        · exact ⟨rfl, rfl, rfl⟩
        · split <;> exact ⟨rfl, rfl, rfl⟩

theorem Aof.appendFragments_stream (aof : Aof) (env : CallEnv) (fragments : List (List UInt8))
    (nth : Nat)
    : (aof.appendFragments env fragments nth).fp = aof.fp
      ∧ (aof.appendFragments env fragments nth).log = aof.log
      ∧ (aof.appendFragments env fragments nth).broadcasts = aof.broadcasts := by
  induction fragments generalizing aof nth with
  | nil => exact ⟨rfl, rfl, rfl⟩
  | cons data rest ih =>
      have first := aof.appendAofRewriteBuffer_stream data (env.alloc (.rewriteBuffer nth))
      have later := ih (aof.appendAofRewriteBuffer data (env.alloc (.rewriteBuffer nth))) (nth + 1)
      exact ⟨later.1.trans first.1, later.2.1.trans first.2.1, later.2.2.trans first.2.2⟩

/-- `kv_set_internal` changes nothing of the file when it fails, and otherwise appends its record to
the rewrite buffer.
-/
theorem kvSetInternal_aof (store : Store) (key value : Option CString) (env : CallEnv)
    : ((kvSetInternal store key value env).1 ≠ kvOk
        ∧ (kvSetInternal store key value env).2.aof = store.aof)
      ∨ (kvSetInternal store key value env).1 = kvOk
        ∧ ∃ validKey validValue, key = some validKey ∧ value = some validValue
          ∧ (kvSetInternal store key value env).2.aof
            = store.aof.appendFragments env (valueFragments .set validKey validValue.bytes) 0 := by
  simp only [kvSetInternal]
  split
  · next refused => exact .inl ⟨(argumentErrors_negative (validateKey_error refused)).ne, rfl⟩
  · next checkedKey =>
      split
      · next refused => exact .inl ⟨(argumentErrors_negative (validateValue_error refused)).ne, rfl⟩
      · next checkedValue =>
          split
          · exact .inr ⟨rfl, _, _, (validateKey_eq_ok.mp checkedKey).1,
              (validateValue_eq_ok.mp checkedValue).1, rfl⟩
          · next failed => exact .inl ⟨failed, rfl⟩

/-- `kv_delete_internal` likewise. -/
theorem kvDeleteInternal_aof (store : Store) (key : Option CString) (env : CallEnv) (nth : Nat)
    : ((kvDeleteInternal store key env nth).1 ≠ kvOk
        ∧ (kvDeleteInternal store key env nth).2.aof = store.aof)
      ∨ (kvDeleteInternal store key env nth).1 = kvOk
        ∧ ∃ validKey, key = some validKey
          ∧ (kvDeleteInternal store key env nth).2.aof
            = store.aof.appendFragments env (keyFragments .delete validKey) nth := by
  simp only [kvDeleteInternal]
  split
  · exact .inl ⟨show kvErrInvalidParam ≠ kvOk by decide, rfl⟩
  · next checkedKey =>
      split
      · exact .inl ⟨show kvErrNotFound ≠ kvOk by decide, rfl⟩
      · exact .inr ⟨rfl, _, (validateKey_eq_ok.mp checkedKey).1, rfl⟩

theorem kvSetInternal_failed {store : Store} {env : CallEnv} {key value : Option CString}
    (failed : (kvSetInternal store key value env).1 ≠ kvOk)
    : (kvSetInternal store key value env).2.aof = store.aof := by
  rcases kvSetInternal_aof store key value env with ⟨_, same⟩ | ⟨ok, _⟩
  · exact same
  · contradiction

theorem kvDeleteInternal_failed {store : Store} {env : CallEnv} {key : Option CString} {nth : Nat}
    (failed : (kvDeleteInternal store key env nth).1 ≠ kvOk)
    : (kvDeleteInternal store key env nth).2.aof = store.aof := by
  rcases kvDeleteInternal_aof store key env nth with ⟨_, same⟩ | ⟨ok, _⟩
  · exact same
  · contradiction

theorem kvSetInternal_stream (store : Store) (key value : Option CString) (env : CallEnv)
    : (kvSetInternal store key value env).2.aof.fp = store.aof.fp
      ∧ (kvSetInternal store key value env).2.aof.log = store.aof.log
      ∧ (kvSetInternal store key value env).2.aof.broadcasts = store.aof.broadcasts := by
  rcases kvSetInternal_aof store key value env with ⟨_, same⟩ | ⟨_, _, _, _, _, appended⟩
  · rw [same]
    exact ⟨rfl, rfl, rfl⟩
  · rw [appended]
    exact Aof.appendFragments_stream _ _ _ _

theorem kvDeleteInternal_stream (store : Store) (key : Option CString) (env : CallEnv)
    (nth : Nat)
    : (kvDeleteInternal store key env nth).2.aof.fp = store.aof.fp
      ∧ (kvDeleteInternal store key env nth).2.aof.log = store.aof.log
      ∧ (kvDeleteInternal store key env nth).2.aof.broadcasts = store.aof.broadcasts := by
  rcases kvDeleteInternal_aof store key env nth with ⟨_, same⟩ | ⟨_, _, _, appended⟩
  · rw [same]
    exact ⟨rfl, rfl, rfl⟩
  · rw [appended]
    exact Aof.appendFragments_stream _ _ _ _

namespace Aof.Stable

variable {Property : Aof → Prop} {store : Store} {aof : Aof} {env : CallEnv}

theorem appendFragments (stable : Aof.Stable Property) (fragments : List (List UInt8)) (nth : Nat)
    (holds : Property aof)
    : Property (aof.appendFragments env fragments nth) := by
  induction fragments generalizing aof nth with
  | nil => exact holds
  | cons data rest ih => exact ih _ (stable.append aof data _ holds)

theorem logAfter (stable : Aof.Stable Property) (record : List UInt8) (holds : Property aof)
    : Property (aof.logAfter record env) := by
  rw [Aof.logAfter]
  split
  · exact holds
  · exact stable.write aof record env.io holds

theorem kvSetInternal (stable : Aof.Stable Property) (key value : Option CString)
    (holds : Property store.aof)
    : Property (kvSetInternal store key value env).2.aof := by
  rcases kvSetInternal_aof store key value env with ⟨_, same⟩ | ⟨_, _, _, _, _, appended⟩
  · rw [same]
    exact holds
  · rw [appended]
    exact stable.appendFragments _ _ holds

theorem kvDeleteInternal (stable : Aof.Stable Property) (key : Option CString) (nth : Nat)
    (holds : Property store.aof)
    : Property (kvDeleteInternal store key env nth).2.aof := by
  rcases kvDeleteInternal_aof store key env nth with ⟨_, same⟩ | ⟨_, _, _, appended⟩
  · rw [same]
    exact holds
  · rw [appended]
    exact stable.appendFragments _ _ holds

theorem kvSet (stable : Aof.Stable Property) (key value : Option CString)
    (holds : Property store.aof)
    : Property (kvSet store key value env).2.aof := by
  simp only [MiniKv.kvSet]
  split
  · exact holds
  · split
    · exact holds
    · split
      · exact @kvSetInternal _ ⟨_, _⟩ env stable key value holds
      · have logged := fun record => stable.write store.aof record env.io holds
        split
        · exact logged _
        · split
          · exact stable.rollback _ _ (@kvSetInternal _ ⟨_, _⟩ env stable key value (logged _))
          · exact @kvSetInternal _ ⟨_, _⟩ env stable key value (logged _)

theorem kvDelete (stable : Aof.Stable Property) (key : Option CString)
    (holds : Property store.aof)
    : Property (kvDelete store key env).2.aof := by
  simp only [MiniKv.kvDelete]
  split
  · exact holds
  · split
    · exact stable.kvDeleteInternal key 0 holds
    · have logged := fun record => stable.write store.aof record env.io holds
      split
      · exact logged _
      · split
        · exact stable.rollback _ _ (@kvDeleteInternal _ ⟨_, _⟩ env stable key 0 (logged _))
        · exact @kvDeleteInternal _ ⟨_, _⟩ env stable key 0 (logged _)

theorem kvLpush (stable : Aof.Stable Property) (key value : Option CString)
    (holds : Property store.aof)
    : Property (kvLpush store key value env).2.aof := by
  simp only [MiniKv.kvLpush]
  split
  · exact holds
  · exact holds
  · split
    · exact holds
    · exact holds
    · split
      · exact stable.appendFragments _ _ (stable.logAfter _ holds)
      · exact holds

theorem kvSadd (stable : Aof.Stable Property) (key value : Option CString)
    (holds : Property store.aof)
    : Property (kvSadd store key value env).2.aof := by
  simp only [MiniKv.kvSadd]
  split
  · exact holds
  · exact holds
  · split
    · exact holds
    · exact holds
    · split
      · exact stable.appendFragments _ _ (stable.logAfter _ holds)
      · exact holds

theorem kvRpop (stable : Aof.Stable Property) (key : Option CString)
    (holds : Property store.aof)
    : Property (kvRpop store key env).2.aof := by
  have recorded := fun record fragments => @appendFragments Property _ env stable fragments 0
    (@logAfter Property store.aof env stable record holds)
  simp only [MiniKv.kvRpop]
  split
  · exact holds
  · split
    · exact holds
    · split
      · split
        · exact holds
        · split_ifs
          · exact holds
          · exact holds
          · exact @kvDeleteInternal _ ⟨_, _⟩ env stable _ 3 (recorded _ _)
          · exact recorded _ _
      · exact holds

theorem kvSrem (stable : Aof.Stable Property) (key value : Option CString)
    (holds : Property store.aof)
    : Property (kvSrem store key value env).2.aof := by
  have recorded := fun record fragments => @appendFragments Property _ env stable fragments 0
    (@logAfter Property store.aof env stable record holds)
  simp only [MiniKv.kvSrem]
  split
  · exact holds
  · exact holds
  · split
    · exact holds
    · split
      · split_ifs
        · exact holds
        · exact @kvDeleteInternal _ ⟨_, _⟩ env stable _ 5 (recorded _ _)
        · exact recorded _ _
        · exact holds
      · exact holds

theorem kvPexpireat (stable : Aof.Stable Property) (key : Option CString) (unixMs : Int64)
    (holds : Property store.aof)
    : Property (kvPexpireat store key unixMs env).2.aof := by
  simp only [MiniKv.kvPexpireat]
  split
  · exact holds
  · split
    · exact holds
    · exact stable.appendFragments _ _ (stable.write _ _ _ holds)

theorem kvPersist (stable : Aof.Stable Property) (key : Option CString)
    (holds : Property store.aof)
    : Property (kvPersist store key env).2.aof := by
  simp only [MiniKv.kvPersist]
  split
  · exact holds
  · split
    · exact holds
    · split
      · exact holds
      · exact stable.appendFragments _ _ (stable.write _ _ _ holds)

end Aof.Stable

variable {Property : Aof → Prop} {store : Store} {env : CallEnv}

theorem kvPttl_aof (key : Option CString) : (kvPttl store key env).2.aof = store.aof := by
  simp only [kvPttl]
  split
  · rfl
  · split
    · rfl
    · split <;> rfl

/-- Reads and resizing do not touch the append-only file. -/
theorem Op.call_aof {op : Op} (reads : op.mutates = false)
    : (op.call env store).2.aof = store.aof := by
  cases op with
  | get key =>
      simp only [Op.call, Prod.map_snd, id_eq, kvGet]
      split
      · rfl
      · split <;> rfl
  | exist key =>
      simp only [Op.call, Prod.map_snd, id_eq, kvExists]
      split <;> rfl
  | llen key =>
      simp only [Op.call, Prod.map_snd, id_eq, kvLlen]
      split
      · rfl
      · split <;> rfl
  | scard key =>
      simp only [Op.call, Prod.map_snd, id_eq, kvScard]
      split
      · rfl
      · split <;> rfl
  | smembers key =>
      simp only [Op.call, Prod.map_snd, id_eq, kvSmembers]
      split
      · rfl
      · split
        · split_ifs <;> rfl
        · rfl
  | pttl key => exact kvPttl_aof key
  | ttl key =>
      simp only [Op.call, Prod.map_snd, id_eq, kvTtl]
      split_ifs
      · exact kvPttl_aof key
      · exact kvPttl_aof key
  | resize newBucketCount => rfl
  | _ => contradiction

/-- Every operation keeps a stable property of the append-only file. -/
theorem Op.call_stable (op : Op) (stable : Aof.Stable Property) (holds : Property store.aof)
    : Property (op.call env store).2.aof := by
  cases op with
  | set key value => exact stable.kvSet key value holds
  | delete key => exact stable.kvDelete key holds
  | lpush key value => exact stable.kvLpush key value holds
  | rpop key => exact stable.kvRpop key holds
  | sadd key value => exact stable.kvSadd key value holds
  | srem key value => exact stable.kvSrem key value holds
  | pexpireat key unixMs => exact stable.kvPexpireat key unixMs holds
  | expire key seconds => exact stable.kvPexpireat key _ holds
  | pexpire key milliseconds => exact stable.kvPexpireat key _ holds
  | persist key => exact stable.kvPersist key holds
  | _ =>
      rw [Op.call_aof rfl]
      exact holds

theorem applyRecord_stable (stable : Aof.Stable Property) (record : Record)
    (holds : Property store.aof)
    : Property (applyRecord store record env).aof := by
  cases record with
  | set key value => exact stable.kvSetInternal _ _ holds
  | delete key => exact stable.kvDeleteInternal _ 0 holds
  | lpush key value => exact stable.kvLpush _ _ holds
  | rpop key => exact stable.kvRpop _ holds
  | sadd key value => exact stable.kvSadd _ _ holds
  | srem key value => exact stable.kvSrem _ _ holds
  | pexpireat key expireAtMs => exact holds

theorem replayLines_stable (stable : Aof.Stable Property) (envs : Nat → CallEnv)
    (lines : List (List UInt8)) (nth : Nat) (holds : Property store.aof)
    : Property (replayLines envs lines nth store).aof :=
  @replayLines_keeps (fun store => Property store.aof) envs
    (fun _ _ record _ _ holds => applyRecord_stable stable record holds) lines nth store holds

end MiniKv
