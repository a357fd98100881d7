import MiniKv.Persistence.Codec
import MiniKv.Semantics.LogicalMap

/-! What an operation of the logical machine leaves: no record and at most an expired binding less,
or one record of what it did. What holds of all operations is derived from this.
-/

namespace MiniKv

-- Deadlines

/-- A deadline that has not passed later has not passed yet. -/
theorem Binding.isExpired_of_le {binding : Binding} {now later : Int64} (before : now ≤ later)
    (unexpired : binding.isExpired later = false)
    : binding.isExpired now = false := by
  simp only [Binding.isExpired, Bool.and_eq_false_iff, decide_eq_false_iff_not] at unexpired ⊢
  rcases unexpired with none | ahead
  · exact .inl none
  · exact .inr (fun passed => ahead (Int64.le_trans passed before))

theorem Binding.isExpired_of_deadline {content : Content} {expireAt now : Int64}
    (deadline : expireAt = 0 ∨ now < expireAt)
    : (Binding.mk content expireAt).isExpired now = false := by
  rcases deadline with rfl | ahead
  · simp [Binding.isExpired]
  · simp [Binding.isExpired, Int64.not_le.mpr ahead]

theorem Binding.isExpired_mono {binding : Binding} {now later : Int64} (before : now ≤ later)
    (expired : binding.isExpired now = true)
    : binding.isExpired later = true := by
  cases still : binding.isExpired later with
  | true => rfl
  | false =>
      rw [Binding.isExpired_of_le before still] at expired
      exact expired

namespace LogicalMap

variable {map : LogicalMap} {now : Int64} {key : CString} {binding : Binding}

theorem expire_of_lookup_none (now : Int64) (unbound : map.lookup key = none)
    : LogicalMap.expire map now key = map := by
  rw [LogicalMap.expire, unbound]

theorem expire_of_expired (found : map.lookup key = some binding)
    (expired : binding.isExpired now = true)
    : LogicalMap.expire map now key = map.erase key := by
  simp only [LogicalMap.expire, found, expired, if_true]

theorem expire_of_live (found : map.lookup key = some binding)
    (live : binding.isExpired now = false)
    : LogicalMap.expire map now key = map := by
  simp only [LogicalMap.expire, found, live, Bool.false_eq_true, if_false]

theorem expire_cases (map : LogicalMap) (now : Int64) (key : CString)
    : (map.lookup key = none ∧ LogicalMap.expire map now key = map)
      ∨ (∃ binding, map.lookup key = some binding ∧ binding.isExpired now = true
        ∧ LogicalMap.expire map now key = map.erase key)
      ∨ ∃ binding, map.lookup key = some binding ∧ binding.isExpired now = false
        ∧ LogicalMap.expire map now key = map := by
  cases found : map.lookup key with
  | none => exact .inl ⟨rfl, expire_of_lookup_none now found⟩
  | some binding =>
      cases expired : binding.isExpired now with
      | true => exact .inr (.inl ⟨binding, rfl, expired, expire_of_expired found expired⟩)
      | false => exact .inr (.inr ⟨binding, rfl, expired, expire_of_live found expired⟩)

theorem lookup_expire_ne {other : CString} (now : Int64) (different : other ≠ key)
    : (LogicalMap.expire map now key).lookup other = map.lookup other := by
  rcases expire_cases map now key with ⟨_, same⟩ | ⟨_, _, _, gone⟩ | ⟨_, _, _, same⟩
  · rw [same]
  · rw [gone, Finmap.lookup_erase_ne different]
  · rw [same]

/-- A binding that survives a lookup was there, and it is not expired. -/
theorem lookup_expire (bound : (LogicalMap.expire map now key).lookup key = some binding)
    : map.lookup key = some binding ∧ binding.isExpired now = false := by
  rcases expire_cases map now key with
    ⟨found, same⟩ | ⟨_, _, _, gone⟩ | ⟨other, found, live, same⟩
  · rw [same, found] at bound
    contradiction
  · rw [gone, Finmap.lookup_erase] at bound
    contradiction
  · rw [same, found] at bound
    obtain rfl := Option.some.inj bound
    exact ⟨found, live⟩

end LogicalMap

-- What an operation is given

/-- The deadline an operation asks for. -/
def Op.deadline (op : Op) (now : Int64) : Option Int64 :=
  match op with
  | .pexpireat _ unixMs => some unixMs
  | .expire _ seconds => some (now + seconds * 1000)
  | .pexpire _ milliseconds => some (now + milliseconds)
  | _ => none

/-- The value argument of an operation. -/
def Op.value : Op → Option CString
  | .set _ value | .lpush _ value | .sadd _ value | .srem _ value => value
  | _ => none

/-- Every string of a value has a property. -/
def Content.All (property : CString → Prop) : Content → Prop
  | .string value => property value
  | .list items => ∀ item ∈ items, property item
  | .set members => ∀ member ∈ members, property member

instance {property : CString → Prop} [DecidablePred property]
    : DecidablePred (Content.All property) :=
  fun content =>
    match content with
    | .string value => inferInstanceAs (Decidable (property value))
    | .list items => inferInstanceAs (Decidable (∀ item ∈ items, property item))
    | .set members => inferInstanceAs (Decidable (∀ member ∈ members, property member))

/-- A map with valid keys and valid values only. -/
structure LogicalMap.Valid (map : LogicalMap) : Prop where
  keys : ∀ key binding, map.lookup key = some binding → ValidKey key
  values : ∀ key binding, map.lookup key = some binding → binding.content.All ValidValue

-- What it leaves

/-- The call that logs a record found what the record needs. -/
def Record.Took (record : Record) (capacity : Nat) (now : Int64) (map : LogicalMap) : Prop :=
  match record with
  | .set key _ =>
      (map.lookup key = none ∧ LogicalMap.full map capacity = false)
        ∨ ∃ old expireAt, map.lookup key = some ⟨.string old, expireAt⟩
  | .delete key => ∃ binding, map.lookup key = some binding
  | .lpush key _ =>
      ((LogicalMap.expire map now key).lookup key = none
          ∧ LogicalMap.full (LogicalMap.expire map now key) capacity = false)
        ∨ ∃ items expireAt,
            (LogicalMap.expire map now key).lookup key = some ⟨.list items, expireAt⟩
  | .rpop key =>
      ∃ items expireAt value,
        (LogicalMap.expire map now key).lookup key = some ⟨.list items, expireAt⟩
          ∧ items.getLast? = some value
  | .sadd key value =>
      ((LogicalMap.expire map now key).lookup key = none
          ∧ LogicalMap.full (LogicalMap.expire map now key) capacity = false)
        ∨ ∃ members expireAt,
            (LogicalMap.expire map now key).lookup key = some ⟨.set members, expireAt⟩
              ∧ value ∉ members
  | .srem key value =>
      ∃ members expireAt,
        (LogicalMap.expire map now key).lookup key = some ⟨.set members, expireAt⟩
          ∧ value ∈ members
  | .pexpireat key _ => ∃ binding, (LogicalMap.expire map now key).lookup key = some binding

/-- A record that an operation may leave: its value is the one that was given, its deadline is none
or the one that was asked for, and it is about a valid key, or about one of the map.
-/
structure Op.Asks (op : Op) (now : Int64) (map : LogicalMap) (record : Record) : Prop where
  key : map.Valid → ValidKey record.key
  value : ∀ value, record.value = some value →
    op.value = some value ∧ (map.Valid → ValidValue value)
  deadline : ∀ key expireAt, record = .pexpireat key expireAt →
    expireAt = 0 ∨ op.deadline now = some expireAt

/-- One record in the log and in the buffer, which gets a second one for a key that is gone. -/
def Outcome.Records (outcome : Outcome) (record : Record) : Prop :=
  outcome.logged = [record]
    ∧ (outcome.buffered = [record]
      ∨ (outcome.buffered = [record, .delete record.key]
        ∧ outcome.map.lookup record.key = none))

/-- No record and at most an expired binding less, or one record of what was done. -/
inductive Op.Leaves (op : Op) (capacity : Nat) (now : Int64) (map : LogicalMap) (outcome : Outcome)
    : Prop where
  | silent (logged : outcome.logged = []) (buffered : outcome.buffered = [])
      (map : outcome.map = map ∨ ∃ key, outcome.map = LogicalMap.expire map now key)
  | recorded {record : Record} (asks : op.Asks now map record)
      (took : record.Took capacity now map) (records : outcome.Records record)
      (applied : outcome.map = record.apply capacity now map)

section

variable {op : Op} {map : LogicalMap} {capacity : Nat} {now : Int64} {key value : CString}
  {record : Record}

theorem Op.Asks.given (validKey : ValidKey record.key) (has : record.value = some value)
    (given : op.value = some value) (valid : ValidValue value)
    : op.Asks now map record where
  key _ := validKey
  value other held := by
    obtain rfl := Option.some.inj (has.symm.trans held)
    exact ⟨given, fun _ => valid⟩
  deadline := by
    rintro _ _ rfl
    cases has

theorem Op.Asks.bound {binding : Binding} (found : map.lookup record.key = some binding)
    (valueless : record.value = none)
    (deadline : ∀ key expireAt, record = .pexpireat key expireAt →
      expireAt = 0 ∨ op.deadline now = some expireAt)
    : op.Asks now map record where
  key valid := valid.keys _ _ found
  value _ held := absurd (valueless.symm.trans held) (by simp)
  deadline := deadline

theorem Op.Leaves.same (reply : Reply (Multiset CString))
    : op.Leaves capacity now map (.silent reply map) :=
  .silent rfl rfl (.inl rfl)

theorem Op.Leaves.looked (reply : Reply (Multiset CString)) (key : CString)
    : op.Leaves capacity now map (.silent reply (LogicalMap.expire map now key)) :=
  .silent rfl rfl (.inr ⟨key, rfl⟩)

namespace LogicalMap

theorem set_leaves (asks : op.Asks now map (.set key value))
    : op.Leaves capacity now map (LogicalMap.set map capacity key value) := by
  cases found : map.lookup key with
  | none =>
      cases limit : full map capacity with
      | true =>
          simp only [LogicalMap.set, found, limit, if_true]
          exact .same _
      | false =>
          refine .recorded asks (.inl ⟨found, limit⟩) ?_ rfl
          simp only [LogicalMap.set, found, limit, Bool.false_eq_true, if_false]
          exact ⟨rfl, .inl rfl⟩
  | some binding =>
      obtain ⟨content, expireAt⟩ := binding
      cases content with
      | string old =>
          refine .recorded asks (.inr ⟨old, expireAt, found⟩) ?_ rfl
          simp only [LogicalMap.set, found]
          exact ⟨rfl, .inl rfl⟩
      | _ =>
          simp only [LogicalMap.set, found]
          exact .same _

theorem delete_leaves (key : CString)
    : op.Leaves capacity now map (LogicalMap.delete map key) := by
  cases found : map.lookup key with
  | none =>
      simp only [LogicalMap.delete, found]
      exact .same _
  | some binding =>
      refine @Op.Leaves.recorded _ _ _ _ _ (.delete key) (.bound found rfl (by simp))
        ⟨binding, found⟩ ?_ rfl
      simp only [LogicalMap.delete, found]
      exact ⟨rfl, .inl rfl⟩

theorem lpush_leaves (asks : op.Asks now map (.lpush key value))
    : op.Leaves capacity now map (LogicalMap.lpush map capacity now key value) := by
  cases found : (LogicalMap.expire map now key).lookup key with
  | none =>
      cases limit : full (LogicalMap.expire map now key) capacity with
      | true =>
          simp only [LogicalMap.lpush, found, limit, if_true]
          exact .looked _ key
      | false =>
          refine .recorded asks (.inl ⟨found, limit⟩) ?_ rfl
          simp only [LogicalMap.lpush, found, limit, Bool.false_eq_true, if_false]
          exact ⟨rfl, .inl rfl⟩
  | some binding =>
      obtain ⟨content, expireAt⟩ := binding
      cases content with
      | list items =>
          refine .recorded asks (.inr ⟨items, expireAt, found⟩) ?_ rfl
          simp only [LogicalMap.lpush, found]
          exact ⟨rfl, .inl rfl⟩
      | _ =>
          simp only [LogicalMap.lpush, found]
          exact .looked _ key

theorem sadd_leaves (asks : op.Asks now map (.sadd key value))
    : op.Leaves capacity now map (LogicalMap.sadd map capacity now key value) := by
  cases found : (LogicalMap.expire map now key).lookup key with
  | none =>
      cases limit : full (LogicalMap.expire map now key) capacity with
      | true =>
          simp only [LogicalMap.sadd, found, limit, if_true]
          exact .looked _ key
      | false =>
          refine .recorded asks (.inl ⟨found, limit⟩) ?_ rfl
          simp only [LogicalMap.sadd, found, limit, Bool.false_eq_true, if_false]
          exact ⟨rfl, .inl rfl⟩
  | some binding =>
      obtain ⟨content, expireAt⟩ := binding
      cases content with
      | set members =>
          by_cases present : value ∈ members
          · simp only [LogicalMap.sadd, found, present, if_true]
            exact .looked _ key
          · refine .recorded asks (.inr ⟨members, expireAt, found, present⟩) ?_ rfl
            simp only [LogicalMap.sadd, found, present, if_false]
            exact ⟨rfl, .inl rfl⟩
      | _ =>
          simp only [LogicalMap.sadd, found]
          exact .looked _ key

theorem rpop_leaves (key : CString)
    : op.Leaves capacity now map (LogicalMap.rpop map now key) := by
  cases found : (LogicalMap.expire map now key).lookup key with
  | none =>
      simp only [LogicalMap.rpop, found]
      exact .looked _ key
  | some binding =>
      have stored := (lookup_expire found).1
      obtain ⟨content, expireAt⟩ := binding
      cases content with
      | list items =>
          cases last : items.getLast? with
          | none =>
              simp only [LogicalMap.rpop, found, last]
              exact .looked _ key
          | some value =>
              refine @Op.Leaves.recorded _ _ _ _ _ (.rpop key) (.bound stored rfl (by simp))
                ⟨items, expireAt, value, found, last⟩ ?_ rfl
              simp only [LogicalMap.rpop, found, last]
              split
              · exact ⟨rfl, .inr ⟨rfl, Finmap.lookup_erase ..⟩⟩
              · exact ⟨rfl, .inl rfl⟩
      | _ =>
          simp only [LogicalMap.rpop, found]
          exact .looked _ key

/-- Only a member is removed, and members are valid. -/
theorem srem_leaves (key : CString) (given : op.value = some value)
    : op.Leaves capacity now map (LogicalMap.srem map now key value) := by
  cases found : (LogicalMap.expire map now key).lookup key with
  | none =>
      simp only [LogicalMap.srem, found]
      exact .looked _ key
  | some binding =>
      have stored := (lookup_expire found).1
      obtain ⟨content, expireAt⟩ := binding
      cases content with
      | set members =>
          by_cases present : value ∈ members
          · have asks : op.Asks now map (.srem key value) := by
              refine ⟨fun valid => valid.keys _ _ stored, fun other held => ?_, by simp⟩
              obtain rfl := Option.some.inj held
              exact ⟨given, fun valid => valid.values _ _ stored value present⟩
            refine .recorded asks ⟨members, expireAt, found, present⟩ ?_ rfl
            simp only [LogicalMap.srem, found, present, if_true]
            split
            · exact ⟨rfl, .inr ⟨rfl, Finmap.lookup_erase ..⟩⟩
            · exact ⟨rfl, .inl rfl⟩
          · simp only [LogicalMap.srem, found, present, if_false]
            exact .looked _ key
      | _ =>
          simp only [LogicalMap.srem, found]
          exact .looked _ key

theorem pexpireat_leaves (key : CString) {unixMs : Int64}
    (asked : unixMs = 0 ∨ op.deadline now = some unixMs)
    : op.Leaves capacity now map (LogicalMap.pexpireat map now key unixMs) := by
  cases found : (LogicalMap.expire map now key).lookup key with
  | none =>
      simp only [LogicalMap.pexpireat, found]
      exact .looked _ key
  | some binding =>
      obtain ⟨stored, live⟩ := lookup_expire found
      refine @Op.Leaves.recorded _ _ _ _ _ (.pexpireat key unixMs) (.bound stored rfl ?_)
        ⟨binding, found⟩ ?_ ?_
      · rintro _ _ ⟨⟩
        exact asked
      · simp only [LogicalMap.pexpireat, found]
        exact ⟨rfl, .inl rfl⟩
      · simp only [LogicalMap.pexpireat, expire_of_live stored live, stored, Outcome.recorded,
          Record.apply]

theorem persist_leaves (key : CString)
    : op.Leaves capacity now map (LogicalMap.persist map now key) := by
  cases found : (LogicalMap.expire map now key).lookup key with
  | none =>
      simp only [LogicalMap.persist, found]
      exact .looked _ key
  | some binding =>
      by_cases persistent : binding.expireAt = 0
      · simp only [LogicalMap.persist, found, persistent, if_true]
        exact .looked _ key
      · have same : LogicalMap.persist map now key = LogicalMap.pexpireat map now key 0 := by
          simp only [LogicalMap.persist, LogicalMap.pexpireat, found, persistent, if_false]
        rw [same]
        exact pexpireat_leaves key (.inl rfl)

end LogicalMap

/-- By cases on the operation and its checks. -/
theorem Op.outcome_leaves (op : Op) (capacity : Nat) (logging : Bool) (now : Int64)
    (map : LogicalMap)
    : op.Leaves capacity now map (op.outcome capacity logging now map) := by
  cases op with
  | set key value =>
      simp only [Op.outcome]
      cases checkedKey : validateKey key with
      | error err => exact .same _
      | ok key =>
          cases checkedValue : validateValue value with
          | error err => exact .same _
          | ok value =>
              obtain ⟨given, validValue⟩ := validateValue_eq_ok.mp checkedValue
              simp only
              split
              · exact .same _
              · exact LogicalMap.set_leaves
                  (.given (validateKey_eq_ok.mp checkedKey).2 rfl given validValue)
  | delete key =>
      simp only [Op.outcome]
      cases validateKey key with
      | error err => exact .same _
      | ok key => exact LogicalMap.delete_leaves key
  | lpush key value =>
      cases key with
      | none => exact .same _
      | some key =>
          cases value with
          | none => exact .same _
          | some value =>
              simp only [Op.outcome]
              cases checkedKey : validateKey (some key) with
              | error err => exact .same _
              | ok key =>
                  cases checkedValue : validateValue (some value) with
                  | error err => exact .same _
                  | ok value =>
                      obtain ⟨given, validValue⟩ := validateValue_eq_ok.mp checkedValue
                      exact LogicalMap.lpush_leaves
                        (.given (validateKey_eq_ok.mp checkedKey).2 rfl given validValue)
  | sadd key value =>
      cases key with
      | none => exact .same _
      | some key =>
          cases value with
          | none => exact .same _
          | some value =>
              simp only [Op.outcome]
              cases checkedKey : validateKey (some key) with
              | error err => exact .same _
              | ok key =>
                  cases checkedValue : validateValue (some value) with
                  | error err => exact .same _
                  | ok value =>
                      obtain ⟨given, validValue⟩ := validateValue_eq_ok.mp checkedValue
                      exact LogicalMap.sadd_leaves
                        (.given (validateKey_eq_ok.mp checkedKey).2 rfl given validValue)
  | srem key value =>
      cases key with
      | none => exact .same _
      | some key =>
          cases value with
          | none => exact .same _
          | some value => exact LogicalMap.srem_leaves key rfl
  | rpop key =>
      cases key with
      | none => exact .same _
      | some key => exact LogicalMap.rpop_leaves key
  | pexpireat key _ | expire key _ | pexpire key _ =>
      cases key with
      | none => exact .same _
      | some key => exact LogicalMap.pexpireat_leaves key (.inr rfl)
  | persist key =>
      cases key with
      | none => exact .same _
      | some key => exact LogicalMap.persist_leaves key
  | resize newBucketCount => exact .same _
  | get key | exist key | llen key | scard key | smembers key | pttl key | ttl key =>
      cases key with
      | none => exact .same _
      | some key => exact .looked _ key

end

end MiniKv
