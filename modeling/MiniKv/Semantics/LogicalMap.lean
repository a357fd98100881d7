import MiniKv.Foundations.FiniteMaps
import MiniKv.Store.Calls

/-! The logical map of a store and the machine that operates on it directly.
Buckets, chains, links, counters and access times are gone; what stays is which key is bound to
which value until when, what a call answers, and which records it leaves behind.
-/

namespace MiniKv

open MiniKv.Foundations.FiniteMaps

-- The map

/-- A value: a string, a list from its head, or a finite set. -/
inductive Content where
  | string (value : CString)
  | list (items : List CString)
  | set (members : Finset CString)
deriving DecidableEq

/-- The string of a content, if it is one. -/
def Content.text : Content → Option CString
  | .string value => some value
  | _ => none

/-- A value with its deadline; zero means none. -/
structure Binding where
  content : Content
  expireAt : Int64
deriving DecidableEq

abbrev LogicalMap := Finmap (fun _ : CString => Binding)

def Payload.content : Payload → Content
  | .string value => .string value
  | .list links => .list links.toList
  | .set chains => .set chains.members.toFinset

def Entry.binding (entry : Entry) : Binding :=
  { content := entry.value.content, expireAt := entry.expireAtMs }

/-- The logical map of a table. -/
def Table.logical (table : Table) : LogicalMap :=
  tabulate Entry.key Entry.binding table.entries

/-- A binding whose deadline has passed. -/
def Binding.isExpired (binding : Binding) (now : Int64) : Bool :=
  0 < binding.expireAt && binding.expireAt ≤ now

namespace LogicalMap

/-- A lookup takes an expired binding away. -/
def expire (map : LogicalMap) (now : Int64) (key : CString) : LogicalMap :=
  match map.lookup key with
  | some binding => if binding.isExpired now then map.erase key else map
  | none => map

/-- No further key may be created; a capacity of zero is no limit. -/
def full (map : LogicalMap) (capacity : Nat) : Bool :=
  0 < capacity && capacity ≤ map.keys.card

theorem full_zero (map : LogicalMap) : full map 0 = false := by
  simp [full]

/-- What can be seen under a key at some time. -/
def visible (map : LogicalMap) (now : Int64) (key : CString) : Option Content :=
  ((map.lookup key).filter (fun binding => !binding.isExpired now)).map Binding.content

end LogicalMap

-- What a call does to the map

/-- The answer to a call, the map it leaves, and the records it appends to the log and to a
running rewrite's buffer.
-/
structure Outcome where
  reply : Reply (Multiset CString)
  map : LogicalMap
  logged : List Record
  buffered : List Record

/-- A call that leaves no record. -/
def Outcome.silent (reply : Reply (Multiset CString)) (map : LogicalMap) : Outcome :=
  { reply, map, logged := [], buffered := [] }

/-- A call that leaves one record in the log and in the buffer. -/
def Outcome.recorded (reply : Reply (Multiset CString)) (map : LogicalMap) (record : Record)
    : Outcome :=
  { reply, map, logged := [record], buffered := [record] }

namespace LogicalMap

/-- Writing a string. A binding that is still there keeps its deadline, passed or not. -/
def set (map : LogicalMap) (capacity : Nat) (key value : CString) : Outcome :=
  match map.lookup key with
  | some ⟨.string _, expireAt⟩ =>
      .recorded (.status kvOk) (map.insert key ⟨.string value, expireAt⟩) (.set key value)
  | some _ => .silent (.status kvErrWrongType) map
  | none =>
      if full map capacity then .silent (.status kvErrCapacityFull) map
      else .recorded (.status kvOk) (map.insert key ⟨.string value, 0⟩) (.set key value)

/-- Deleting a key, expired or not. -/
def delete (map : LogicalMap) (key : CString) : Outcome :=
  match map.lookup key with
  | some _ => .recorded (.status kvOk) (map.erase key) (.delete key)
  | none => .silent (.status kvErrNotFound) map

/-- Pushing a value in front of a list. -/
def lpush (map : LogicalMap) (capacity : Nat) (now : Int64) (key value : CString)
    : Outcome :=
  let map := expire map now key
  match map.lookup key with
  | some ⟨.list items, expireAt⟩ =>
      .recorded (.status (toCInt (items.length + 1)))
        (map.insert key ⟨.list (value :: items), expireAt⟩) (.lpush key value)
  | some _ => .silent (.status kvErrWrongType) map
  | none =>
      if full map capacity then .silent (.status kvErrCapacityFull) map
      else
        .recorded (.status (toCInt 1)) (map.insert key ⟨.list [value], 0⟩) (.lpush key value)

/-- Taking the last value of a list. The emptied list disappears, for which the rewrite buffer
gets a record of its own.
-/
def rpop (map : LogicalMap) (now : Int64) (key : CString) : Outcome :=
  let map := expire map now key
  match map.lookup key with
  | some ⟨.list items, expireAt⟩ =>
      match items.getLast? with
      | some value =>
          if items.dropLast = [] then
            { reply := .popped kvOk (some value)
              map := map.erase key
              logged := [.rpop key]
              buffered := [.rpop key, .delete key] }
          else
            .recorded (.popped kvOk (some value))
              (map.insert key ⟨.list items.dropLast, expireAt⟩) (.rpop key)
      | none => .silent (.popped kvErrNotFound none) map
  | some _ => .silent (.popped kvErrWrongType none) map
  | none => .silent (.popped kvErrNotFound none) map

/-- Adding a member to a set. -/
def sadd (map : LogicalMap) (capacity : Nat) (now : Int64) (key value : CString)
    : Outcome :=
  let map := expire map now key
  match map.lookup key with
  | some ⟨.set members, expireAt⟩ =>
      if value ∈ members then .silent (.status 0) map
      else
        .recorded (.status 1) (map.insert key ⟨.set (insert value members), expireAt⟩)
          (.sadd key value)
  | some _ => .silent (.status kvErrWrongType) map
  | none =>
      if full map capacity then .silent (.status kvErrCapacityFull) map
      else .recorded (.status 1) (map.insert key ⟨.set {value}, 0⟩) (.sadd key value)

/-- Removing a member of a set. The emptied set disappears like an emptied list. -/
def srem (map : LogicalMap) (now : Int64) (key value : CString) : Outcome :=
  let map := expire map now key
  match map.lookup key with
  | some ⟨.set members, expireAt⟩ =>
      if value ∈ members then
        if members.erase value = ∅ then
          { reply := .status 1
            map := map.erase key
            logged := [.srem key value]
            buffered := [.srem key value, .delete key] }
        else
          .recorded (.status 1) (map.insert key ⟨.set (members.erase value), expireAt⟩)
            (.srem key value)
      else .silent (.status 0) map
  | some _ => .silent (.status kvErrWrongType) map
  | none => .silent (.status 0) map

/-- Changing the deadline of a binding, if there is one. -/
def setDeadline (map : LogicalMap) (key : CString) (expireAt : Int64) : LogicalMap :=
  match map.lookup key with
  | some binding => map.insert key { binding with expireAt }
  | none => map

/-- Setting a deadline. -/
def pexpireat (map : LogicalMap) (now : Int64) (key : CString) (unixMs : Int64)
    : Outcome :=
  let map := expire map now key
  match map.lookup key with
  | some _ => .recorded (.status 1) (setDeadline map key unixMs) (.pexpireat key unixMs)
  | none => .silent (.status 0) map

/-- Taking a deadline away. -/
def persist (map : LogicalMap) (now : Int64) (key : CString) : Outcome :=
  let map := expire map now key
  match map.lookup key with
  | some binding =>
      if binding.expireAt = 0 then .silent (.status 0) map
      else .recorded (.status 1) (setDeadline map key 0) (.pexpireat key 0)
  | none => .silent (.status 0) map

/-- The time a binding has left. -/
def pttl (map : LogicalMap) (now : Int64) (key : CString) : Int64 :=
  match (expire map now key).lookup key with
  | some binding =>
      if binding.expireAt = 0 then -1
      else if binding.expireAt - now < 0 then 0
      else binding.expireAt - now
  | none => -2

/-- Reading a map: the answer depends on the live binding of the key, and an expired one is
taken away.
-/
def read (map : LogicalMap) (now : Int64) (key : CString)
    (answer : Option Binding → Reply (Multiset CString))
    : Outcome :=
  .silent (answer ((expire map now key).lookup key)) (expire map now key)

end LogicalMap

-- The logical machine

/-- Rounding a remaining time up to seconds. -/
def ceilSeconds (milliseconds : Int64) : Int64 :=
  if milliseconds < 0 then milliseconds else (milliseconds + 999) / 1000

/-- Whether a record fits the formatting buffer of the log writer. -/
def Record.fits (record : Record) : Bool :=
  record.bytes.length < aofRecordBufSize

/-- One operation on the logical map. `logging` says whether a log is open: then a string whose
record is too long for it is refused.
-/
def Op.outcome (op : Op) (capacity : Nat) (logging : Bool) (now : Int64) (map : LogicalMap)
    : Outcome :=
  match op with
  | .set key value =>
      match validateKey key, validateValue value with
      | .error err, _ => .silent (.status err) map
      | .ok _, .error err => .silent (.status err) map
      | .ok key, .ok value =>
          if logging && !(Record.set key value).fits then .silent (.status kvErrIo) map
          else LogicalMap.set map capacity key value
  | .get none => .silent (.value none) map
  | .get (some key) =>
      LogicalMap.read map now key (fun found =>
        match found with
        | some ⟨.string value, _⟩ => .value (some value)
        | _ => .value none)
  | .delete key =>
      match validateKey key with
      | .error _ => .silent (.status kvErrInvalidParam) map
      | .ok key => LogicalMap.delete map key
  | .exist none => .silent (.status 0) map
  | .exist (some key) =>
      LogicalMap.read map now key (fun found => .status (if found.isSome then 1 else 0))
  | .lpush (some key) (some value) =>
      match validateKey (some key), validateValue (some value) with
      | .error err, _ => .silent (.status err) map
      | .ok _, .error err => .silent (.status err) map
      | .ok key, .ok value => LogicalMap.lpush map capacity now key value
  | .lpush _ _ => .silent (.status kvErrInvalidParam) map
  | .rpop none => .silent (.popped kvErrInvalidParam none) map
  | .rpop (some key) => LogicalMap.rpop map now key
  | .llen none => .silent (.status kvErrInvalidParam) map
  | .llen (some key) =>
      LogicalMap.read map now key (fun found =>
        match found with
        | some ⟨.list items, _⟩ => .status (toCInt items.length)
        | some _ => .status kvErrWrongType
        | none => .status 0)
  | .sadd (some key) (some value) =>
      match validateKey (some key), validateValue (some value) with
      | .error err, _ => .silent (.status err) map
      | .ok _, .error err => .silent (.status err) map
      | .ok key, .ok value => LogicalMap.sadd map capacity now key value
  | .sadd _ _ => .silent (.status kvErrInvalidParam) map
  | .srem (some key) (some value) => LogicalMap.srem map now key value
  | .srem _ _ => .silent (.status kvErrInvalidParam) map
  | .scard none => .silent (.status kvErrInvalidParam) map
  | .scard (some key) =>
      LogicalMap.read map now key (fun found =>
        match found with
        | some ⟨.set members, _⟩ => .status (toCInt members.card)
        | some _ => .status kvErrWrongType
        | none => .status 0)
  | .smembers none => .silent (.members none 0) map
  | .smembers (some key) =>
      LogicalMap.read map now key (fun found =>
        match found with
        | some ⟨.set members, _⟩ =>
            if members = ∅ then .members none 0 else .members (some members.val) members.card
        | _ => .members none 0)
  | .pexpireat none _ => .silent (.status kvErrInvalidParam) map
  | .pexpireat (some key) unixMs => LogicalMap.pexpireat map now key unixMs
  | .expire none _ => .silent (.status kvErrInvalidParam) map
  | .expire (some key) seconds => LogicalMap.pexpireat map now key (now + seconds * 1000)
  | .pexpire none _ => .silent (.status kvErrInvalidParam) map
  | .pexpire (some key) milliseconds => LogicalMap.pexpireat map now key (now + milliseconds)
  | .pttl none => .silent (.remaining (-2)) map
  | .pttl (some key) =>
      .silent (.remaining (LogicalMap.pttl map now key)) (LogicalMap.expire map now key)
  | .ttl none => .silent (.remaining (-2)) map
  | .ttl (some key) =>
      .silent (.remaining (ceilSeconds (LogicalMap.pttl map now key)))
        (LogicalMap.expire map now key)
  | .persist none => .silent (.status kvErrInvalidParam) map
  | .persist (some key) => LogicalMap.persist map now key
  | .resize newBucketCount =>
      .silent (.status (if newBucketCount = 0 then kvErrInvalidParam else kvOk)) map

/-- Applying one record of a log to the logical map. -/
def Record.apply (record : Record) (capacity : Nat) (now : Int64) (map : LogicalMap)
    : LogicalMap :=
  match record with
  | .set key value => (LogicalMap.set map capacity key value).map
  | .delete key => (LogicalMap.delete map key).map
  | .lpush key value => (LogicalMap.lpush map capacity now key value).map
  | .rpop key => (LogicalMap.rpop map now key).map
  | .sadd key value => (LogicalMap.sadd map capacity now key value).map
  | .srem key value => (LogicalMap.srem map now key value).map
  | .pexpireat key expireAtMs => LogicalMap.setDeadline map key expireAtMs

/-- Applying the records of a log one after another. -/
def applyRecords (capacity : Nat) (now : Int64) (records : List Record) (map : LogicalMap)
    : LogicalMap :=
  records.foldl (fun map record => record.apply capacity now map) map

end MiniKv
