import MiniKv.Store.Calls

/-! Operations as mutations: the record that stands for one, the reply by which a caller sees that
it took effect, and the pieces in which its record reaches the rewrite buffer.
-/

namespace MiniKv

open MiniKv.Foundations.Decimal

/-- The key an operation is about. -/
def Op.key : Op → Option CString
  | .set key _ | .get key | .delete key | .exist key | .lpush key _ | .rpop key | .llen key
  | .sadd key _ | .srem key _ | .scard key | .smembers key | .pexpireat key _ | .expire key _
  | .pexpire key _ | .pttl key | .ttl key | .persist key => key
  | .resize _ => none

/-- The record that stands for a call; a relative deadline is recorded as an absolute one. Reads
and resizing have none.
-/
def Op.record (now : Int64) : Op → Option Record
  | .set (some key) (some value) => some (.set key value)
  | .delete (some key) => some (.delete key)
  | .lpush (some key) (some value) => some (.lpush key value)
  | .rpop (some key) => some (.rpop key)
  | .sadd (some key) (some value) => some (.sadd key value)
  | .srem (some key) (some value) => some (.srem key value)
  | .pexpireat (some key) unixMs => some (.pexpireat key unixMs)
  | .expire (some key) seconds => some (.pexpireat key (now + seconds * 1000))
  | .pexpire (some key) milliseconds => some (.pexpireat key (now + milliseconds))
  | .persist (some key) => some (.pexpireat key 0)
  | _ => none

/-- The operations that may write a record. -/
def Op.mutates : Op → Bool
  | .set _ _ | .delete _ | .lpush _ _ | .rpop _ | .sadd _ _ | .srem _ _ => true
  | .pexpireat _ _ | .expire _ _ | .pexpire _ _ | .persist _ => true
  | _ => false

/-- The reply reports that the mutation took effect: `KV_OK`, the new length of a list, or the one
member, deadline or key that was changed.
-/
def Op.succeeded : Op → Reply (List CString) → Bool
  | .set _ _, .status code => code = kvOk
  | .delete _, .status code => code = kvOk
  | .lpush _ _, .status length => 0 < length
  | .rpop _, .popped code _ => code = kvOk
  | .sadd _ _, .status added => added = 1
  | .srem _ _, .status removed => removed = 1
  | .pexpireat _ _, .status changed => changed = 1
  | .expire _ _, .status changed => changed = 1
  | .pexpire _ _, .status changed => changed = 1
  | .persist _, .status changed => changed = 1
  | _, _ => false

/-- The pieces of the record of a call, one for each `append_aof_rewrite_buffer`. -/
def Op.fragments (now : Int64) : Op → List (List UInt8)
  | .set (some key) (some value) => valueFragments .set key value.bytes
  | .delete (some key) => keyFragments .delete key
  | .lpush (some key) (some value) => valueFragments .lpush key value.bytes
  | .rpop (some key) => keyFragments .rpop key
  | .sadd (some key) (some value) => valueFragments .sadd key value.bytes
  | .srem (some key) (some value) => valueFragments .srem key value.bytes
  | .pexpireat (some key) unixMs => valueFragments .pexpireat key (decimalInt unixMs.toInt)
  | .expire (some key) seconds =>
      valueFragments .pexpireat key (decimalInt (now + seconds * 1000).toInt)
  | .pexpire (some key) milliseconds =>
      valueFragments .pexpireat key (decimalInt (now + milliseconds).toInt)
  | .persist (some key) => [Command.pexpireat.word ++ [tab], key.bytes, [tab, 48, lf]]
  | _ => []

/-- The key whose entry the call also deletes, since it takes the last element out. -/
def Op.emptied (table : Table) : Op → Option CString
  | .rpop (some key) =>
      match table.lookup key with
      | some { value := .list links, .. } => if links.count = 1 then some key else none
      | _ => none
  | .srem (some key) _ =>
      match table.lookup key with
      | some { value := .set chains, .. } => if chains.count = 1 then some key else none
      | _ => none
  | _ => none

/-- What a call that took effect appends to the rewrite buffer: its own record, and the record of
`kv_delete_internal` when that deletes an emptied container.
-/
def Op.appends (now : Int64) (table : Table) (op : Op) : List (List UInt8) :=
  op.fragments now ++ ((op.emptied table).map (keyFragments .delete)).getD []

/-- Joined, the pieces are the line of the record. -/
theorem Op.fragments_flatten {op : Op} {now : Int64} {record : Record}
    (stands : op.record now = some record)
    : (op.fragments now).flatten = record.bytes := by
  have zero : decimalInt 0 = [48] := by decide
  unfold Op.record at stands
  split at stands <;> cases stands <;>
    simp [Op.fragments, keyFragments, valueFragments, Record.bytes, formatRecord, zero]

end MiniKv
