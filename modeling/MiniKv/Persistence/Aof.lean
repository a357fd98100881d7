import MiniKv.Store.Types

/-! The append-only file: formatting and appending records, undoing an append, and the buffer
that collects mutations while a rewrite is running.
-/

namespace MiniKv

/-- TAB, the field separator the writer uses. -/
def tab : UInt8 := 9

/-- LF, the record terminator. -/
def lf : UInt8 := 10

/-- CR. -/
def cr : UInt8 := 13

/-- The command words of the log. -/
inductive Command where
  | set
  | delete
  | lpush
  | rpop
  | sadd
  | srem
  | pexpireat
deriving DecidableEq

/-- A command word as it is written. -/
def Command.word : Command → List UInt8
  | .set => ascii ['S', 'E', 'T']
  | .delete => ascii ['D', 'E', 'L', 'E', 'T', 'E']
  | .lpush => ascii ['L', 'P', 'U', 'S', 'H']
  | .rpop => ascii ['R', 'P', 'O', 'P']
  | .sadd => ascii ['S', 'A', 'D', 'D']
  | .srem => ascii ['S', 'R', 'E', 'M']
  | .pexpireat => ascii ['P', 'E', 'X', 'P', 'I', 'R', 'E', 'A', 'T']

/-- The format strings `"CMD\t%s\n"` and `"CMD\t%s\t%s\n"`. -/
def formatRecord (command : Command) (arg1 : List UInt8) (arg2 : Option (List UInt8))
    : List UInt8 :=
  match arg2 with
  | some arg2 => command.word ++ tab :: arg1 ++ tab :: arg2 ++ [lf]
  | none => command.word ++ tab :: arg1 ++ [lf]

/-- The size of the formatting buffer of `write_aof_record`. -/
def aofRecordBufSize : Nat := 4096

/-- `write_aof_record`: the status, the position `ftell` reported before the write, and the
file state. A stream in append mode writes at the end of the file and then reports that end
as its position.
-/
def Aof.writeAofRecord (aof : Aof) (record : List UInt8) (io : IoOutcome)
    : Int × Option Nat × Aof :=
  let fits := record.length < aofRecordBufSize
  let aof := if fits then { aof with broadcasts := aof.broadcasts ++ [record] } else aof
  match aof.fp with
  | none => (kvOk, none, aof)
  | some pos =>
      let appended (written : List UInt8) : Aof :=
        { aof with
          log := aof.log ++ written
          fp := some (aof.log.length + written.length) }
      match io with
      | .refused => (kvErrIo, none, aof)
      | .ok => if fits then (kvOk, some pos, appended record) else (kvErrIo, some pos, aof)
      | .failed written =>
          if fits then (kvErrIo, some pos, appended (record.take written))
          else (kvErrIo, some pos, aof)

/-- `ftruncate`: cuts the file, or fills it up with NUL bytes. -/
def ftruncate (file : List UInt8) (length : Nat) : List UInt8 :=
  file.take length ++ List.replicate (length - file.length) 0

/-- `rollback_aof_record`: cuts the file back to a remembered position and seeks there. -/
def Aof.rollbackAofRecord (aof : Aof) (pos : Option Nat) : Aof :=
  match aof.fp, pos with
  | some _, some pos => { aof with log := ftruncate aof.log pos, fp := some pos }
  | _, _ => aof

theorem Aof.rollbackAofRecord_none (aof : Aof) : aof.rollbackAofRecord none = aof := by
  cases opened : aof.fp with
  | none => simp only [Aof.rollbackAofRecord, opened]
  | some pos => simp only [Aof.rollbackAofRecord, opened]

/-- The loop `while (len + n > cap) cap *= 2`. It does not return when `cap` is zero; from a
positive capacity `need` doublings are more than enough.
-/
def growCap (need : Nat) : Nat → Nat → Option Nat
  | 0, cap => if need ≤ cap then some cap else none
  | fuel + 1, cap => if need ≤ cap then some cap else growCap need fuel (cap * 2)

/-- `memcpy` to an offset of a buffer. -/
def overwriteAt (buffer : List UInt8) (offset : Nat) (data : List UInt8) : List UInt8 :=
  buffer.take offset ++ data ++ buffer.drop (offset + data.length)

/-- `append_aof_rewrite_buffer`: collects bytes while a rewrite child is running. A failed
allocation leaves a null buffer, and the data are lost.
-/
def Aof.appendAofRewriteBuffer (aof : Aof) (data : List UInt8) (allocated : Bool) : Aof :=
  if data = [] ∨ aof.rewritePid ≤ 0 then aof
  else
    match aof.rewriteBuf with
    | none =>
        let cap := if 4096 < data.length then data.length * 2 else 4096
        if allocated then
          { aof with rewriteBuf := some data, rewriteBufLen := data.length, rewriteBufCap := cap }
        else { aof with rewriteBufLen := 0, rewriteBufCap := cap }
    | some buffer =>
        let copied := { aof with
          rewriteBuf := some (overwriteAt buffer aof.rewriteBufLen data)
          rewriteBufLen := aof.rewriteBufLen + data.length }
        if aof.rewriteBufLen + data.length ≤ aof.rewriteBufCap then copied
        else
          match growCap (aof.rewriteBufLen + data.length) (aof.rewriteBufLen + data.length)
              aof.rewriteBufCap with
          -- The doubling loop never leaves a zero capacity.
          | none => aof
          | some cap =>
              if allocated then { copied with rewriteBufCap := cap }
              else { aof with rewriteBuf := none, rewriteBufCap := cap }

/-- The consecutive `append_aof_rewrite_buffer` calls of one record; `nth` numbers them within
their store call.
-/
def Aof.appendFragments (aof : Aof) (env : CallEnv) : List (List UInt8) → Nat → Aof
  | [], _ => aof
  | data :: rest, nth =>
      (aof.appendAofRewriteBuffer data (env.alloc (.rewriteBuffer nth))).appendFragments env
        rest (nth + 1)

theorem Aof.appendFragments_append (aof : Aof) (env : CallEnv) (first second : List (List UInt8))
    (nth : Nat)
    : aof.appendFragments env (first ++ second) nth
      = (aof.appendFragments env first nth).appendFragments env second (nth + first.length) := by
  induction first generalizing aof nth with
  | nil => rfl
  | cons data rest ih =>
      simp only [List.cons_append, Aof.appendFragments, ih, List.length_cons]
      rw [Nat.add_right_comm, Nat.add_assoc]

/-- The fragments of a record with one argument. -/
def keyFragments (command : Command) (key : CString) : List (List UInt8) :=
  [command.word ++ [tab], key.bytes, [lf]]

/-- The fragments of a record with two arguments. -/
def valueFragments (command : Command) (key : CString) (value : List UInt8)
    : List (List UInt8) :=
  [command.word ++ [tab], key.bytes, [tab], value, [lf]]

/-- What the rewrite buffer holds: its first `aof_rewrite_buf_len` bytes. -/
def Aof.rewriteBuffer (aof : Aof) : List UInt8 :=
  match aof.rewriteBuf with
  | some buffer => buffer.take aof.rewriteBufLen
  | none => []

end MiniKv
