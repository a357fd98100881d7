import Mathlib.Data.List.DropRight
import MiniKv.Store.Operations

/-! Reading a log back: lines, records, and the opening of a store on an existing log. -/

namespace MiniKv

open MiniKv.Foundations.ChainedTable
open MiniKv.Foundations.Decimal

/-- One record of the log with the arguments its command takes. -/
inductive Record where
  | set (key value : CString)
  | delete (key : CString)
  | lpush (key value : CString)
  | rpop (key : CString)
  | sadd (key value : CString)
  | srem (key value : CString)
  | pexpireat (key : CString) (expireAtMs : Int64)
deriving DecidableEq

/-- The line that is written for a record. -/
def Record.bytes : Record → List UInt8
  | .set key value => formatRecord .set key.bytes (some value.bytes)
  | .delete key => formatRecord .delete key.bytes none
  | .lpush key value => formatRecord .lpush key.bytes (some value.bytes)
  | .rpop key => formatRecord .rpop key.bytes none
  | .sadd key value => formatRecord .sadd key.bytes (some value.bytes)
  | .srem key value => formatRecord .srem key.bytes (some value.bytes)
  | .pexpireat key expireAtMs =>
      formatRecord .pexpireat key.bytes (some (decimalInt expireAtMs.toInt))

/-- What one `fgets` call may store besides the NUL: `sizeof(line) - 1`. -/
def replayLineRoom : Nat := 8191

/-- (readLinesFrom bytes line room) continues `fgets` with `line` already read and `room`
bytes left: a line ends behind an LF, when the buffer is full, or with the file.
-/
def readLinesFrom : List UInt8 → List UInt8 → Nat → List (List UInt8)
  | [], line, _ => if line = [] then [] else [line]
  | byte :: rest, line, room =>
      if byte = lf ∨ room ≤ 1 then (line ++ [byte]) :: readLinesFrom rest [] replayLineRoom
      else readLinesFrom rest (line ++ [byte]) (room - 1)

/-- The buffers that the `fgets` loop of `replay_aof_log` sees. -/
def readLines (bytes : List UInt8) : List (List UInt8) :=
  readLinesFrom bytes [] replayLineRoom

/-- `strip_line_endings` of the C string in the buffer. -/
def stripLineEndings (line : List UInt8) : List UInt8 :=
  (CString.ofBuffer line).bytes.rdropWhile (fun byte => byte = lf || byte = cr)

/-- `strtoll` in base ten, with its clamping. -/
def strtoll (text : List UInt8) : Int64 :=
  let number :=
    match text.dropWhile isSpace with
    | 45 :: digits => -(readDigits digits 0 : Int)
    | 43 :: digits => readDigits digits 0
    | digits => readDigits digits 0
  Int64.ofInt (max (-2 ^ 63) (min number (2 ^ 63 - 1)))

/-- What follows a command word and its delimiter, a TAB or a blank. -/
def afterCommand (command : Command) (line : List UInt8)
    : Option (UInt8 × List UInt8) :=
  if command.word.isPrefixOf line then
    match line.drop command.word.length with
    | delim :: rest => if delim = tab ∨ delim = 32 then some (delim, rest) else none
    | [] => none
  else none

/-- `strchr` and the cut at the separator it finds: the bytes before and behind it. -/
def splitAtDelim (delim : UInt8) (text : List UInt8) : List UInt8 × Option (List UInt8) :=
  (text.takeWhile (fun byte => byte != delim),
    match text.dropWhile (fun byte => byte != delim) with
    | [] => none
    | _ :: rest => some rest)

/-- A checked key. -/
def checkedKey (key : List UInt8) : Option CString :=
  (validateKey (some (CString.ofBuffer key))).toOption

/-- A checked value. -/
def checkedValue (value : List UInt8) : Option CString :=
  (validateValue (some (CString.ofBuffer value))).toOption

/-- The branch of a command that takes a key and a value; both must be there and valid. -/
def parseKeyValue (make : CString → CString → Record) (delim : UInt8) (text : List UInt8)
    : Option Record :=
  match splitAtDelim delim text with
  | (_, none) => none
  | (key, some value) =>
      (checkedKey key).bind (fun key => (checkedValue value).map (make key))

/-- The branch of a command that takes a key and ignores anything behind a delimiter. -/
def parseKey (make : CString → Record) (delim : UInt8) (text : List UInt8)
    : Option Record :=
  (checkedKey (splitAtDelim delim text).1).map make

/-- The branch of `PEXPIREAT`. -/
def parseDeadline (delim : UInt8) (text : List UInt8) : Option Record :=
  match splitAtDelim delim text with
  | (_, none) => none
  | (key, some number) =>
      (checkedKey key).map (fun key => .pexpireat key (strtoll number))

/-- The arguments of one command. -/
def parseArguments : Command → UInt8 → List UInt8 → Option Record
  | .set => parseKeyValue .set
  | .delete => parseKey .delete
  | .lpush => parseKeyValue .lpush
  | .rpop => parseKey .rpop
  | .sadd => parseKeyValue .sadd
  | .srem => parseKeyValue .srem
  | .pexpireat => parseDeadline

/-- The `else if` chain over the command words, in its order. -/
def commandOrder : List Command :=
  [.set, .delete, .lpush, .rpop, .sadd, .srem, .pexpireat]

/-- The record in a line, if the line is one; any other line is skipped. -/
def parseLine (line : List UInt8) : Option Record :=
  let text := stripLineEndings line
  (commandOrder.findSome? (fun command =>
    (afterCommand command text).map (fun found => (command, found)))).bind
    (fun found => parseArguments found.1 found.2.1 found.2.2)

/-- Applies one record of the log to the store. -/
def applyRecord (store : Store) (record : Record) (env : CallEnv) : Store :=
  match record with
  | .set key value => (kvSetInternal store (some key) (some value) env).2
  | .delete key => (kvDeleteInternal store (some key) env 0).2
  | .lpush key value => (kvLpush store (some key) (some value) env).2
  | .rpop key => (kvRpop store (some key) env).2
  | .sadd key value => (kvSadd store (some key) (some value) env).2
  | .srem key value => (kvSrem store (some key) (some value) env).2
  | .pexpireat key expireAtMs =>
      { store with table := store.table.kvSetExpireAtMsInternal key expireAtMs }

/-- One iteration of the loop of `replay_aof_log`. -/
def replayLine (store : Store) (line : List UInt8) (env : CallEnv) : Store :=
  match parseLine line with
  | some record => applyRecord store record env
  | none => store

/-- The loop of `replay_aof_log`; `envs` gives each line its own clock and allocator. -/
def replayLines (envs : Nat → CallEnv) : List (List UInt8) → Nat → Store → Store
  | [], _, store => store
  | line :: rest, nth, store =>
      replayLines envs rest (nth + 1) (replayLine store line (envs nth))

/-- What the record of any line keeps is kept by the loop, by induction on the lines. -/
theorem replayLines_keeps {Property : Store → Prop} {envs : Nat → CallEnv}
    (applies : ∀ (store : Store) (line : List UInt8) (record : Record) (nth : Nat),
      parseLine line = some record → Property store →
      Property (applyRecord store record (envs nth)))
    (lines : List (List UInt8)) (nth : Nat) {store : Store} (holds : Property store)
    : Property (replayLines envs lines nth store) := by
  induction lines generalizing nth store with
  | nil => exact holds
  | cons line rest ih =>
      refine ih (nth + 1) ?_
      rw [replayLine]
      split
      · next record parsed => exact applies store line record nth parsed holds
      · exact holds

/-- `replay_aof_log` of a file with these bytes. -/
def replayAofLog (store : Store) (file : List UInt8) (envs : Nat → CallEnv) : Store :=
  replayLines envs (readLines file) 0 store

/-- The store as `kv_init_full` sets it up before it looks at a log. -/
def Store.fresh (bucketCount maxCapacity maxMemoryBudget : Nat) (prng : UInt32)
    (log : List UInt8)
    : Store :=
  let bucketsBytes := bucketCount * sizeofPointer
  { table :=
      { buckets := List.replicate bucketCount []
        size := 0
        maxCapacity
        allocatedBytes := bucketsBytes
        peakAllocatedBytes := bucketsBytes
        maxMemoryBudget
        autoResize := true
        lruClock := 0
        prng }
    aof :=
      { path := none
        fp := none
        log
        bgsavePid := 0
        rewritePid := 0
        rewriteBuf := none
        rewriteBufLen := 0
        rewriteBufCap := 0
        rewriteTmp := none
        broadcasts := [] } }

/-- `kv_init_full`. `log` is what the file at `path` holds, empty when there is none; the
clock and allocator of each replayed line are `lineEnvs`.
-/
def kvInitFull (bucketCount maxCapacity maxMemoryBudget : Nat) (path : Option CString)
    (log : List UInt8) (prng : UInt32) (env : CallEnv) (lineEnvs : Nat → CallEnv)
    : Except Int Store :=
  let store := Store.fresh bucketCount maxCapacity maxMemoryBudget prng log
  if bucketCount = 0 then .error kvErrInvalidParam
  else if 0 < maxMemoryBudget ∧ maxMemoryBudget < store.table.allocatedBytes then
    .error kvErrBudgetExceeded
  else if (env.alloc .buckets && env.alloc .locks) = false then .error kvErrInternal
  else
    match path with
    | none => .ok store
    | some path =>
        let pathBytes := path.length + 1
        if 0 < maxMemoryBudget
            ∧ maxMemoryBudget < store.table.allocatedBytes + pathBytes then
          .error kvErrBudgetExceeded
        else if env.alloc .path = false then .error kvErrInternal
        else
          let named : Store :=
            { table := store.table.charge pathBytes
              aof := { store.aof with path := some path } }
          let replayed := replayAofLog named log lineEnvs
          if env.io = .refused then .error kvErrIo
          -- A stream opened with mode a+ reports position 0 until its first write.
          else .ok { replayed with aof := { replayed.aof with fp := some 0 } }

/-- `kv_init`: no capacity limit, no memory budget, no log. -/
def kvInit (bucketCount : Nat) (prng : UInt32) (env : CallEnv) : Except Int Store :=
  kvInitFull bucketCount 0 0 none [] prng env (fun _ => env)

end MiniKv
