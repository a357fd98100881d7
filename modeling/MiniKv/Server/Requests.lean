import MiniKv.Server.Reactor
import MiniKv.Server.Receive

/-! `client_handle_read` over the read buffer of a client: `recv` until the socket would block, then
one command for every LF in the buffer, and the rest moved to the front.
-/

namespace MiniKv

/-- `SERVER_READ_BUF_SIZE`. -/
def serverReadBufSize : Nat := 16384

/-- `client_cmd_t`: the bytes of `line` in front of the NUL that is put behind them, and `len`. -/
structure ClientCmd where
  line : List UInt8
  len : Nat
deriving DecidableEq

/-- `read_buf` and `read_len`. -/
structure ClientBuffer where
  readBuf : List UInt8
  readLen : Nat
  sized : readBuf.length = serverReadBufSize
  bounded : readLen ≤ serverReadBufSize

/-- `memchr`: where the byte is first. -/
def memchr (byte : UInt8) (bytes : List UInt8) : Option Nat :=
  bytes.findIdx? (fun other => other = byte)

/-- The bytes of a line without a CR at its end. -/
def stripCr (line : List UInt8) : List UInt8 :=
  if line.getLast? = some cr then line.dropLast else line

/-- The command for a line. -/
def ClientCmd.ofLine (line : List UInt8) : ClientCmd :=
  { line := stripCr line, len := (stripCr line).length }

namespace ClientBuffer

/-- The buffer of a client that has sent nothing, with whatever is in its memory. -/
def initial (memory : List UInt8) (sized : memory.length = serverReadBufSize) : ClientBuffer :=
  { readBuf := memory, readLen := 0, sized, bounded := by decide }

/-- The unparsed bytes. -/
def content (buffer : ClientBuffer) : List UInt8 :=
  buffer.readBuf.take buffer.readLen

/-- A `recv` into the space behind the unparsed bytes. -/
def recv (buffer : ClientBuffer) (chunk : List UInt8) : ClientBuffer :=
  let data := chunk.take (serverReadBufSize - buffer.readLen)
  have fits : buffer.readLen + data.length ≤ serverReadBufSize := by
    have bounded := buffer.bounded
    simp only [data, List.length_take]
    omega
  { readBuf := overwrite buffer.readBuf buffer.readLen data
    readLen := buffer.readLen + data.length
    sized := by
      rw [length_overwrite, buffer.sized]
      rw [buffer.sized]
      exact fits
    bounded := fits }

/-- The loop around `recv`, by what the calls return before one would block. A full buffer and a
peer that has closed the connection end it with an error.
-/
def fill : ClientBuffer → List (List UInt8) → Option ClientBuffer
  | buffer, [] => if buffer.readLen = serverReadBufSize then none else some buffer
  | buffer, chunk :: rest =>
      if buffer.readLen = serverReadBufSize then none
      else if chunk = [] then none
      else (buffer.recv chunk).fill rest

/-- Moves what is behind the first bytes to the front. -/
def consume (buffer : ClientBuffer) (totalConsumed : Nat) : ClientBuffer :=
  if totalConsumed < buffer.readLen then
    let rest := (buffer.readBuf.drop totalConsumed).take (buffer.readLen - totalConsumed)
    { readBuf := overwrite buffer.readBuf 0 rest
      readLen := buffer.readLen - totalConsumed
      sized := by
        have bounded := buffer.bounded
        have sized := buffer.sized
        rw [length_overwrite, sized]
        simp only [rest, List.length_take, List.length_drop]
        omega
      bounded := by
        have bounded := buffer.bounded
        omega }
  else { buffer with readLen := 0, bounded := by decide }

/-- The loop over the lines: the commands it enqueues and the buffer it leaves, or none for -1.
Each line takes a byte at least, so the bytes in the buffer and one more are enough fuel.
-/
def parse (allocated : Nat → Bool)
    : Nat → Nat → ClientBuffer → List ClientCmd × Option ClientBuffer
  | 0, _, _ => ([], none)
  | fuel + 1, nth, buffer =>
      match memchr lf buffer.content with
      | none => ([], if serverMaxLineLen ≤ buffer.readLen then none else some buffer)
      | some lineLen =>
          if serverMaxLineLen < lineLen then ([], none)
          else if allocated nth = false then ([], none)
          else
            let later := parse allocated fuel (nth + 1) (buffer.consume (lineLen + 1))
            (.ofLine (buffer.content.take lineLen) :: later.1, later.2)

/-- `client_handle_read` on what `recv` returns before it would block. -/
def handleRead (buffer : ClientBuffer) (chunks : List (List UInt8)) (allocated : Nat → Bool)
    : List ClientCmd × Option ClientBuffer :=
  match buffer.fill chunks with
  | none => ([], none)
  | some filled => filled.parse allocated (filled.readLen + 1) 0

/-- One event of a connection. Behind an error it is closed and gets no more of them. -/
def step (buffer : Option ClientBuffer) (chunks : List (List UInt8))
    : List ClientCmd × Option ClientBuffer :=
  match buffer with
  | none => ([], none)
  | some buffer => buffer.handleRead chunks (fun _ => true)

/-- The events of a connection with the commands they enqueue, while `malloc` succeeds. -/
def run (buffer : ClientBuffer) (batches : List (List (List UInt8)))
    : List (List ClientCmd) × Option ClientBuffer :=
  Foundations.Runs.run step (some buffer) batches

end ClientBuffer

end MiniKv
