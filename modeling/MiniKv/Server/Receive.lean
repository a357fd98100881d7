import MiniKv.Server.Handshake

/-! The receive loop of `replica_thread_main` over its buffer: where `recv` puts a chunk, how lines
are found and ended in place, and how the rest is moved to the front.
-/

namespace MiniKv

/-- `strchr` on the bytes from a pointer on: where the byte is first, unless a NUL is before it. -/
def strchr (byte : UInt8) : List UInt8 → Option Nat
  | [] => none
  | first :: rest =>
      if first = byte then some 0
      else if first = 0 then none
      else (strchr byte rest).map (fun index => index + 1)

/-- Writes bytes at an index, as `recv` and `memmove` do. -/
def overwrite (bytes : List UInt8) (start : Nat) (data : List UInt8) : List UInt8 :=
  bytes.take start ++ data ++ bytes.drop (start + data.length)

theorem length_overwrite {bytes : List UInt8} {start : Nat} {data : List UInt8}
    (fits : start + data.length ≤ bytes.length)
    : (overwrite bytes start data).length = bytes.length := by
  simp only [overwrite, List.length_append, List.length_take, List.length_drop]
  omega

/-- What the dispatch of the line at `p` does to the buffer: SET ends its key in place. -/
def endKey (cmdbuf : List UInt8) (p : Nat) : List UInt8 :=
  if (Command.set.word ++ [tab]).isPrefixOf (cmdbuf.drop p) then
    match strchr tab (cmdbuf.drop (p + 4)) with
    | some index => cmdbuf.set (p + 4 + index) 0
    | none => cmdbuf
  else cmdbuf

theorem length_endKey (cmdbuf : List UInt8) (p : Nat)
    : (endKey cmdbuf p).length = cmdbuf.length := by
  rw [endKey]
  split
  · split
    · exact List.length_set
    · rfl
  · rfl

/-- The inner loop: the lines that are dispatched, the buffer, and where `p` ends. Each line takes
a byte at least, so the size of the buffer is enough fuel.
-/
def splitLines : Nat → List UInt8 → Nat → List (List UInt8) × List UInt8 × Nat
  | 0, cmdbuf, p => ([], cmdbuf, p)
  | fuel + 1, cmdbuf, p =>
      match strchr lf (cmdbuf.drop p) with
      | none => ([], cmdbuf, p)
      | some index =>
          let ended := cmdbuf.set (p + index) 0
          let later := splitLines fuel (endKey ended p) (p + index + 1)
          ((CString.ofBuffer (ended.drop p)).bytes :: later.1, later.2)

theorem length_splitLines (fuel : Nat) (cmdbuf : List UInt8) (p : Nat)
    : (splitLines fuel cmdbuf p).2.1.length = cmdbuf.length := by
  induction fuel generalizing cmdbuf p with
  | zero => rfl
  | succ fuel ih =>
      rw [splitLines]
      split
      · rfl
      · simp only [ih, length_endKey, List.length_set]

/-- `cmdbuf` and `cmdlen`: there is always room for a NUL. -/
structure ReceiveBuffer where
  cmdbuf : List UInt8
  cmdlen : Nat
  sized : cmdbuf.length = cmdbufSize
  room : cmdlen < cmdbufSize

namespace ReceiveBuffer

/-- How many bytes `recv` may write. -/
def offered (buffer : ReceiveBuffer) : Nat :=
  cmdbufSize - buffer.cmdlen - 1

/-- The bytes that are carried over. -/
def content (buffer : ReceiveBuffer) : List UInt8 :=
  buffer.cmdbuf.take buffer.cmdlen

/-- The buffer at the start of a session, with whatever is on the stack. -/
def initial (stack : List UInt8) (sized : stack.length = cmdbufSize) : ReceiveBuffer :=
  { cmdbuf := stack, cmdlen := 0, sized, room := by decide }

/-- One iteration of the receive loop: the lines it dispatches and the buffer it leaves. Of a chunk
that is longer than the space offered, `recv` returns the beginning.
-/
def receive (buffer : ReceiveBuffer) (chunk : List UInt8) : List (List UInt8) × ReceiveBuffer :=
  let data := chunk.take buffer.offered
  let cmdlen := buffer.cmdlen + data.length
  let filled := (overwrite buffer.cmdbuf buffer.cmdlen data).set cmdlen 0
  let split := splitLines filled.length filled 0
  let rest := (split.2.1.drop split.2.2).take (cmdlen - split.2.2)
  have bounded : cmdlen < cmdbufSize := by
    have room := buffer.room
    simp only [cmdlen, data, List.length_take, offered]
    omega
  have sized : split.2.1.length = cmdbufSize := by
    rw [length_splitLines, List.length_set, length_overwrite, buffer.sized]
    rw [buffer.sized]
    exact bounded.le
  if split.2.2 < cmdlen then
    (split.1,
      { cmdbuf := overwrite split.2.1 0 rest
        cmdlen := cmdlen - split.2.2
        sized := by
          rw [length_overwrite, sized]
          simp only [rest, List.length_take, List.length_drop]
          omega
        room := by omega })
  else (split.1, { cmdbuf := split.2.1, cmdlen := 0, sized, room := by decide })

/-- The chunks as they arrive, with the lines that each of them completes. -/
def run (buffer : ReceiveBuffer) (chunks : List (List UInt8))
    : List (List (List UInt8)) × ReceiveBuffer :=
  Foundations.Runs.run receive buffer chunks

/-- Chunks that `recv` can return one after another: none is empty, and none is larger than the
space it is offered.
-/
def Receivable : ReceiveBuffer → List (List UInt8) → Prop
  | _, [] => True
  | buffer, chunk :: rest =>
      chunk ≠ [] ∧ chunk.length ≤ buffer.offered ∧ Receivable (buffer.receive chunk).2 rest

end ReceiveBuffer

end MiniKv
