import MiniKv.Foundations.Lines
import MiniKv.Refinement.ReplicaStream
import MiniKv.Server.Receive

/-! However `recv` splits the stream of records, the receive loop dispatches the records. The buffer
refines a list of carried bytes, and cutting a stream into lines does not depend on where the
stream is split.
-/

namespace MiniKv

open MiniKv.Foundations

-- Lines of a list of bytes

/-- The complete lines in front of a NUL, and the rest. -/
def cutLines : Nat → List UInt8 → List (List UInt8) × List UInt8
  | 0, bytes => ([], bytes)
  | fuel + 1, bytes =>
      match nextLine bytes with
      | none => ([], bytes)
      | some (line, rest) => (line :: (cutLines fuel rest).1, (cutLines fuel rest).2)

/-- Applying the complete lines is applying the lines that are cut. -/
theorem applyLines_eq_foldl (env : CallEnv) (fuel : Nat) (store : Store) (bytes : List UInt8)
    : applyLines env fuel store bytes
      = ((cutLines fuel bytes).1.foldl (fun store line => replicaApplyLine store line env) store,
          (cutLines fuel bytes).2) := by
  induction fuel generalizing store bytes with
  | zero => rfl
  | succ fuel ih =>
      rw [applyLines, cutLines]
      cases nextLine bytes with
      | none => rfl
      | some found => exact ih _ _

theorem nextLine_eq_some {bytes line rest : List UInt8}
    (found : nextLine bytes = some (line, rest))
    : bytes = line ++ lf :: rest ∧ lf ∉ line ∧ 0 ∉ line := by
  induction bytes generalizing line with
  | nil => simp [nextLine] at found
  | cons byte bytes ih =>
      rw [nextLine] at found
      split_ifs at found with isLf isNul
      · obtain ⟨rfl, rfl⟩ := Prod.mk.inj (Option.some.inj found)
        exact ⟨by rw [isLf, List.nil_append], List.not_mem_nil, List.not_mem_nil⟩
      · obtain ⟨cut, later, same⟩ := Option.map_eq_some_iff.mp found
        obtain ⟨rfl, rfl⟩ := Prod.mk.inj same
        obtain ⟨whole, noLf, noNul⟩ := ih later
        refine ⟨by rw [List.cons_append, ← whole], ?_, ?_⟩
        · exact List.not_mem_cons_of_ne_of_not_mem (Ne.symm isLf) noLf
        · exact List.not_mem_cons_of_ne_of_not_mem (Ne.symm isNul) noNul

theorem nextLine_length {bytes line rest : List UInt8}
    (found : nextLine bytes = some (line, rest))
    : rest.length < bytes.length := by
  rw [(nextLine_eq_some found).1, List.length_append, List.length_cons]
  omega

/-- More fuel than bytes makes no difference. -/
theorem cutLines_enough {fuel other : Nat} {bytes : List UInt8} (enough : bytes.length ≤ fuel)
    (alsoEnough : bytes.length ≤ other)
    : cutLines fuel bytes = cutLines other bytes := by
  have nothing : ∀ fuel, cutLines fuel [] = ([], []) := by
    intro fuel
    cases fuel <;> rfl
  induction fuel generalizing other bytes with
  | zero =>
      obtain rfl := List.eq_nil_of_length_eq_zero (Nat.le_zero.mp enough)
      rw [nothing, nothing]
  | succ fuel ih =>
      cases other with
      | zero =>
          obtain rfl := List.eq_nil_of_length_eq_zero (Nat.le_zero.mp alsoEnough)
          rw [nothing, nothing]
      | succ other =>
          rw [cutLines, cutLines]
          cases found : nextLine bytes with
          | none => rfl
          | some cut =>
              have shorter := @nextLine_length bytes cut.1 cut.2 found
              simp only [@ih other cut.2 (by omega) (by omega)]

/-- Without a NUL, the lines are those of the stream. -/
theorem cutLines_eq_cut {fuel : Nat} {bytes : List UInt8} (enough : bytes.length ≤ fuel)
    (noNul : 0 ∉ bytes)
    : cutLines fuel bytes = Lines.cut lf bytes := by
  induction fuel generalizing bytes with
  | zero =>
      obtain rfl := List.eq_nil_of_length_eq_zero (Nat.le_zero.mp enough)
      rfl
  | succ fuel ih =>
      rw [cutLines]
      cases found : nextLine bytes with
      | none =>
          have noLf : lf ∉ bytes := by
            intro member
            obtain ⟨line, rest, whole, noLf⟩ := List.eq_append_cons_of_mem member
            have noNulLine : 0 ∉ line :=
              fun member => noNul (whole ▸ List.mem_append_left _ member)
            rw [whole, nextLine_line noLf noNulLine] at found
            cases found
          rw [Lines.cut_torn noLf]
      | some cut =>
          have shorter := @nextLine_length bytes cut.1 cut.2 found
          obtain ⟨whole, noLf, _⟩ := @nextLine_eq_some bytes cut.1 cut.2 found
          have noNulRest : 0 ∉ cut.2 := by
            intro member
            exact noNul (whole ▸ List.mem_append_right _ (List.mem_cons_of_mem _ member))
          simp only [@ih cut.2 (by omega) noNulRest]
          rw [whole, Lines.cut_line noLf]

-- Lines in the buffer

theorem strchr_line {byte : UInt8} {text : List UInt8} (noByte : byte ∉ text) (noNul : 0 ∉ text)
    (rest : List UInt8)
    : strchr byte (text ++ byte :: rest) = some text.length := by
  induction text with
  | nil => simp [strchr]
  | cons first text ih =>
      rw [List.mem_cons, not_or] at noByte noNul
      rw [List.cons_append, strchr, if_neg (Ne.symm noByte.1), if_neg (Ne.symm noNul.1),
        ih noByte.2 noNul.2]
      rfl

/-- What `strchr` finds is in front of the first NUL. -/
theorem strchr_lt {byte : UInt8} (nonzero : byte ≠ 0) {text rest : List UInt8} {index : Nat}
    (found : strchr byte (text ++ 0 :: rest) = some index)
    : index < text.length := by
  induction text generalizing index with
  | nil =>
      rw [List.nil_append, strchr, if_neg (Ne.symm nonzero), if_pos rfl] at found
      cases found
  | cons first text ih =>
      rw [List.cons_append, strchr] at found
      split_ifs at found with same
      · obtain rfl := Option.some.inj found
        exact Nat.zero_lt_succ _
      · obtain ⟨before, later, rfl⟩ := Option.map_eq_some_iff.mp found
        exact Nat.succ_lt_succ (ih later)

/-- Where the bytes have no complete line, the terminated buffer has none. -/
theorem strchr_of_nextLine_none {bytes : List UInt8} (none : nextLine bytes = none)
    (rest : List UInt8)
    : strchr lf (bytes ++ 0 :: rest) = Option.none := by
  induction bytes with
  | nil => rfl
  | cons byte bytes ih =>
      rw [nextLine] at none
      rw [List.cons_append, strchr]
      split_ifs at none ⊢ with isLf isNul
      · rfl
      · rw [ih (Option.map_eq_none_iff.mp none)]
        rfl

/-- Ending the key of a line writes nothing behind the line. -/
theorem drop_endKey {cmdbuf : List UInt8} {p : Nat} {line rest : List UInt8}
    (ended : cmdbuf.drop p = line ++ 0 :: rest) (noNul : 0 ∉ line)
    : (endKey cmdbuf p).drop (p + line.length + 1) = rest := by
  have behind : cmdbuf.drop (p + line.length + 1) = rest := by
    rw [Nat.add_assoc, ← List.drop_drop, ended, ← List.drop_drop, List.drop_left]
    rfl
  rw [endKey]
  split_ifs with isSet
  · split
    · next index found =>
        obtain ⟨more, whole⟩ := List.isPrefixOf_iff_prefix.mp isSet
        rw [ended, List.append_eq_append_iff] at whole
        have behindWord : ∃ key, line = Command.set.word ++ [tab] ++ key := by
          rcases whole with ⟨key, within, _⟩ | ⟨further, beyond, terminator⟩
          · exact ⟨key, within⟩
          · cases further with
            | nil => exact ⟨[], by rw [beyond, List.append_nil, List.append_nil]⟩
            | cons byte further =>
                obtain ⟨rfl, _⟩ := List.cons.inj terminator
                exact absurd (beyond ▸ List.mem_append_right _ List.mem_cons_self)
                  (by decide : (0 : UInt8) ∉ Command.set.word ++ [tab])
        obtain ⟨key, rfl⟩ := behindWord
        have fields : cmdbuf.drop (p + 4) = key ++ 0 :: rest := by
          rw [← List.drop_drop, ended]
          rfl
        rw [fields] at found
        have within := strchr_lt (by decide) found
        rw [List.drop_set_of_lt, behind]
        simp only [List.length_append, Command.word, ascii, List.length_map, List.length_cons,
          List.length_nil]
        omega
    · exact behind
  · exact behind

/-- The inner loop on a terminated buffer cuts the bytes in front of the terminator.
Witness: induction on the fuel; a line is ended and dispatched without a write behind it.
-/
theorem splitLines_spec (fuel : Nat) {cmdbuf : List UInt8} {p : Nat} {bytes rest : List UInt8}
    (terminated : cmdbuf.drop p = bytes ++ 0 :: rest)
    : (splitLines fuel cmdbuf p).1 = (cutLines fuel bytes).1
      ∧ (splitLines fuel cmdbuf p).2.1.drop (splitLines fuel cmdbuf p).2.2
        = (cutLines fuel bytes).2 ++ 0 :: rest
      ∧ (splitLines fuel cmdbuf p).2.2 + (cutLines fuel bytes).2.length = p + bytes.length := by
  induction fuel generalizing cmdbuf p bytes with
  | zero => exact ⟨rfl, terminated, rfl⟩
  | succ fuel ih =>
      rw [splitLines, cutLines]
      cases found : nextLine bytes with
      | none =>
          rw [terminated, strchr_of_nextLine_none found]
          exact ⟨rfl, terminated, rfl⟩
      | some cut =>
          obtain ⟨line, later⟩ := cut
          obtain ⟨whole, noLf, noNul⟩ := nextLine_eq_some found
          rw [whole, List.append_assoc, List.cons_append] at terminated
          rw [terminated, strchr_line noLf noNul]
          have ended : (cmdbuf.set (p + line.length) 0).drop p
              = line ++ 0 :: (later ++ 0 :: rest) := by
            rw [List.drop_set, if_neg (by omega), terminated, Nat.add_sub_cancel_left,
              List.set_append_right _ _ (Nat.le_refl _), Nat.sub_self]
            rfl
          obtain ⟨lines, left, position⟩ := ih (drop_endKey ended noNul)
          refine ⟨?_, left, ?_⟩
          · simp only [ended, CString.ofBuffer_terminated noNul, lines]
          · rw [position, whole, List.length_append, List.length_cons]
            omega

/-- Moving what is left to the front. -/
theorem take_overwrite {cmdbuf left behind : List UInt8} {p cmdlen : Nat}
    (holds : cmdbuf.drop p = left ++ behind) (ends : p + left.length = cmdlen)
    : (overwrite cmdbuf 0 ((cmdbuf.drop p).take (cmdlen - p))).take (cmdlen - p) = left := by
  have count : cmdlen - p = left.length := by omega
  rw [count, holds, List.take_left, overwrite, List.take_zero, List.nil_append, List.take_left]

namespace ReceiveBuffer

theorem length_content (buffer : ReceiveBuffer) : buffer.content.length = buffer.cmdlen := by
  have room := buffer.room
  rw [content, List.length_take, buffer.sized]
  omega

/-- What `recv` leaves in the buffer, with the NUL behind it. -/
theorem filled_eq (buffer : ReceiveBuffer) {chunk : List UInt8}
    (fits : chunk.length ≤ buffer.offered)
    : ∃ rest, (overwrite buffer.cmdbuf buffer.cmdlen chunk).set (buffer.cmdlen + chunk.length) 0
        = (buffer.content ++ chunk) ++ 0 :: rest := by
  have room := buffer.room
  have sized := buffer.sized
  rw [offered] at fits
  obtain ⟨byte, rest, behind⟩ : ∃ byte rest,
      buffer.cmdbuf.drop (buffer.cmdlen + chunk.length) = byte :: rest := by
    apply List.exists_cons_of_length_pos
    rw [List.length_drop]
    omega
  refine ⟨rest, ?_⟩
  have length : (buffer.content ++ chunk).length = buffer.cmdlen + chunk.length := by
    rw [List.length_append, buffer.length_content]
  rw [overwrite, behind, ← content, ← length, List.set_append_right _ _ (Nat.le_refl _),
    Nat.sub_self]
  rfl

/-- One iteration of the loop on the buffer is cutting the bytes carried over and received. -/
theorem receive_spec (buffer : ReceiveBuffer) {chunk : List UInt8}
    (fits : chunk.length ≤ buffer.offered)
    : (buffer.receive chunk).1
        = (cutLines (buffer.content ++ chunk).length (buffer.content ++ chunk)).1
      ∧ (buffer.receive chunk).2.content
        = (cutLines (buffer.content ++ chunk).length (buffer.content ++ chunk)).2 := by
  obtain ⟨rest, filled⟩ := buffer.filled_eq fits
  have length : (buffer.content ++ chunk).length = buffer.cmdlen + chunk.length := by
    rw [List.length_append, buffer.length_content]
  obtain ⟨lines, left, position⟩ := @splitLines_spec (buffer.content ++ chunk ++ 0 :: rest).length
    (buffer.content ++ chunk ++ 0 :: rest) 0 (buffer.content ++ chunk) rest rfl
  rw [@cutLines_enough _ (buffer.content ++ chunk).length (buffer.content ++ chunk) (by simp)
    (Nat.le_refl _)] at lines left position
  have ends := (Nat.zero_add _ ▸ position).trans length
  simp only [receive, List.take_of_length_le fits, filled]
  split_ifs with unread
  · exact ⟨lines, take_overwrite left ends⟩
  · have nothing : (cutLines (buffer.content ++ chunk).length (buffer.content ++ chunk)).2 = [] :=
      List.eq_nil_of_length_eq_zero (by omega)
    exact ⟨lines, nothing.symm⟩

/-- On the list of carried bytes, an iteration is what the handshake's replica does. -/
theorem receive_applyLines (buffer : ReceiveBuffer) {chunk : List UInt8}
    (fits : chunk.length ≤ buffer.offered) (env : CallEnv) (store : Store)
    : applyLines env (buffer.content ++ chunk).length store (buffer.content ++ chunk)
      = ((buffer.receive chunk).1.foldl (fun store line => replicaApplyLine store line env) store,
          (buffer.receive chunk).2.content) := by
  obtain ⟨lines, left⟩ := buffer.receive_spec fits
  rw [applyLines_eq_foldl, lines, left]

-- Whole sessions

/-- Along a session without NULs the buffer holds what a cut stream carries over.
Witness: induction on the chunks; one iteration is one cut.
-/
theorem run_spec {buffer : ReceiveBuffer} {chunks : List (List UInt8)}
    (receivable : buffer.Receivable chunks) (noNul : 0 ∉ buffer.content ++ chunks.flatten)
    : let cutting :=
        Runs.run (fun carry chunk => Lines.cut lf (carry ++ chunk)) buffer.content chunks
      (buffer.run chunks).1 = cutting.1 ∧ (buffer.run chunks).2.content = cutting.2 := by
  induction chunks generalizing buffer with
  | nil => exact ⟨rfl, rfl⟩
  | cons chunk rest ih =>
      obtain ⟨_, fits, later⟩ := receivable
      rw [List.flatten_cons, ← List.append_assoc] at noNul
      have noNulHead : 0 ∉ buffer.content ++ chunk :=
        fun member => noNul (List.mem_append_left _ member)
      obtain ⟨lines, carried⟩ := buffer.receive_spec fits
      rw [cutLines_eq_cut (Nat.le_refl _) noNulHead] at lines carried
      have noNulRest : 0 ∉ (buffer.receive chunk).2.content ++ rest.flatten := by
        rw [carried]
        intro member
        rcases List.mem_append.mp member with left | behind
        · have whole := (Lines.cut_spec lf (buffer.content ++ chunk)).1
          exact noNulHead (whole ▸ List.mem_append_right _ left)
        · exact noNul (List.mem_append_right _ behind)
      obtain ⟨laterLines, laterCarried⟩ := ih later noNulRest
      rw [carried] at laterLines laterCarried
      exact ⟨congrArg₂ List.cons lines laterLines, laterCarried⟩

theorem Receivable.front {buffer : ReceiveBuffer} {arrived chunks : List (List UInt8)}
    (receivable : buffer.Receivable chunks) (begins : arrived <+: chunks)
    : buffer.Receivable arrived := by
  induction arrived generalizing buffer chunks with
  | nil => trivial
  | cons chunk arrived ih =>
      cases chunks with
      | nil => exact absurd (List.prefix_nil.mp begins) (List.cons_ne_nil _ _)
      | cons first chunks =>
          obtain ⟨rfl, later⟩ := List.cons_prefix_cons.mp begins
          exact ⟨receivable.1, receivable.2.1, ih receivable.2.2 later⟩

end ReceiveBuffer

/-- The lines and the carried bytes at the end of a session. -/
theorem ReceiveBuffer.run_initial {stack : List UInt8} {sized : stack.length = cmdbufSize}
    {chunks : List (List UInt8)} (receivable : (initial stack sized).Receivable chunks)
    (noNul : 0 ∉ chunks.flatten)
    : ((initial stack sized).run chunks).1.flatten = (Lines.cut lf chunks.flatten).1
      ∧ ((initial stack sized).run chunks).2.content = (Lines.cut lf chunks.flatten).2 := by
  have empty : (initial stack sized).content = [] := List.take_zero
  obtain ⟨lines, carried⟩ := run_spec receivable (by rwa [empty, List.nil_append])
  rw [empty] at lines carried
  rw [lines, carried]
  exact Lines.run_cut List.not_mem_nil chunks

/-- However `recv` splits the stream of some records, the loop dispatches exactly the records, ends
with nothing carried over, and always offers space.
-/
theorem receive_reassembles (stack : List UInt8) (sized : stack.length = cmdbufSize)
    {lines : List (List UInt8)}
    (plain : ∀ line ∈ lines, lf ∉ line ∧ 0 ∉ line ∧ (line ++ [lf]).length ≤ 4095)
    {chunks : List (List UInt8)}
    (stream : chunks.flatten = lines.flatMap (fun line => line ++ [lf]))
    (receivable : (ReceiveBuffer.initial stack sized).Receivable chunks)
    : ((ReceiveBuffer.initial stack sized).run chunks).1.flatten = lines
      ∧ ((ReceiveBuffer.initial stack sized).run chunks).2.cmdlen = 0
      ∧ ∀ arrived, arrived <+: chunks →
          0 < ((ReceiveBuffer.initial stack sized).run arrived).2.offered := by
  have noLf : ∀ line ∈ lines, lf ∉ line := fun line member => (plain line member).1
  have noNul : 0 ∉ chunks.flatten := by
    rw [stream]
    intro member
    obtain ⟨line, isLine, inside⟩ := List.mem_flatMap.mp member
    rcases List.mem_append.mp inside with inside | ending
    · exact (plain line isLine).2.1 inside
    · exact absurd (List.mem_singleton.mp ending) (by decide)
  have cutWhole : Lines.cut lf chunks.flatten = (lines, []) := by
    have cut := Lines.cut_join_append noLf []
    rw [List.append_nil, Lines.join, ← stream] at cut
    simpa [Lines.cut] using cut
  obtain ⟨dispatched, carried⟩ := ReceiveBuffer.run_initial receivable noNul
  rw [cutWhole] at dispatched carried
  refine ⟨dispatched, ?_, fun arrived begins => ?_⟩
  · rw [← ReceiveBuffer.length_content, carried]
    rfl
  · have front : arrived.flatten <+: Lines.join lf lines := by
      obtain ⟨later, rfl⟩ := begins
      rw [Lines.join, ← stream, List.flatten_append]
      exact List.prefix_append _ _
    have noNulFront : 0 ∉ arrived.flatten := by
      obtain ⟨later, rfl⟩ := begins
      rw [List.flatten_append] at noNul
      exact fun member => noNul (List.mem_append_left _ member)
    have torn := (ReceiveBuffer.run_initial (receivable.front begins) noNulFront).2
    have short : ((ReceiveBuffer.initial stack sized).run arrived).2.cmdlen ≤ 4094 := by
      rw [← ReceiveBuffer.length_content, torn]
      rcases Lines.cut_beginning noLf front with nothing | ⟨line, member, begins⟩
      · rw [nothing]
        exact Nat.zero_le _
      · have bounded := (plain line member).2.2
        rw [List.length_append, List.length_singleton] at bounded
        have shorter := begins.length_le
        omega
    rw [ReceiveBuffer.offered, cmdbufSize]
    omega

/-- Two records in three chunks that end within a record. -/
theorem receive_reassembles_three
    : let session := (ReceiveBuffer.initial (List.replicate 4096 7) List.length_replicate).run
        [[97], [lf, 98], [99, lf]]
      session.1.flatten = [[97], [98, 99]] ∧ session.2.cmdlen = 0 := by
  have receivable : (ReceiveBuffer.initial (List.replicate 4096 7) List.length_replicate).Receivable
      [[97], [lf, 98], [99, lf]] := by
    refine ⟨by decide, ?_, by decide, ?_, by decide, ?_, trivial⟩ <;> decide +kernel
  have session := receive_reassembles (List.replicate 4096 7) List.length_replicate
    (by decide : ∀ line ∈ [[97], [98, 99]], lf ∉ line ∧ 0 ∉ line ∧ (line ++ [lf]).length ≤ 4095)
    (by decide) receivable
  exact ⟨session.1, session.2.1⟩

end MiniKv
