import MiniKv.Foundations.Lines
import MiniKv.Server.Requests

/-! A client's commands are the lines of what it sends, however that arrives. Whether the client is
thrown out does depend on it: a batch may fill the read buffer, and it may end behind a line of
exactly the longest length before the LF of that line is there.
-/

namespace MiniKv

open MiniKv.Foundations
open MiniKv.Foundations.Runs (Along)

-- Lines in the buffer

theorem memchr_line {byte : UInt8} {line : List UInt8} (absent : byte ∉ line) (rest : List UInt8)
    : memchr byte (line ++ byte :: rest) = some line.length := by
  induction line with
  | nil => simp [memchr, List.findIdx?_cons]
  | cons first line ih =>
      rw [List.mem_cons, not_or] at absent
      have later := ih absent.2
      simp only [memchr] at later
      rw [memchr, List.cons_append, List.findIdx?_cons, decide_eq_false (Ne.symm absent.1), later]
      simp

theorem memchr_none {byte : UInt8} {bytes : List UInt8} (absent : byte ∉ bytes)
    : memchr byte bytes = none := by
  rw [memchr, List.findIdx?_eq_none_iff]
  intro other member
  exact decide_eq_false (fun same => absent (same ▸ member))

namespace ClientBuffer

variable {buffer : ClientBuffer}

theorem length_content (buffer : ClientBuffer) : buffer.content.length = buffer.readLen := by
  have bounded := buffer.bounded
  rw [content, List.length_take, buffer.sized]
  omega

theorem recv_content {chunk : List UInt8}
    (fits : buffer.readLen + chunk.length ≤ serverReadBufSize)
    : (buffer.recv chunk).content = buffer.content ++ chunk := by
  have whole : chunk.take (serverReadBufSize - buffer.readLen) = chunk :=
    List.take_of_length_le (by omega)
  have length : (buffer.content ++ chunk).length = buffer.readLen + chunk.length := by
    rw [List.length_append, buffer.length_content]
  simp only [content, recv, whole, overwrite] at length ⊢
  rw [← length, List.take_left]

/-- The loop around `recv` takes everything that is there, if that leaves space in the buffer. -/
theorem fill_spec {chunks : List (List UInt8)} (data : ∀ chunk ∈ chunks, chunk ≠ [])
    : if buffer.readLen + chunks.flatten.length < serverReadBufSize then
        ∃ filled, buffer.fill chunks = some filled
          ∧ filled.content = buffer.content ++ chunks.flatten
      else buffer.fill chunks = none := by
  induction chunks generalizing buffer with
  | nil =>
      have bounded := buffer.bounded
      rw [List.flatten_nil, List.length_nil, Nat.add_zero, fill]
      split
      · next space => exact ⟨buffer, if_neg (by omega), (List.append_nil _).symm⟩
      · next full => exact if_pos (by omega)
  | cons chunk rest ih =>
      have bounded := buffer.bounded
      have later := @ih (buffer.recv chunk)
        (fun other member => data other (List.mem_cons_of_mem _ member))
      rw [fill, if_neg (data chunk List.mem_cons_self)]
      rw [List.flatten_cons, List.length_append, ← Nat.add_assoc]
      by_cases full : buffer.readLen = serverReadBufSize
      · rw [if_neg (by omega), if_pos full]
      · rw [if_neg full]
        by_cases fits : buffer.readLen + chunk.length ≤ serverReadBufSize
        · have content := recv_content fits
          have length : (buffer.recv chunk).readLen = buffer.readLen + chunk.length := by
            rw [← length_content, content, List.length_append, length_content]
          rw [length, content, List.append_assoc] at later
          exact later
        · have filled : (buffer.recv chunk).readLen = serverReadBufSize := by
            simp only [recv, List.length_take]
            omega
          rw [if_neg (by omega)] at later
          rw [if_neg (by omega)]
          exact later

theorem consume_content {line rest : List UInt8} (held : buffer.content = line ++ lf :: rest)
    : (buffer.consume (line.length + 1)).content = rest := by
  have length : buffer.readLen = line.length + 1 + rest.length := by
    rw [← buffer.length_content, held, List.length_append, List.length_cons]
    omega
  have behind : (buffer.readBuf.drop (line.length + 1)).take (buffer.readLen - (line.length + 1))
      = rest := by
    have moved := congrArg (List.drop (line.length + 1)) held
    rw [content, List.drop_take] at moved
    rw [moved, ← List.drop_drop, List.drop_left]
    rfl
  rw [consume]
  split
  · simp only [content, behind, overwrite, List.take_zero, List.nil_append]
    rw [show buffer.readLen - (line.length + 1) = rest.length by omega, List.take_left]
  · have nothing : rest = [] := List.eq_nil_of_length_eq_zero (by omega)
    rw [nothing]
    rfl

/-- The loop over the lines cuts the bytes in the buffer, up to a line that is too long.
Witness: induction on the fuel; a line is taken out of the front of the buffer.
-/
theorem parse_spec {fuel : Nat} (enough : buffer.readLen < fuel) (nth : Nat)
    : let cut := Lines.cut lf buffer.content
      let parsed := buffer.parse (fun _ => true) fuel nth
      if (∀ line ∈ cut.1, line.length ≤ serverMaxLineLen) ∧ cut.2.length < serverMaxLineLen then
        parsed.1 = cut.1.map ClientCmd.ofLine
          ∧ ∃ after, parsed.2 = some after ∧ after.content = cut.2
      else parsed.2 = none := by
  induction fuel generalizing buffer nth with
  | zero => omega
  | succ fuel ih =>
      intro cut parsed
      by_cases complete : lf ∈ buffer.content
      · obtain ⟨line, rest, held, noLf⟩ := List.eq_append_cons_of_mem complete
        have consumed := consume_content held
        have shorter : (buffer.consume (line.length + 1)).readLen < fuel := by
          have length := congrArg List.length held
          rw [buffer.length_content, List.length_append, List.length_cons] at length
          rw [← length_content, consumed]
          omega
        have later := @ih (buffer.consume (line.length + 1)) shorter (nth + 1)
        simp only [consumed] at later
        have cut_eq : cut = (line :: (Lines.cut lf rest).1, (Lines.cut lf rest).2) := by
          simp only [cut, held, Lines.cut_line noLf]
        have parsed_eq : parsed = if serverMaxLineLen < line.length then ([], none)
            else (.ofLine line :: ((buffer.consume (line.length + 1)).parse (fun _ => true) fuel
                (nth + 1)).1,
              ((buffer.consume (line.length + 1)).parse (fun _ => true) fuel (nth + 1)).2) := by
          simp only [parsed, parse, held, memchr_line noLf, Bool.true_eq_false, if_false,
            List.take_left]
        rw [cut_eq, parsed_eq]
        by_cases long : serverMaxLineLen < line.length
        · rw [if_neg, if_pos long]
          rintro ⟨short, _⟩
          exact absurd (short line List.mem_cons_self) (Nat.not_le.mpr long)
        · rw [if_neg long]
          simp only [List.forall_mem_cons, Nat.not_lt.mp long, true_and, List.map_cons]
          split at later
          · next short =>
              rw [if_pos short]
              exact ⟨congrArg _ later.1, later.2⟩
          · next other =>
              rw [if_neg other]
              exact later
      · have cut_eq : cut = ([], buffer.content) := Lines.cut_torn complete
        have parsed_eq : parsed
            = ([], if serverMaxLineLen ≤ buffer.readLen then none else some buffer) := by
          simp only [parsed, parse, memchr_none complete]
        rw [cut_eq, parsed_eq, length_content]
        simp only [List.not_mem_nil, false_implies, implies_true, true_and, List.map_nil]
        split
        · next short => exact ⟨buffer, if_neg (Nat.not_le.mpr short), rfl⟩
        · next long => exact if_pos (Nat.not_lt.mp long)

/-- A batch is read when it leaves space in the buffer, and no line in there is too long. -/
theorem handleRead_spec {chunks : List (List UInt8)} (data : ∀ chunk ∈ chunks, chunk ≠ [])
    : let cut := Lines.cut lf (buffer.content ++ chunks.flatten)
      let handled := buffer.handleRead chunks (fun _ => true)
      if buffer.content.length + chunks.flatten.length < serverReadBufSize
          ∧ (∀ line ∈ cut.1, line.length ≤ serverMaxLineLen) ∧ cut.2.length < serverMaxLineLen then
        handled.1 = cut.1.map ClientCmd.ofLine
          ∧ ∃ after, handled.2 = some after ∧ after.content = cut.2
      else handled.2 = none := by
  intro cut handled
  have filling := @fill_spec buffer chunks data
  rw [length_content]
  by_cases space : buffer.readLen + chunks.flatten.length < serverReadBufSize
  · rw [if_pos space] at filling
    obtain ⟨filled, isFilled, content⟩ := filling
    have parsing := @parse_spec filled (filled.readLen + 1) (Nat.lt_succ_self _) 0
    simp only [content] at parsing
    simp only [handled, handleRead, isFilled, space, true_and]
    exact parsing
  · rw [if_neg space] at filling
    rw [if_neg (fun all => space all.1)]
    simp only [handled, handleRead, filling]

end ClientBuffer

-- Streams

/-- What is carried over to the next batch of a stream, by what is behind its last LF. -/
def carryOver (carry batch : List UInt8) : List (List UInt8) × List UInt8 :=
  Lines.cut lf (carry ++ batch)

/-- A line of the stream is longer than a command may be, or what is behind the last LF is as long
as one may be.
-/
def TooLong (stream : List UInt8) : Prop :=
  (∃ line ∈ (Lines.cut lf stream).1, serverMaxLineLen < line.length)
    ∨ serverMaxLineLen ≤ (Lines.cut lf stream).2.length

/-- The batch leaves space in the buffer, and does not end right behind the longest line. -/
def Roomy (carry batch : List UInt8) : Prop :=
  carry.length + batch.length < serverReadBufSize
    ∧ (carryOver carry batch).2.length ≠ serverMaxLineLen

instance instDecidableRoomy (carry batch : List UInt8) : Decidable (Roomy carry batch) :=
  inferInstanceAs (Decidable (_ ∧ _))

theorem tooLong_append {front : List UInt8}
    (short : ∀ line ∈ (Lines.cut lf front).1, line.length ≤ serverMaxLineLen) (later : List UInt8)
    : TooLong (front ++ later) ↔ TooLong ((Lines.cut lf front).2 ++ later) := by
  simp only [TooLong, Lines.cut_append lf front later, List.mem_append]
  refine or_congr_left ⟨?_, ?_⟩
  · rintro ⟨line, member | member, long⟩
    · exact absurd (short line member) (Nat.not_le.mpr long)
    · exact ⟨line, member, long⟩
  · rintro ⟨line, member, long⟩
    exact ⟨line, .inr member, long⟩

/-- Where no line of the stream comes near the longest, only the space in the buffer counts. -/
theorem along_roomy {carry : List UInt8} {batches : List (List UInt8)}
    (lines : ∀ line ∈ (Lines.cut lf (carry ++ batches.flatten)).1, line.length < serverMaxLineLen)
    (left : (Lines.cut lf (carry ++ batches.flatten)).2.length < serverMaxLineLen)
    (fits : Along carryOver (fun carry batch => carry.length + batch.length < serverReadBufSize)
      carry batches)
    : Along carryOver Roomy carry batches := by
  induction batches generalizing carry with
  | nil => trivial
  | cons batch batches ih =>
      rw [List.flatten_cons, ← List.append_assoc] at lines left
      have beginning := Lines.cut_beginning_length
        (fun line member => Nat.le_sub_one_of_lt (lines line member)) (Nat.le_sub_one_of_lt left)
      have shorter : (carryOver carry batch).2.length ≠ serverMaxLineLen :=
        Nat.ne_of_lt (beginning.2.trans_lt (by decide))
      rw [Lines.cut_append] at lines left
      exact ⟨⟨fits.1, shorter⟩,
        ih (fun line member => lines line (List.mem_append_right _ member)) left fits.2⟩

namespace ClientBuffer

variable {buffer : ClientBuffer}

theorem run_rejected (batches : List (List (List UInt8)))
    : (Runs.run step none batches).2 = none := by
  induction batches with
  | nil => rfl
  | cons batch batches ih => exact ih

/-- A run ends with the lines of the stream, or the connection is rejected.
Witness: induction on the batches; the buffer holds what is carried over.
-/
theorem run_spec {batches : List (List (List UInt8))}
    (data : ∀ batch ∈ batches, ∀ chunk ∈ batch, chunk ≠ [])
    (torn : lf ∉ buffer.content) (short : buffer.content.length < serverMaxLineLen)
    : let stream := buffer.content ++ (batches.map List.flatten).flatten
      let smooth := ¬ TooLong stream
        ∧ Along carryOver Roomy buffer.content (batches.map List.flatten)
      let ran := buffer.run batches
      (smooth → ran.1.flatten = (Lines.cut lf stream).1.map ClientCmd.ofLine
          ∧ ∃ after, ran.2 = some after ∧ after.content = (Lines.cut lf stream).2)
        ∧ (¬ smooth → ran.2 = none) := by
  induction batches generalizing buffer with
  | nil =>
      intro stream smooth ran
      have cut_eq : Lines.cut lf stream = ([], buffer.content) := by
        simp only [stream, List.map_nil, List.flatten_nil, List.append_nil, Lines.cut_torn torn]
      have fine : smooth := by
        refine ⟨?_, trivial⟩
        rw [TooLong, cut_eq]
        simpa using short
      rw [cut_eq]
      exact ⟨fun _ => ⟨rfl, buffer, rfl, rfl⟩, fun rough => absurd fine rough⟩
  | cons batch batches ih =>
      intro stream smooth ran
      let later := (batches.map List.flatten).flatten
      have stream_eq : stream = (buffer.content ++ batch.flatten) ++ later := by
        simp only [stream, later, List.map_cons, List.flatten_cons, List.append_assoc]
      have handling := @handleRead_spec buffer batch (data batch List.mem_cons_self)
      simp only at handling
      split at handling
      · next accepted =>
          obtain ⟨fits, lines, left⟩ := accepted
          obtain ⟨commands, after, isAfter, content⟩ := handling
          have rest := @ih after (fun other member => data other (List.mem_cons_of_mem _ member))
            (content ▸ (Lines.cut_spec lf _).2.2) (content ▸ left)
          have ran_eq : ran = ((buffer.handleRead batch (fun _ => true)).1 :: (after.run batches).1,
              (after.run batches).2) := by
            simp only [ran, run, Runs.run, step, isAfter]
          have smooth_iff : smooth ↔ ¬ TooLong (after.content ++ later)
              ∧ Along carryOver Roomy after.content (batches.map List.flatten) := by
            have roomy : Roomy buffer.content batch.flatten := ⟨fits, Nat.ne_of_lt left⟩
            simp only [smooth, stream_eq, tooLong_append lines, List.map_cons, Along, roomy,
              true_and, carryOver, content]
          rw [smooth_iff, ran_eq, stream_eq, Lines.cut_append, ← content]
          refine ⟨fun fine => ⟨?_, (rest.1 fine).2⟩, rest.2⟩
          rw [List.flatten_cons, commands, (rest.1 fine).1, List.map_append]
      · next refused =>
          have rough : ¬ smooth := by
            rintro ⟨fine, roomy, _⟩
            rw [stream_eq] at fine
            simp only [TooLong, not_or, not_exists, not_and, Nat.not_lt, Nat.not_le] at fine
            obtain ⟨lines, left⟩ := Lines.cut_beginning_length fine.1 (Nat.le_of_lt fine.2)
            exact refused ⟨roomy.1, lines, Nat.lt_of_le_of_ne left roomy.2⟩
          refine ⟨fun fine => absurd fine rough, fun _ => ?_⟩
          simp only [ran, run, Runs.run, step, handling]
          exact run_rejected batches

/-- The runs that end a connection. -/
theorem rejected_iff {memory : List UInt8} (sized : memory.length = serverReadBufSize)
    {batches : List (List (List UInt8))} (data : ∀ batch ∈ batches, ∀ chunk ∈ batch, chunk ≠ [])
    : ((initial memory sized).run batches).2 = none
      ↔ TooLong (batches.map List.flatten).flatten
        ∨ ¬ Along carryOver Roomy [] (batches.map List.flatten) := by
  have ran := @run_spec (initial memory sized) batches data List.not_mem_nil
    (show 0 < serverMaxLineLen by decide)
  simp only [show (initial memory sized).content = [] from rfl, List.nil_append] at ran
  constructor
  · intro rejected
    by_contra smooth
    rw [not_or, not_not] at smooth
    obtain ⟨_, after, isAfter, _⟩ := ran.1 smooth
    rw [rejected] at isAfter
    exact absurd isAfter (by simp)
  · intro rough
    apply ran.2
    rw [not_and_or, not_not]
    exact rough

end ClientBuffer

-- Framing

/-- The command has the bytes of the line without a CR at the end, and their number. -/
def ClientCmd.Carries (cmd : ClientCmd) (line : List UInt8) : Prop :=
  (line = cmd.line ++ [cr] ∨ line = cmd.line ∧ line.getLast? ≠ some cr)
    ∧ cmd.len = cmd.line.length

theorem ClientCmd.ofLine_carries (line : List UInt8) : (ofLine line).Carries line := by
  refine ⟨?_, rfl⟩
  simp only [ofLine, stripCr]
  split
  · next ends => exact .inl (List.dropLast_append_getLast? cr ends).symm
  · next other => exact .inr ⟨rfl, other⟩

/-- A stream of lines that are not near the longest, in batches that leave space in the buffer, is
read as its lines.
-/
theorem request_framing {memory : List UInt8} (sized : memory.length = serverReadBufSize)
    {batches : List (List (List UInt8))} (data : ∀ batch ∈ batches, ∀ chunk ∈ batch, chunk ≠ [])
    (lines : ∀ line ∈ (Lines.cut lf (batches.map List.flatten).flatten).1, line.length ≤ 8191)
    (trailing : (Lines.cut lf (batches.map List.flatten).flatten).2.length ≤ 8191)
    (fits : Along carryOver (fun carry batch => carry.length + batch.length ≤ 16383) []
      (batches.map List.flatten))
    : let stream := (batches.map List.flatten).flatten
      let ran := (ClientBuffer.initial memory sized).run batches
      List.Forall₂ ClientCmd.Carries ran.1.flatten (Lines.cut lf stream).1
        ∧ ∃ buffer, ran.2 = some buffer ∧ buffer.content = (Lines.cut lf stream).2 := by
  intro stream ran
  have shorter : ∀ line ∈ (Lines.cut lf stream).1, line.length < serverMaxLineLen :=
    fun line member => Nat.lt_succ_of_le (lines line member)
  have left : (Lines.cut lf stream).2.length < serverMaxLineLen := Nat.lt_succ_of_le trailing
  have smooth : ¬ TooLong stream := by
    rintro (⟨line, member, long⟩ | long)
    · exact absurd (shorter line member) (Nat.lt_asymm long)
    · exact absurd left (Nat.not_lt.mpr long)
  have roomy : Along carryOver Roomy [] (batches.map List.flatten) := by
    refine along_roomy shorter left ?_
    simpa only [serverReadBufSize, Nat.lt_succ_iff] using fits
  obtain ⟨commands, held⟩ := (@ClientBuffer.run_spec (ClientBuffer.initial memory sized) batches
    data List.not_mem_nil (show 0 < serverMaxLineLen by decide)).1 ⟨smooth, roomy⟩
  refine ⟨?_, held⟩
  rw [show ran.1.flatten = (Lines.cut lf stream).1.map ClientCmd.ofLine from commands,
    List.forall₂_map_left_iff, List.forall₂_same]
  exact fun line _ => ClientCmd.ofLine_carries line

/-- Two commands and the beginning of a third in two batches. -/
theorem request_framing_two
    : let ran := (ClientBuffer.initial (List.replicate 16384 7) List.length_replicate).run
        [[[80, cr], [lf, 81]], [[82, lf, 83]]]
      List.Forall₂ ClientCmd.Carries ran.1.flatten [[80, cr], [81, 82]]
        ∧ ∃ buffer, ran.2 = some buffer ∧ buffer.content = [83] :=
  @request_framing (List.replicate 16384 7) List.length_replicate
    [[[80, cr], [lf, 81]], [[82, lf, 83]]] (by decide) (by decide) (by decide)
    ⟨by decide, by decide, trivial⟩

-- Rejections

/-- A stream with a line that is too long is rejected in all batches. Any other is rejected when a
batch is not roomy, so two deliveries of it may differ.
-/
theorem rejection_independent_iff {memory : List UInt8} (sized : memory.length = serverReadBufSize)
    {first second : List (List (List UInt8))}
    (firstData : ∀ batch ∈ first, ∀ chunk ∈ batch, chunk ≠ [])
    (secondData : ∀ batch ∈ second, ∀ chunk ∈ batch, chunk ≠ [])
    (same : (first.map List.flatten).flatten = (second.map List.flatten).flatten)
    : let client := ClientBuffer.initial memory sized
      let stream := (first.map List.flatten).flatten
      let smooth := fun batches : List (List (List UInt8)) =>
        Along carryOver Roomy [] (batches.map List.flatten)
      (((client.run first).2 = none ↔ (client.run second).2 = none)
          ↔ TooLong stream ∨ (smooth first ↔ smooth second))
        ∧ ((client.run first).2 = none ↔ TooLong stream ∨ ¬ smooth first) := by
  intro client stream smooth
  have ofFirst := ClientBuffer.rejected_iff sized firstData
  have ofSecond := ClientBuffer.rejected_iff sized secondData
  rw [← same] at ofSecond
  refine ⟨?_, ofFirst⟩
  simp only [client, smooth, ofFirst, ofSecond]
  tauto

/-- A command in one batch or in two. -/
theorem rejection_independent_iff_split
    : let client := ClientBuffer.initial (List.replicate 16384 7) List.length_replicate
      (client.run [[[80, lf]]]).2 = none ↔ (client.run [[[80]], [[lf]]]).2 = none :=
  (@rejection_independent_iff (List.replicate 16384 7) List.length_replicate
    [[[80, lf]]] [[[80]], [[lf]]] (by decide) (by decide) rfl).1.mpr
      (.inr (iff_of_true ⟨by decide, trivial⟩ ⟨by decide, by decide, trivial⟩))

namespace ClientBuffer

variable {memory line : List UInt8}

theorem cut_whole (noLf : lf ∉ line) : Lines.cut lf (line ++ [lf]) = ([line], []) :=
  Lines.cut_line noLf []

/-- The longest line is read with its LF, and rejected when the LF comes in the next batch. -/
theorem run_longest (sized : memory.length = serverReadBufSize) (noLf : lf ∉ line)
    (longest : line.length = serverMaxLineLen)
    : ((initial memory sized).run [[line ++ [lf]]]).2 ≠ none
      ∧ ((initial memory sized).run [[line], [[lf]]]).2 = none := by
  have nonempty : line ≠ [] := List.ne_nil_of_length_pos (longest ▸ by decide)
  constructor
  · rw [ne_eq, rejected_iff sized (by simp), not_or, not_not]
    simp [TooLong, Along, Roomy, carryOver, cut_whole noLf, longest, serverReadBufSize,
      serverMaxLineLen]
  · rw [rejected_iff sized (by simp [nonempty])]
    refine .inr (fun smooth => smooth.1.2 ?_)
    simp [carryOver, Lines.cut_torn noLf, longest]

/-- Two lines that fill the buffer are read one by one, and rejected when they come together. -/
theorem run_burst (sized : memory.length = serverReadBufSize) (noLf : lf ∉ line)
    (half : line.length + 1 = serverMaxLineLen)
    : ((initial memory sized).run [[line ++ [lf]], [line ++ [lf]]]).2 ≠ none
      ∧ ((initial memory sized).run [[line ++ [lf], line ++ [lf]]]).2 = none := by
  have length : line.length = 8191 := Nat.succ_injective half
  constructor
  · have cut_eq : Lines.cut lf (line ++ lf :: (line ++ [lf])) = ([line, line], []) := by
      rw [Lines.cut_line noLf, cut_whole noLf]
    rw [ne_eq, rejected_iff sized (by simp), not_or, not_not]
    simp [TooLong, Along, Roomy, carryOver, cut_eq, cut_whole noLf, length, serverReadBufSize,
      serverMaxLineLen]
  · rw [rejected_iff sized (by simp)]
    refine .inr (fun smooth => absurd smooth.1.1 ?_)
    simp [length, serverReadBufSize]

end ClientBuffer

/-- A line of 8192 bytes with its LF, in one batch or with the LF in a second one; and two lines of
8191 bytes, in one batch or in two. No line is longer than a command may be.
-/
theorem rejection_depends_on_batches
    : let client := ClientBuffer.initial (List.replicate 16384 7) List.length_replicate
      let longest : List UInt8 := List.replicate 8192 97
      let half : List UInt8 := List.replicate 8191 97
      ((client.run [[longest ++ [lf]]]).2 ≠ none ∧ (client.run [[longest], [[lf]]]).2 = none)
        ∧ (client.run [[half ++ [lf]], [half ++ [lf]]]).2 ≠ none
        ∧ (client.run [[half ++ [lf], half ++ [lf]]]).2 = none := by
  intro client longest half
  have noLf (count : Nat) : lf ∉ List.replicate count (97 : UInt8) :=
    fun member => absurd (List.eq_of_mem_replicate member) (by decide)
  have longestLength : longest.length = serverMaxLineLen := List.length_replicate
  have halfLength : half.length + 1 = serverMaxLineLen := congrArg Nat.succ List.length_replicate
  exact ⟨ClientBuffer.run_longest _ (noLf 8192) longestLength,
    ClientBuffer.run_burst _ (noLf 8191) halfLength⟩

end MiniKv
