import MiniKv.Invariants.Replies

/-! Replies and the response buffer. Every branch prints within the size it passes on, except the
one that prints a set member by member and counts what it could not print.
-/

namespace MiniKv

open MiniKv.Foundations.Decimal

variable {server : Server}

/-- Every store ends inside the response buffer, and so does the reply. -/
structure Response.Fits (response : Response) : Prop where
  writes : ∀ write ∈ response.writes, write.1 + write.2.length ≤ respBufSize
  outLen : response.outLen ≤ respBufSize

/-- The reply, if there is one, fits. -/
def FitsBuffer (executed : Executed) : Prop :=
  ∀ response, executed.1 = some response → response.Fits

-- Single stores

theorem Response.Fits.silent (close detach : Bool)
    : ({ Response.silent with close, detach } : Response).Fits :=
  ⟨by simp [Response.silent], by simp [Response.silent]⟩

theorem Response.Fits.message {text : List Char} (short : text.length + 2 ≤ respBufSize)
    : (Response.message text).Fits := by
  have length : (ascii text ++ crlf).length = text.length + 2 := by simp [ascii, crlf]
  constructor
  · intro write member
    obtain rfl := List.mem_singleton.mp member
    simpa [length] using short
  · exact length.trans_le short

/-- `snprintf` stays within the room it is given. -/
theorem snprintf_within {offset room : Nat} {text : List UInt8} {write : Nat × List UInt8}
    (member : write ∈ (snprintf offset room text).1)
    : write.1 + write.2.length ≤ offset + room := by
  simp only [snprintf] at member
  split at member
  · simp at member
  · obtain rfl := List.mem_singleton.mp member
    simp only [List.length_append, List.length_take, List.length_singleton]
    omega

theorem printedLength_le (n : Int) : printedLength n ≤ respBufSize := by
  simp only [printedLength]
  split
  · omega
  · omega

theorem Response.Fits.printed (text : List UInt8) : (Response.printed text).Fits := by
  refine ⟨fun write member => ?_, printedLength_le _⟩
  have within := @snprintf_within 0 respBufSize text write member
  omega

theorem Response.Fits.number (number : Int) : (Response.number number).Fits :=
  .printed _

theorem errInternal_fits : errInternal.Fits :=
  Response.Fits.message (by decide)

/-- GET writes twice when the value does not fit; both times inside the buffer. -/
theorem Response.Fits.value (value : CString) : (Response.value value).Fits := by
  have printed := Response.Fits.printed (valueText value)
  simp only [Response.value]
  split
  · refine ⟨fun write member => ?_, errInternal_fits.outLen⟩
    rcases List.mem_append.mp member with first | second
    · exact printed.writes write first
    · exact errInternal_fits.writes write second
  · exact printed

-- Printing a set

/-- The bytes of `"$%zu\r\n%s\r\n"`. -/
def memberBytes (member : CString) : Nat :=
  (decimal member.length).length + member.length + 5

/-- The bytes of a whole members reply. -/
def membersReplyBytes (members : List CString) : Nat :=
  (decimal members.length).length + 3 + (members.map memberBytes).sum

theorem length_memberText (member : CString)
    : (memberText member).length = memberBytes member := by
  simp only [memberText, crlf, memberBytes, CString.length, List.length_append, List.length_cons,
    List.length_nil]
  omega

theorem sizeSub_of_le {written : Nat} (inside : written ≤ respBufSize)
    : sizeSub respBufSize written = respBufSize - written := by
  have size : respBufSize = 8320 := rfl
  simp only [sizeSub]
  omega

/-- What is printed is counted in full, whether there was room for it or not. -/
theorem printBehind_written {text : List UInt8} (small : text.length ≤ intMax) (written : Nat)
    : (printBehind written text).2 = written + text.length := by
  simp only [printBehind, snprintf, if_pos small]
  split
  · simp
  · omega

theorem printBehind_within {written : Nat} (inside : written ≤ respBufSize) (text : List UInt8)
    {write : Nat × List UInt8} (member : write ∈ (printBehind written text).1)
    : write.1 + write.2.length ≤ respBufSize := by
  have within := snprintf_within member
  rw [sizeSub_of_le inside] at within
  omega

theorem printMembers_written {members : List CString}
    (small : ∀ member ∈ members, memberBytes member ≤ intMax) (written : Nat)
    : (printMembers members written).2 = written + (members.map memberBytes).sum := by
  induction members generalizing written with
  | nil => rfl
  | cons member rest ih =>
      have first := small member List.mem_cons_self
      rw [← length_memberText] at first
      simp only [printMembers, List.map_cons, List.sum_cons]
      rw [ih (fun other inside => small other (List.mem_cons_of_mem _ inside)),
        printBehind_written first, length_memberText, Nat.add_assoc]

/-- As long as the whole text has room, every store of the loop is inside, by induction on the
members with what is written so far generalized.
-/
theorem printMembers_within {members : List CString}
    (small : ∀ member ∈ members, memberBytes member ≤ intMax) {written : Nat}
    (inside : written + (members.map memberBytes).sum ≤ respBufSize)
    : ∀ write ∈ (printMembers members written).1, write.1 + write.2.length ≤ respBufSize := by
  induction members generalizing written with
  | nil => simp [printMembers]
  | cons member rest ih =>
      have first := small member List.mem_cons_self
      rw [← length_memberText] at first
      simp only [List.map_cons, List.sum_cons] at inside
      intro write inLoop
      simp only [printMembers, List.mem_append] at inLoop
      rcases inLoop with now | later
      · exact printBehind_within (by omega) _ now
      · rw [printBehind_written first, length_memberText] at later
        exact ih (fun other inside => small other (List.mem_cons_of_mem _ inside)) (by omega) write
          later

theorem five_mul_length_le (members : List CString)
    : 5 * members.length ≤ (members.map memberBytes).sum := by
  induction members with
  | nil => simp
  | cons member rest ih =>
      simp only [List.map_cons, List.sum_cons, List.length_cons, memberBytes]
      omega

/-- The members reply fits exactly when its whole text is no longer than the buffer. -/
theorem Response.members_fits_iff {members : List CString}
    (small : ∀ member ∈ members, memberBytes member ≤ intMax)
    : (Response.members members members.length).Fits
      ↔ membersReplyBytes members ≤ respBufSize := by
  have size : respBufSize = 8320 := rfl
  have limit : intMax = 2147483647 := rfl
  have least := five_mul_length_le members
  have digits : (decimal members.length).length ≤ members.length + 1 :=
    length_decimal Nat.lt_two_pow_self
  let header := 42 :: decimal members.length ++ crlf
  have headerLength : header.length = (decimal members.length).length + 3 := by
    simp [header, crlf]
  have outLen : (Response.members members members.length).outLen
      = (printBehind 0 header).2 + (members.map memberBytes).sum :=
    printMembers_written small _
  constructor
  · intro fits
    have bound := fits.outLen
    rw [outLen] at bound
    -- A header that overflows an `int` is not counted, but then the members alone are too long.
    by_cases short : header.length ≤ intMax
    · rw [printBehind_written short, headerLength] at bound
      simpa [membersReplyBytes] using bound
    · omega
  · intro room
    simp only [membersReplyBytes] at room
    have short : header.length ≤ intMax := by omega
    have counted := printBehind_written short 0
    refine ⟨fun write member => ?_, ?_⟩
    · rcases List.mem_append.mp member with first | later
      · exact printBehind_within (by omega) header first
      · refine printMembers_within small ?_ write later
        change (printBehind 0 header).2 + _ ≤ _
        omega
    · rw [outLen]
      omega

-- Commands

theorem Response.Plain.fits {Property : CString → Prop} {response : Response}
    (plain : response.Plain Property)
    : response.Fits := by
  cases plain with
  | message short _ => exact .message short
  | bye =>
      have bye := @Response.Fits.message ['B', 'Y', 'E'] (by decide)
      exact ⟨bye.writes, bye.outLen⟩
  | number _ => exact .number _
  | value _ => exact .value _
  | popped _ => exact .printed _

/-- Every branch but SMEMBERS fits. -/
theorem Verb.execute_fits {verb : Verb} (other : verb ≠ .smembers)
    (wf : server.store.table.WellFormed) (args : Arguments) (env : CommandEnv)
    : FitsBuffer (verb.execute server args env) := by
  by_cases sync : verb = .sync
  · subst sync
    intro response same
    obtain rfl := Option.some.inj same
    simp only
    split <;> exact Response.Fits.silent _ _
  · have plain := Verb.execute_plain sync other (fun _ _ _ _ => trivial) wf args env
    exact fun response same => (plain response same).fits

theorem memberBytes_small {member : CString} (valid : ValidValue member)
    : memberBytes member ≤ intMax := by
  have limit : intMax = 2147483647 := rfl
  have short : member.length ≤ 4096 := valid
  have digits : (decimal member.length).length ≤ member.length + 1 :=
    length_decimal Nat.lt_two_pow_self
  simp only [memberBytes]
  omega

/-- The set that a key names at some time. -/
def Table.NamesSet (table : Table) (now : Int64) (key : CString) (chains : KvSet) : Prop :=
  ∃ entry, table.lookup key = some entry ∧ entryIsExpired entry now = false
    ∧ entry.value = .set chains

/-- The reply to SMEMBERS of a key fits unless the key names a set that is too long to print. -/
theorem executeSmembers_fits_iff (wf : server.store.table.WellFormed) {args : Arguments}
    {key : CString} (given : args.key = some key) (env : CommandEnv)
    : FitsBuffer (executeSmembers server args env)
      ↔ ∀ chains, server.store.table.NamesSet env.call.now key chains →
          env.call.alloc .result = true → membersReplyBytes chains.members ≤ respBufSize := by
  have empty (store : Store) : FitsBuffer (server.replyWith store (.message ['*', '0'])) :=
    Server.replyWith_good (.message (by decide)) store
  have reported := server.store.table.findEntry_fst key env.call.now
  simp only [executeSmembers, Server.whenGiven, given, kvSmembers]
  cases found : (server.store.table.findEntryUnlocked key env.call.now).1 with
  | none =>
      refine iff_of_true (empty _) ?_
      rintro chains ⟨entry, here, live, _⟩
      rw [found, here, Option.filter_some, live] at reported
      contradiction
  | some entry =>
      rw [found] at reported
      obtain ⟨here, live⟩ := Option.filter_eq_some_iff.mp reported.symm
      have valid := wf.value_of_lookup here
      have named : ∀ chains, server.store.table.NamesSet env.call.now key chains →
          entry.value = .set chains := by
        rintro chains ⟨other, same, _, isSet⟩
        rw [here, Option.some.injEq] at same
        exact same ▸ isSet
      obtain ⟨entryKey, payload, expireAtMs, time⟩ := entry
      cases payload with
      | set chains =>
          have setWf : chains.WellFormed := valid
          have small : ∀ member ∈ chains.members, memberBytes member ≤ intMax :=
            fun member inside => memberBytes_small (setWf.bounded member inside)
          simp only
          split_ifs with none refused
          · refine iff_of_true (empty _) (fun other names _ => ?_)
            obtain rfl := Payload.set.inj (named other names)
            rw [setWf.count, List.length_eq_zero_iff] at none
            rw [none]
            decide
          · refine iff_of_true (empty _) (fun other names allocated => ?_)
            rw [refused] at allocated
            contradiction
          · rw [setWf.count]
            constructor
            · intro fits other names _
              obtain rfl := Payload.set.inj (named other names)
              exact (Response.members_fits_iff small).mp (fits _ rfl)
            · intro room
              refine Server.replyWith_good ((Response.members_fits_iff small).mpr ?_) _
              exact room chains ⟨_, here, by simpa using live, rfl⟩ (by simpa using refused)
      | _ =>
          exact iff_of_true (empty _) (fun chains names => by cases named chains names)

/-- The line asks for the members of a set whose reply is longer than the buffer, and the call gets
the memory for the list of members.
-/
def ListsTooMuch (server : Server) (line : List UInt8) (env : CommandEnv) : Prop :=
  ∃ args key chains,
    lineCommand line = some (.smembers, args)
    ∧ args.key = some key
    ∧ server.store.table.NamesSet env.call.now key chains
    ∧ env.call.alloc .result = true
    ∧ respBufSize < membersReplyBytes chains.members

/-- The reply to a line stays inside the response buffer exactly when the line does not ask for the
members of a set that is too long to print.
-/
theorem reply_fits_iff (reachable : server.Reachable) (line : List UInt8) (env : CommandEnv)
    : FitsBuffer (protocolExecuteCommand server line env) ↔ ¬ ListsTooMuch server line env := by
  have wf := reachable.wellFormed
  rcases protocolExecuteCommand_cases server line env with
    ⟨unknown, executed⟩ | ⟨verb, args, known, executed⟩
  · refine iff_of_true ?_ ?_
    · rcases executed with executed | executed
      · exact executed ▸ Server.reply_good (.message (by decide))
      · exact executed ▸ Server.reply_good (.message (by decide))
    · rintro ⟨args, _, _, known, _⟩
      rw [unknown] at known
      contradiction
  · by_cases lists : verb = .smembers
    · subst lists
      rw [executed, if_neg (by simp [Verb.isWrite])]
      cases given : args.key with
      | none =>
          refine iff_of_true ?_ ?_
          · simp only [Verb.execute, executeSmembers, given, Server.whenGiven]
            exact Server.reply_good (.message (by decide))
          · rintro ⟨other, key, _, same, asked, _⟩
            rw [known, Option.some.injEq, Prod.mk.injEq] at same
            rw [← same.2, given] at asked
            contradiction
      | some key =>
          refine (executeSmembers_fits_iff wf given env).trans ?_
          constructor
          · rintro room ⟨other, asked, chains, same, named, holds, allocated, long⟩
            rw [known, Option.some.injEq, Prod.mk.injEq] at same
            rw [← same.2, given, Option.some.injEq] at named
            subst named
            exact absurd (room chains holds allocated) (by omega)
          · intro fine chains holds allocated
            by_contra long
            exact fine ⟨args, key, chains, known, given, holds, allocated, by omega⟩
    · refine iff_of_true ?_ ?_
      · rw [executed]
        split
        · exact Server.reply_good (.message (by decide))
        · exact Verb.execute_fits lists wf args env
      · rintro ⟨_, _, _, same, _⟩
        rw [known, Option.some.injEq, Prod.mk.injEq] at same
        exact lists same.1

/-- A set of one short member is listed. -/
theorem reply_fits_iff_short
    : ∃ start, kvInitFull 1 0 0 none [] 7 (.at 0) (fun _ => .at 0) = .ok start
        ∧ let opened : Server := { store := start, replication := ⟨.master, []⟩ }
          let server :=
            (protocolExecuteCommand opened (Verb.sadd.word ++ [32, 107, 32, 97]) (.at 1)).2
          FitsBuffer (protocolExecuteCommand server (Verb.smembers.word ++ [32, 107]) (.at 2)) := by
  have started : kvInitFull 1 0 0 none [] 7 (.at 0) (fun _ => .at 0)
      = .ok (Store.fresh 1 0 0 7 []) := rfl
  refine ⟨_, started, ?_⟩
  refine (reply_fits_iff (.command _ _ (.opened _ started)) _ (.at 2)).mpr ?_
  rintro ⟨args, key, chains, command, given, ⟨entry, here, _, isSet⟩, _, long⟩
  obtain rfl : some [107] = args := by
    have same : lineCommand (Verb.smembers.word ++ [32, 107]) = some (.smembers, some [107]) := by
      decide +kernel
    exact congrArg Prod.snd (Option.some.inj (same.symm.trans command))
  obtain rfl : _ = key := Option.some.inj given
  have held : ((protocolExecuteCommand
      { store := Store.fresh 1 0 0 7 [], replication := ⟨.master, []⟩ }
      (Verb.sadd.word ++ [32, 107, 32, 97]) (.at 1)).2.store.table.lookup
        (CString.ofBuffer [107])).map Entry.value
      = some (.set (KvSet.empty.add ⟨[97], by decide⟩)) := by
    rfl
  rw [here, Option.map_some, isSet] at held
  obtain rfl := Payload.set.inj (Option.some.inj held)
  exact absurd long (by decide +kernel)

/-- Three members of 2770 bytes and one of a single byte: the fourth is printed 21 bytes behind the
buffer, and the reply is 28 bytes longer than it.
-/
theorem members_overrun_buffer
    : ∃ start, kvInitFull 1 0 0 none [] 7 (.at 0) (fun _ => .at 0) = .ok start
        ∧ let opened : Server := { store := start, replication := ⟨.master, []⟩ }
          let members : List (List UInt8) :=
            [.replicate 2770 97, .replicate 2770 98, .replicate 2770 99, [102]]
          let server := members.foldl (fun server member => (protocolExecuteCommand server
            (Verb.sadd.word ++ [32, 107, 32] ++ member) (.at 1)).2) opened
          let executed := protocolExecuteCommand server (Verb.smembers.word ++ [32, 107]) (.at 2)
          server.Reachable
          ∧ executed.1.map (fun response =>
              (response.outLen, response.writes.map (Prod.map id List.length)))
            = some (8348, [(0, 5), (4, 2780), (2783, 2780), (5562, 2758), (8341, 8)])
          ∧ ¬ FitsBuffer executed := by
  have started : kvInitFull 1 0 0 none [] 7 (.at 0) (fun _ => .at 0)
      = .ok (Store.fresh 1 0 0 7 []) := rfl
  refine ⟨_, started, ?_⟩
  intro opened members server executed
  have printed : executed.1.map (fun response =>
      (response.outLen, response.writes.map (Prod.map id List.length)))
        = some (8348, [(0, 5), (4, 2780), (2783, 2780), (5562, 2758), (8341, 8)]) := by
    decide +kernel
  refine ⟨.command _ _ (.command _ _ (.command _ _ (.command _ _ (.opened _ started)))), printed,
    ?_⟩
  intro fits
  obtain ⟨response, replied, same⟩ := Option.map_eq_some_iff.mp printed
  have bound := (fits response replied).outLen
  rw [(Prod.mk.inj same).1] at bound
  exact absurd bound (by decide)

end MiniKv
