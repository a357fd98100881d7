import MiniKv.Correctness.ReplyLines
import MiniKv.Refinement.FileFailures

/-! Values travel through command lines unchanged. The value of a SET is the rest of its line behind
the blank that ends the key, whatever bytes it has, and GET prints it back; what a client sees of
the other keys does not move, though the table may have grown in between.
-/

namespace MiniKv

variable {store : Store} {server : Server} {key value : CString}

-- Taking a line apart

/-- The line with a command word and its argument text. -/
def Verb.line (verb : Verb) (text : List UInt8) : List UInt8 :=
  verb.word ++ 32 :: text

theorem Verb.word_letters (verb : Verb) : 32 ∉ verb.word ∧ 0 ∉ verb.word := by
  cases verb <;> decide

/-- The words differ, so the comparisons find the command that was written. -/
theorem Verb.find_word (verb : Verb)
    : verbOrder.find? (fun other => other.word = verb.word) = some verb := by
  cases verb <;> decide

theorem Verb.lineCommand_line (verb : Verb) {text : List UInt8} (noNul : 0 ∉ text)
    : lineCommand (verb.line text) = some (verb, some text) := by
  obtain ⟨noBlank, noZero⟩ := verb.word_letters
  have whole : (CString.ofBuffer (verb.line text)).bytes = verb.line text := by
    apply CString.ofBuffer_bytes
    simp [Verb.line, noNul, noZero]
  simp only [lineCommand, whole]
  rw [Verb.line, splitAtDelim_field noBlank, verb.find_word]
  rfl

/-- A master executes the command of a line. -/
theorem Verb.execute_line (master : server.replication.mode = .master) (verb : Verb)
    {text : List UInt8} (noNul : 0 ∉ text) (env : CommandEnv)
    : protocolExecuteCommand server (verb.line text) env
      = verb.execute server (some text) env := by
  have command := verb.lineCommand_line noNul
  rcases protocolExecuteCommand_cases server (verb.line text) env with
    ⟨unknown, _⟩ | ⟨other, args, known, executed⟩
  · rw [command] at unknown
    contradiction
  · rw [command, Option.some.injEq, Prod.mk.injEq] at known
    obtain ⟨rfl, rfl⟩ := known
    rw [executed, if_neg (by simp [master])]

/-- The argument text of `SET key value`. -/
def setText (key value : CString) : List UInt8 :=
  key.bytes ++ 32 :: value.bytes

theorem setText_noNul (key value : CString) : 0 ∉ setText key value := by
  simp [setText, key.noNul, value.noNul]

theorem split_setText (validKey : ValidKey key) (value : CString)
    : Arguments.split (some (setText key value)) = some (key.bytes, value.bytes) := by
  have noBlank : 32 ∉ key.bytes := validKey.notMem (by decide)
  simp only [Arguments.split, setText, splitAtDelim_field noBlank, if_neg validKey.nonempty]

theorem executeSet_setText (validKey : ValidKey key) (validValue : ValidValue value)
    (env : CommandEnv)
    : executeSet server (some (setText key value)) env
      = server.replyWith (kvSet server.store (some key) (some value) env.call).2
          (setReply (kvSet server.store (some key) (some value) env.call).1) := by
  have shortKey : ¬ kvMaxKeyLen < key.bytes.length := Nat.not_lt.mpr validKey.bounded
  have shortValue : ¬ kvMaxValueLen < value.bytes.length := Nat.not_lt.mpr validValue
  simp only [executeSet, split_setText validKey, Server.whenGiven, if_neg shortKey,
    if_neg shortValue, CString.ofBuffer_self]

-- What GET answers

/-- `kv_get` returns the visible string. -/
theorem kvGet_eq_visible (wf : store.table.WellFormed) (key : CString) (env : CallEnv)
    : (kvGet store (some key) env).1
      = (LogicalMap.visible store.table.logical env.now key).bind Content.text := by
  rw [kvGet_fst, LogicalMap.visible, wf.logical_lookup, Option.filter_map, Option.map_map,
    Option.bind_map]
  rfl

/-- The reply of GET to what `kv_get` returns. -/
def getReply (got : Option CString) : Response :=
  (got.map Response.value).getD notFound

/-- The reply of GET is told by its text and what `kv_get` returns for it. -/
theorem executeGet_reply (server : Server) (text : List UInt8) (env : CommandEnv)
    : (executeGet server (some text) env).1
      = some (if text = [] ∨ 32 ∈ text then invalidArguments
          else getReply (kvGet server.store (some (CString.ofBuffer text)) env.call).1) := by
  simp only [executeGet, Arguments.key]
  split
  · rfl
  · simp only [Server.whenGiven]
    cases (kvGet server.store (some (CString.ofBuffer text)) env.call).1 <;> rfl

/-- A valid value is printed whole. -/
theorem Response.value_sent (validValue : ValidValue value) (respBuf : List UInt8)
    : (Response.value value).sent respBuf = valueText value := by
  obtain ⟨positive, short⟩ := valueText_short validValue
  obtain ⟨outLen, sent⟩ :=
    Response.printed_sent (List.ne_nil_of_length_pos positive) short respBuf
  rwa [Response.value, if_neg (by omega)]

-- What SET leaves

/-- Without a stream the state of the file system does not matter. -/
theorem kvSet_of_closed (closed : store.aof.fp = none) (key value : Option CString) (env : CallEnv)
    : kvSet store key value env = kvSet store key value env.withFiles := by
  have grown : store.table.growIfLoaded env.withFiles = store.table.growIfLoaded env := rfl
  simp only [kvSet, closed, if_true, grown, kvSetInternal_withFiles]

/-- The key is absent, or it holds a string that has not expired. -/
def Store.Settable (store : Store) (key : CString) (now : Int64) : Prop :=
  ∀ entry, store.table.lookup key = some entry →
    (∃ text, entry.value = .string text) ∧ entryIsExpired entry now = false

/-- Nothing is in the way of a new string: no stream, no limit. -/
structure Store.Unbounded (store : Store) : Prop where
  closed : store.aof.fp = none
  capacity : store.table.maxCapacity = 0
  budget : store.table.maxMemoryBudget = 0

/-- The machine stores the string: the old deadline of the key stays, and it has not passed. -/
theorem LogicalMap.set_of_settable (wf : store.table.WellFormed) {now : Int64}
    (settable : store.Settable key now) (value : CString)
    : ∃ binding : Binding, LogicalMap.set store.table.logical 0 key value
          = .recorded (.status kvOk) (store.table.logical.insert key binding) (.set key value)
        ∧ binding.content = .string value
        ∧ binding.isExpired now = false := by
  have shown := wf.logical_lookup key
  cases found : store.table.lookup key with
  | none =>
      rw [found, Option.map_none] at shown
      refine ⟨⟨.string value, 0⟩, ?_, rfl, rfl⟩
      simp only [LogicalMap.set, shown, LogicalMap.full_zero, Bool.false_eq_true, if_false]
  | some entry =>
      rw [found, Option.map_some] at shown
      obtain ⟨⟨text, isString⟩, unexpired⟩ := settable entry found
      obtain ⟨entryKey, payload, deadline, used⟩ := entry
      obtain rfl : payload = .string text := isString
      refine ⟨⟨.string value, deadline⟩, ?_, rfl, unexpired⟩
      simp only [LogicalMap.set, shown, Entry.binding, Payload.content]

/-- `kv_set` then succeeds, makes the value visible and leaves the other bindings. -/
theorem kvSet_succeeds (wf : store.table.WellFormed) (unbounded : store.Unbounded) {env : CallEnv}
    (allocates : env.Allocates) (validKey : ValidKey key) (validValue : ValidValue value)
    (settable : store.Settable key env.now)
    : (kvSet store (some key) (some value) env).1 = kvOk
      ∧ ∃ binding : Binding, store.table.Becomes
          (kvSet store (some key) (some value) env).2.table
          (store.table.logical.insert key binding)
        ∧ binding.content = .string value
        ∧ binding.isExpired env.now = false := by
  obtain ⟨binding, outcome, content, unexpired⟩ :=
    LogicalMap.set_of_settable wf settable value
  have isMatch := kvSet_matches wf unbounded.budget allocates.clean (some key) (some value)
  simp only [Op.Refines, Op.outcome, validateKey_of_valid validKey,
    validateValue_of_valid validValue, unbounded.closed, Option.isSome_none, Bool.false_and,
    Bool.false_eq_true, if_false, unbounded.capacity, outcome] at isMatch
  rw [kvSet_of_closed unbounded.closed]
  refine ⟨?_, binding, isMatch.table, content, unexpired⟩
  have reply := isMatch.reply
  simpa [Op.call, Reply.view, Reply.map, Outcome.recorded] using reply

-- The round trip

/-- A command line is answered with exactly these bytes, whatever was in the buffer. -/
def Server.Answers (server : Server) (line : List UInt8) (env : CommandEnv) (text : List UInt8)
    : Prop :=
  ∃ response, (protocolExecuteCommand server line env).1 = some response
    ∧ ∀ respBuf, response.sent respBuf = text

/-- GET of a visible valid string answers its bytes. -/
theorem Server.answers_get (wf : server.store.table.WellFormed)
    (master : server.replication.mode = .master) (validKey : ValidKey key)
    (validValue : ValidValue value) {env : CommandEnv}
    (seen : LogicalMap.visible server.store.table.logical env.call.now key
      = some (.string value))
    : server.Answers (Verb.get.line key.bytes) env (valueText value) := by
  refine ⟨.value value, ?_, Response.value_sent validValue⟩
  have given : ¬ (key.bytes = [] ∨ 32 ∈ key.bytes) :=
    not_or.mpr ⟨validKey.nonempty, validKey.notMem (by decide)⟩
  rw [Verb.get.execute_line master key.noNul]
  refine (executeGet_reply server key.bytes env).trans ?_
  rw [if_neg given, CString.ofBuffer_self, kvGet_eq_visible wf, seen]
  rfl

/-- GET answers alike on two servers that show the same of the key. -/
theorem Server.get_reply_congr {other : Server} (wf : server.store.table.WellFormed)
    (otherWf : other.store.table.WellFormed) (master : server.replication.mode = .master)
    (otherMaster : other.replication.mode = .master) {env : CommandEnv}
    (same : LogicalMap.visible server.store.table.logical env.call.now key
      = LogicalMap.visible other.store.table.logical env.call.now key)
    : (protocolExecuteCommand server (Verb.get.line key.bytes) env).1
      = (protocolExecuteCommand other (Verb.get.line key.bytes) env).1 := by
  rw [Verb.get.execute_line master key.noNul, Verb.get.execute_line otherMaster key.noNul]
  refine (executeGet_reply server key.bytes env).trans ?_
  refine Eq.trans ?_ (executeGet_reply other key.bytes env).symm
  rw [CString.ofBuffer_self, kvGet_eq_visible wf, kvGet_eq_visible otherWf, same]

/-- On a master without an append-only file, limits or failing allocations, `SET key value` answers
`OK` for every valid key that is absent or holds an unexpired string and every valid value. A GET of
the key at the same time then answers the value, and every other GET answers as before.
-/
theorem set_get_round_trip (reachable : server.Reachable)
    (master : server.replication.mode = .master) (unbounded : server.store.Unbounded)
    (validKey : ValidKey key) (validValue : ValidValue value) {env : CommandEnv}
    (allocates : env.call.Allocates) (settable : server.store.Settable key env.call.now)
    : server.Answers (Verb.set.line (setText key value)) env (ascii ['O', 'K'] ++ crlf)
      ∧ (∀ later : CommandEnv, later.call.now = env.call.now →
          (protocolExecuteCommand server (Verb.set.line (setText key value)) env).2.Answers
            (Verb.get.line key.bytes) later (valueText value))
      ∧ ∀ other : CString, other ≠ key → ∀ later : CommandEnv,
          (protocolExecuteCommand
            (protocolExecuteCommand server (Verb.set.line (setText key value)) env).2
            (Verb.get.line other.bytes) later).1
          = (protocolExecuteCommand server (Verb.get.line other.bytes) later).1 := by
  have wf := reachable.wellFormed
  obtain ⟨status, binding, becomes, content, unexpired⟩ :=
    kvSet_succeeds wf unbounded allocates validKey validValue settable
  have executed : protocolExecuteCommand server (Verb.set.line (setText key value)) env
      = server.replyWith (kvSet server.store (some key) (some value) env.call).2 okReply := by
    rw [Verb.set.execute_line master (setText_noNul key value)]
    refine (executeSet_setText validKey validValue env).trans ?_
    rw [status]
    rfl
  have afterWf : (server.replyWith (kvSet server.store (some key) (some value) env.call).2
      okReply).2.store.table.WellFormed := becomes.wellFormed
  rw [executed]
  refine ⟨⟨okReply, by rw [executed]; rfl, fun respBuf => ?_⟩, ?_, ?_⟩
  · have stored := take_overwrite_zero respBuf (ascii ['O', 'K'] ++ crlf) []
    rwa [List.append_nil] at stored
  · intro later sameTime
    refine Server.answers_get afterWf master validKey validValue ?_
    have shown := becomes.logical
    simp only [Server.replyWith, shown, LogicalMap.visible, Finmap.lookup_insert, sameTime]
    rw [Option.filter_some_pos (by simp [unexpired]), Option.map_some, content]
  · intro other different later
    refine Server.get_reply_congr afterWf wf master master ?_
    simp only [Server.replyWith, becomes.logical, LogicalMap.visible,
      Finmap.lookup_insert_of_ne _ different]

/-- A blank, a tab and a CR over an older string. -/
theorem set_get_round_trip_blanks
    : ∃ start, kvInitFull 1 0 0 none [] 7 (.at 0) (fun _ => .at 0) = .ok start
        ∧ let opened : Server := { store := start, replication := ⟨.master, []⟩ }
          let server := (protocolExecuteCommand opened (Verb.set.line [107, 32, 97]) (.at 1)).2
          let stored :=
            (protocolExecuteCommand server (Verb.set.line [107, 32, 32, 9, 13]) (.at 2)).2
          stored.Answers (Verb.get.line [107]) (.at 2)
            (ascii ['V', 'A', 'L', 'U', 'E', ' '] ++ [32, 9, 13] ++ crlf) := by
  have started : kvInitFull 1 0 0 none [] 7 (.at 0) (fun _ => .at 0)
      = .ok (Store.fresh 1 0 0 7 []) := rfl
  refine ⟨_, started, ?_⟩
  have held : ((protocolExecuteCommand
      { store := Store.fresh 1 0 0 7 [], replication := ⟨.master, []⟩ }
      (Verb.set.line [107, 32, 97]) (.at 1)).2.store.table.lookup ⟨[107], by decide⟩).map
        Entry.value = some (.string ⟨[97], by decide⟩) := by
    rfl
  have deadline : ((protocolExecuteCommand
      { store := Store.fresh 1 0 0 7 [], replication := ⟨.master, []⟩ }
      (Verb.set.line [107, 32, 97]) (.at 1)).2.store.table.lookup ⟨[107], by decide⟩).map
        Entry.expireAtMs = some 0 := by
    rfl
  have reachable : Server.Reachable (protocolExecuteCommand
      { store := Store.fresh 1 0 0 7 [], replication := ⟨.master, []⟩ }
      (Verb.set.line [107, 32, 97]) (.at 1)).2 := .command _ _ (.opened _ started)
  have unbounded : Store.Unbounded (protocolExecuteCommand
      { store := Store.fresh 1 0 0 7 [], replication := ⟨.master, []⟩ }
      (Verb.set.line [107, 32, 97]) (.at 1)).2.store := ⟨rfl, rfl, rfl⟩
  have accepted : validateKey (some ⟨[107], by decide⟩) = .ok ⟨[107], by decide⟩ := rfl
  have key : ValidKey ⟨[107], by decide⟩ := (validateKey_eq_ok.mp accepted).2
  have value : ValidValue ⟨[32, 9, 13], by decide⟩ := show 3 ≤ 4096 by decide
  refine (set_get_round_trip reachable rfl unbounded key value (fun _ => rfl) ?_).2.1 (.at 2) rfl
  intro entry here
  rw [here, Option.map_some, Option.some.injEq] at held deadline
  refine ⟨⟨_, held⟩, ?_⟩
  rw [entryIsExpired, deadline]
  decide

end MiniKv
