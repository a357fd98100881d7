import MiniKv.Correctness.BudgetedInsertion
import MiniKv.Correctness.ReplyBounds
import MiniKv.Foundations.Lines
import MiniKv.Server.Service

/-! One line for every command. No stored value has an LF in it, as none of the lines it can come
from has, so a client that counts lines counts replies. A push whose list is evicted under its hands
answers nothing that could be relied on.
-/

namespace MiniKv

open MiniKv.Foundations
open MiniKv.Foundations.Runs (Along)
open MiniKv.Foundations.Decimal
open MiniKv.Foundations.DoublyLinked

variable {server : Server} {line : List UInt8} {env : CommandEnv}

-- Replies as lines

/-- One line with CR and LF at its end, and no other LF, whatever was in the buffer. -/
def Response.IsLine (response : Response) : Prop :=
  ∀ respBuf, respBuf.length = respBufSize →
    ∃ text, response.sent respBuf = text ++ crlf ∧ lf ∉ text

theorem take_overwrite_zero (bytes data rest : List UInt8)
    : (overwrite bytes 0 (data ++ rest)).take data.length = data := by
  simp [overwrite]

theorem Response.IsLine.message {text : List Char} (noLf : lf ∉ ascii text)
    : (Response.message text).IsLine := by
  intro respBuf _
  refine ⟨ascii text, ?_, noLf⟩
  have stored := take_overwrite_zero respBuf (ascii text ++ crlf) []
  rw [List.append_nil] at stored
  exact stored

theorem Response.printed_sent {text : List UInt8} (nonempty : text ≠ [])
    (short : text.length < respBufSize) (respBuf : List UInt8)
    : (Response.printed text).outLen = text.length
      ∧ (Response.printed text).sent respBuf = text := by
  have positive := List.length_pos_iff.mpr nonempty
  have small : text.length ≤ intMax := short.le.trans (by decide)
  have outLen : (Response.printed text).outLen = text.length := by
    simp only [Response.printed, snprintf, if_pos small, printedLength]
    rw [if_pos ⟨by omega, by omega⟩]
    omega
  refine ⟨outLen, ?_⟩
  have whole : text.take (respBufSize - 1) = text := List.take_of_length_le (by omega)
  rw [Response.sent, outLen]
  simp only [Response.printed, snprintf, if_neg (show respBufSize ≠ 0 by decide), whole]
  exact take_overwrite_zero respBuf text [0]

theorem Response.IsLine.printed {text : List UInt8} (noLf : lf ∉ text)
    (short : text.length + 2 < respBufSize)
    : (Response.printed (text ++ crlf)).IsLine := by
  intro respBuf _
  refine ⟨text, ?_, noLf⟩
  refine (Response.printed_sent (by simp [crlf]) ?_ respBuf).2
  rw [List.length_append]
  exact short

theorem Response.IsLine.number {number : Int} (fits : Fits64 number)
    : (Response.number number).IsLine := by
  have same : (Int64.ofInt number).toInt = number := Int64.toInt_ofInt_of_le fits.1 fits.2
  have short := length_decimalInt (Int64.ofInt number)
  have size : respBufSize = 8320 := rfl
  rw [same] at short
  apply @Response.IsLine.printed (58 :: decimalInt number)
  · rw [List.mem_cons, not_or]
    exact ⟨by decide, decimalInt_notMem (by decide) (by decide)⟩
  · rw [List.length_cons]
    omega

theorem valueText_short {value : CString} (validValue : ValidValue value)
    : 0 < (valueText value).length ∧ (valueText value).length < respBufSize := by
  have short : value.bytes.length ≤ 4096 := validValue
  have size : respBufSize = 8320 := rfl
  have length : (valueText value).length = 6 + value.bytes.length + 2 := by
    simp only [valueText, List.length_append]
    rfl
  omega

/-- A value without an LF that fits the response. -/
structure Showable (value : CString) : Prop where
  noLf : lf ∉ value.bytes
  valid : ValidValue value

theorem valueText_isLine {value : CString} (showable : Showable value)
    : (Response.printed (valueText value)).IsLine := by
  have short : value.bytes.length ≤ 4096 := showable.valid
  have size : respBufSize = 8320 := rfl
  have word : (ascii ['V', 'A', 'L', 'U', 'E', ' ']).length = 6 := rfl
  apply Response.IsLine.printed
  · rw [List.mem_append, not_or]
    exact ⟨by decide, showable.noLf⟩
  · rw [List.length_append]
    omega

theorem Response.IsLine.value {value : CString} (showable : Showable value)
    : (Response.value value).IsLine := by
  obtain ⟨positive, short⟩ := valueText_short showable.valid
  have outLen := (Response.printed_sent (List.ne_nil_of_length_pos positive) short []).1
  rw [Response.value, if_neg (by omega)]
  exact valueText_isLine showable

theorem Response.Plain.isLine {response : Response} (plain : response.Plain Showable)
    : response.IsLine := by
  cases plain with
  | message _ noLf => exact .message noLf
  | bye => exact Response.IsLine.message (by decide)
  | number fits => exact .number fits
  | value showable => exact .value showable
  | popped showable => exact valueText_isLine showable

-- Values from lines

theorem CString.ofBuffer_notMem {byte : UInt8} {buffer : List UInt8} (absent : byte ∉ buffer)
    : byte ∉ (CString.ofBuffer buffer).bytes :=
  fun member => absent ((List.takeWhile_prefix _).subset member)

theorem splitAtDelim_notMem {byte delim : UInt8} {text rest : List UInt8} (absent : byte ∉ text)
    (split : (splitAtDelim delim text).2 = some rest)
    : byte ∉ rest := by
  intro member
  simp only [splitAtDelim] at split
  split at split
  · contradiction
  · next kept =>
      obtain rfl := Option.some.inj split
      apply absent
      apply (List.dropWhile_suffix (fun byte => byte != delim)).subset
      rw [kept]
      exact List.mem_cons_of_mem _ member

theorem Arguments.split_notMem {byte : UInt8} {args : Arguments}
    (absent : ∀ text ∈ args, byte ∉ text) {key value : List UInt8}
    (split : args.split = some (key, value))
    : byte ∉ value := by
  cases args with
  | none => contradiction
  | some text =>
      simp only [Arguments.split] at split
      split at split
      · contradiction
      · next rest given =>
          split_ifs at split
          obtain ⟨_, rfl⟩ := Prod.mk.inj (Option.some.inj split)
          exact splitAtDelim_notMem (absent text rfl) (congrArg Prod.snd given)

/-- The value in an operation comes from the arguments. -/
theorem Verb.operation_notMem {byte : UInt8} {verb : Verb} {args : Arguments} {op : Op}
    (absent : ∀ text ∈ args, byte ∉ text) (operation : verb.operation args = some op)
    : ∀ value ∈ op.stored, byte ∉ value.bytes := by
  have keyValue : ∀ key value, args.keyValue = some (key, value) → byte ∉ value.bytes := by
    intro key value given
    simp only [Arguments.keyValue] at given
    split at given
    · contradiction
    · next split =>
        split_ifs at given
        obtain ⟨_, rfl⟩ := Prod.mk.inj (Option.some.inj given)
        exact CString.ofBuffer_notMem (Arguments.split_notMem absent split)
  cases verb
  case lpush | sadd =>
    obtain ⟨⟨key, value⟩, given, rfl⟩ := Option.map_eq_some_iff.mp operation
    simp only [Op.stored, Option.toList_some, List.mem_singleton, forall_eq]
    exact keyValue key value given
  case set =>
    obtain ⟨⟨key, value⟩, split, given⟩ := Option.bind_eq_some_iff.mp operation
    simp only at given
    split_ifs at given
    obtain rfl := Option.some.inj given
    simp only [Op.stored, Option.toList_some, List.mem_singleton, forall_eq]
    exact CString.ofBuffer_notMem (Arguments.split_notMem absent split)
  case sync | ping | quit | save | bgsave | bgrewriteaof => simp [Verb.operation] at operation
  all_goals
    obtain ⟨_, _, rfl⟩ := Option.map_eq_some_iff.mp operation
    simp [Op.stored]

theorem lineCommand_notMem {byte : UInt8} (absent : byte ∉ line) {verb : Verb} {args : Arguments}
    (known : lineCommand line = some (verb, args))
    : ∀ text ∈ args, byte ∉ text := by
  intro text given
  obtain ⟨_, _, same⟩ := Option.map_eq_some_iff.mp known
  obtain ⟨_, rfl⟩ := Prod.mk.inj same
  exact splitAtDelim_notMem (CString.ofBuffer_notMem absent) given

-- Commands without a reply

/-- A push that finds or makes its list, and evicts it. -/
def Table.LosesList (table : Table) (key value : CString) (env : CallEnv) : Prop :=
  (table.openList key env).1 = .ok ()
    ∧ (table.openList key env).2.EvictsOwn key (listNodeBytes value) env

/-- An add of a new member that finds or makes its set, and evicts it. -/
def Table.LosesSet (table : Table) (key value : CString) (env : CallEnv) : Prop :=
  (table.openSet key env).1 = .ok ()
    ∧ (∃ entry chains, (table.openSet key env).2.lookup key = some entry
      ∧ entry.value = .set chains ∧ value ∉ chains.members)
    ∧ (table.openSet key env).2.EvictsOwn key (setNodeBytes value) env

/-- The line is an LPUSH or SADD that evicts its own container. -/
def LosesContainer (server : Server) (line : List UInt8) (env : CommandEnv) : Prop :=
  server.replication.mode ≠ .replica ∧ ∃ args key value,
    Arguments.keyValue args = some (key, value) ∧ ValidKey key ∧ ValidValue value
    ∧ (lineCommand line = some (.lpush, args) ∧ server.store.table.LosesList key value env.call
      ∨ lineCommand line = some (.sadd, args) ∧ server.store.table.LosesSet key value env.call)

variable {table : Table} {store : Store} {key value : CString}

theorem Table.linkNode_undefined_iff (wf : table.WellFormed) {entry : Entry}
    (found : table.lookup key = some entry) {link : Payload → Option (Payload × Int)}
    (links : link entry.value ≠ none) (bytes : Nat) (env : CallEnv)
    : (table.linkNode key bytes link env).1 = .undefined ↔ table.EvictsOwn key bytes env := by
  simp only [Table.linkNode, Table.EvictsOwn]
  cases made : (table.makeRoom bytes).1 with
  | false => simp
  | true =>
      cases node : env.alloc .node with
      | false => simp
      | true =>
          cases val : env.alloc .value with
          | false => simp
          | true =>
              cases left : (table.makeRoom bytes).2.lookup key with
              | none => simp
              | some kept =>
                  have same := (table.makeRoom_removals bytes).lookup wf left
                  obtain rfl := Option.some.inj (found.symm.trans same)
                  obtain ⟨linked, makes⟩ := Option.ne_none_iff_exists'.mp links
                  simp [makes]

theorem Linking.reply_eq_none {linking : Linking}
    : linking.reply = none ↔ linking = .undefined := by
  cases linking <;> simp [Linking.reply]

/-- A list that was found or made is there. -/
theorem Table.WellFormed.openList_lookup (wf : table.WellFormed) (validKey : ValidKey key)
    {env : CallEnv} (opened : (table.openList key env).1 = .ok ())
    : ∃ entry links, (table.openList key env).2.lookup key = some entry
        ∧ entry.value = .list links := by
  obtain ⟨entry, found, isList, _⟩ := wf.openContainer_lookup validKey
    (show (Payload.list DList.empty).WellFormed from listWellFormed_empty) rfl opened
  obtain ⟨links, shown⟩ := Payload.exists_of_isList isList
  exact ⟨entry, links, found, shown⟩

/-- A set that was found or made is there. -/
theorem Table.WellFormed.openSet_lookup (wf : table.WellFormed) (validKey : ValidKey key)
    {env : CallEnv} (opened : (table.openSet key env).1 = .ok ())
    : ∃ entry chains, (table.openSet key env).2.lookup key = some entry
        ∧ entry.value = .set chains := by
  obtain ⟨entry, found, isSet, _⟩ := wf.openContainer_lookup validKey
    (show (Payload.set KvSet.empty).WellFormed from setWellFormed_empty) rfl opened
  obtain ⟨chains, shown⟩ := Payload.exists_of_isSet isSet
  exact ⟨entry, chains, found, shown⟩

theorem kvLpush_none_iff (wf : store.table.WellFormed) (key value : CString) (env : CallEnv)
    : (kvLpush store (some key) (some value) env).1 = none
      ↔ ValidKey key ∧ ValidValue value ∧ store.table.LosesList key value env := by
  rcases kvLpush_eq store key value env with
    ⟨err, _, invalid, refused⟩ | ⟨validKey, validValue, replied, _⟩
  · rw [refused]
    exact iff_of_false (by simp) (fun lost => invalid ⟨lost.1, lost.2.1⟩)
  · rw [replied, Linking.reply_eq_none, Table.LosesList]
    simp only [validKey, validValue, true_and]
    cases opens : (store.table.openList key env).1 with
    | error err => simp [Table.lpush_failed (Prod.ext opens rfl)]
    | ok _ =>
        obtain ⟨entry, links, found, isList⟩ := wf.openList_lookup validKey opens
        have openedWf := ((wf.openList validKey env).keeps wf).wellFormed
        rw [Table.lpush_opened (Prod.ext opens rfl), and_iff_right rfl]
        exact Table.linkNode_undefined_iff openedWf found (by simp [isList, pushFrontPayload]) _ env

theorem kvSadd_none_iff (wf : store.table.WellFormed) (key value : CString) (env : CallEnv)
    : (kvSadd store (some key) (some value) env).1 = none
      ↔ ValidKey key ∧ ValidValue value ∧ store.table.LosesSet key value env := by
  rcases kvSadd_eq store key value env with
    ⟨err, _, invalid, refused⟩ | ⟨validKey, validValue, replied, _⟩
  · rw [refused]
    exact iff_of_false (by simp) (fun lost => invalid ⟨lost.1, lost.2.1⟩)
  · rw [replied, Linking.reply_eq_none, Table.LosesSet]
    simp only [validKey, validValue, true_and]
    cases opens : (store.table.openSet key env).1 with
    | error err => simp [Table.sadd_failed (Prod.ext opens rfl)]
    | ok _ =>
        obtain ⟨entry, chains, found, isSet⟩ := wf.openSet_lookup validKey opens
        have openedWf := ((wf.openSet validKey env).keeps wf).wellFormed
        have setWf : chains.WellFormed := by
          have valid := openedWf.value_of_lookup found
          rwa [isSet] at valid
        rw [Table.sadd_opened (Prod.ext opens rfl) found isSet, and_iff_right rfl]
        by_cases member : value ∈ chains.members
        · rw [if_pos (setWf.contains_iff.mpr member)]
          refine iff_of_false (by simp) ?_
          rintro ⟨⟨other, others, there, isOther, missing⟩, _⟩
          obtain rfl := Option.some.inj (found.symm.trans there)
          obtain rfl := Payload.set.inj (isSet.symm.trans isOther)
          exact missing member
        · rw [if_neg (fun contained => member (setWf.contains_iff.mp contained))]
          rw [and_iff_right ⟨entry, chains, found, isSet, member⟩]
          exact Table.linkNode_undefined_iff openedWf found (by simp [isSet, addPayload]) _ env

theorem Server.whenGiven_some {α : Type} {parsed : Option α} {handle : α → Executed}
    (answers : ∀ arguments, (handle arguments).1 ≠ none)
    : (server.whenGiven parsed handle).1 ≠ none := by
  cases parsed with
  | none => simp [Server.whenGiven, Server.reply]
  | some arguments => exact answers arguments

/-- Only a push or an add may be left without a reply. -/
theorem Verb.execute_some {verb : Verb} (notLpush : verb ≠ .lpush) (notSadd : verb ≠ .sadd)
    (args : Arguments)
    : (verb.execute server args env).1 ≠ none := by
  cases verb
  case lpush | sadd => contradiction
  case sync | bgsave | bgrewriteaof => exact Option.some_ne_none _
  case save =>
    refine Server.whenGiven_some (fun _ => ?_)
    split <;> exact Option.some_ne_none _
  case get =>
    refine Server.whenGiven_some (fun _ => ?_)
    simp only
    split <;> exact Option.some_ne_none _
  case set =>
    refine Server.whenGiven_some (fun _ => ?_)
    simp only
    split_ifs <;> exact Option.some_ne_none _
  all_goals exact Server.whenGiven_some (fun _ => Option.some_ne_none _)

theorem executeLpush_none_iff (wf : server.store.table.WellFormed) (args : Arguments)
    : (executeLpush server args env).1 = none ↔ ∃ key value, args.keyValue = some (key, value)
        ∧ ValidKey key ∧ ValidValue value ∧ server.store.table.LosesList key value env.call := by
  simp only [executeLpush]
  cases args.keyValue with
  | none => simp [Server.whenGiven, Server.reply]
  | some both => simp [Server.whenGiven, kvLpush_none_iff wf, Prod.ext_iff]

theorem executeSadd_none_iff (wf : server.store.table.WellFormed) (args : Arguments)
    : (executeSadd server args env).1 = none ↔ ∃ key value, args.keyValue = some (key, value)
        ∧ ValidKey key ∧ ValidValue value ∧ server.store.table.LosesSet key value env.call := by
  simp only [executeSadd]
  cases args.keyValue with
  | none => simp [Server.whenGiven, Server.reply]
  | some both => simp [Server.whenGiven, kvSadd_none_iff wf, Prod.ext_iff]

/-- A command is left without a reply exactly when it evicts its own container. -/
theorem protocolExecuteCommand_none_iff (wf : server.store.table.WellFormed)
    (line : List UInt8) (env : CommandEnv)
    : (protocolExecuteCommand server line env).1 = none ↔ LosesContainer server line env := by
  rw [LosesContainer]
  rcases protocolExecuteCommand_cases server line env with
    ⟨unknown, executed⟩ | ⟨verb, args, known, executed⟩
  · have answered : (protocolExecuteCommand server line env).1 ≠ none := by
      rcases executed with executed | executed <;> simp [executed, Server.reply]
    simp [unknown, answered]
  · rw [executed]
    by_cases refused : verb.isWrite ∧ server.replication.mode = .replica
    · rw [if_pos refused]
      simp [Server.reply, refused.2]
    · rw [if_neg refused]
      simp only [known, Option.some.injEq, Prod.mk.injEq]
      by_cases push : verb = .lpush
      · subst push
        have writes : server.replication.mode ≠ .replica := fun replica => refused ⟨rfl, replica⟩
        refine (executeLpush_none_iff wf args).trans ?_
        simp [writes]
      · by_cases add : verb = .sadd
        · subst add
          have writes : server.replication.mode ≠ .replica := fun replica => refused ⟨rfl, replica⟩
          refine (executeSadd_none_iff wf args).trans ?_
          simp [writes]
        · simp [push, add, Verb.execute_some push add args]

-- Sessions

/-- One command line with what the outside does meanwhile. -/
def Server.command (server : Server) (command : List UInt8 × CommandEnv) : Executed :=
  protocolExecuteCommand server command.1 command.2

/-- SYNC answers on the socket itself, and SMEMBERS in many lines. -/
def Exempt (line : List UInt8) : Prop :=
  ∃ args, lineCommand line = some (.sync, args) ∨ lineCommand line = some (.smembers, args)

/-- A reply of one line that fits the response buffer. -/
def AnswersLine (server : Server) (command : List UInt8 × CommandEnv) : Prop :=
  ¬ Exempt command.1 →
    ∃ response, (server.command command).1 = some response ∧ response.Fits ∧ response.IsLine

/-- The table is well formed and no value in it has an LF. -/
structure Server.LineSafe (server : Server) : Prop where
  wellFormed : server.store.table.WellFormed
  noLf : server.store.table.AllValues (fun value => lf ∉ value.bytes)

theorem Server.LineSafe.showable (safe : server.LineSafe)
    : server.store.table.AllValues Showable :=
  fun entry member value inside => ⟨safe.noLf entry member value inside,
    (safe.wellFormed.entries entry member).value.values_valid value inside⟩

theorem Server.LineSafe.command (safe : server.LineSafe) (noLf : lf ∉ line) (env : CommandEnv)
    : (protocolExecuteCommand server line env).2.LineSafe := by
  refine ⟨((protocolExecuteCommand_path safe.wellFormed line env).keeps
    safe.wellFormed).wellFormed, ?_⟩
  rcases protocolExecuteCommand_cases server line env with
    ⟨_, executed | executed⟩ | ⟨verb, args, known, executed⟩
  · exact executed ▸ safe.noLf
  · exact executed ▸ safe.noLf
  · rw [executed]
    split
    · exact safe.noLf
    · rw [verb.execute_table]
      cases operation : verb.operation args with
      | none => exact safe.noLf
      | some op =>
          exact op.call_allValues env.call safe.noLf safe.wellFormed
            (Verb.operation_notMem (lineCommand_notMem noLf known) operation)

theorem Server.LineSafe.plain (safe : server.LineSafe) (ordinary : ¬ Exempt line)
    (env : CommandEnv)
    : Replies (Response.Plain Showable) (protocolExecuteCommand server line env) := by
  rcases protocolExecuteCommand_cases server line env with
    ⟨_, executed | executed⟩ | ⟨verb, args, known, executed⟩
  · exact executed ▸ Server.reply_good (.message (by decide) (by decide))
  · exact executed ▸ Server.reply_good (.message (by decide) (by decide))
  · rw [executed]
    split
    · exact Server.reply_good (.message (by decide) (by decide))
    · refine Verb.execute_plain ?_ ?_ safe.showable safe.wellFormed args env
      · rintro rfl
        exact ordinary ⟨args, .inl known⟩
      · rintro rfl
        exact ordinary ⟨args, .inr known⟩

/-- A command answers with one line unless it evicts its own container. -/
theorem Server.LineSafe.answersLine_iff (safe : server.LineSafe)
    (command : List UInt8 × CommandEnv)
    : AnswersLine server command ↔ ¬ LosesContainer server command.1 command.2 := by
  have unanswered := protocolExecuteCommand_none_iff safe.wellFormed command.1 command.2
  constructor
  · rintro answers lost
    have ordinary : ¬ Exempt command.1 := by
      obtain ⟨_, _, _, _, _, _, _, ⟨known, _⟩ | ⟨known, _⟩⟩ := lost
      all_goals
        rintro ⟨other, exempt | exempt⟩ <;> simp [known] at exempt
    obtain ⟨response, replied, _⟩ := answers ordinary
    rw [Server.command, unanswered.mpr lost] at replied
    contradiction
  · intro kept ordinary
    obtain ⟨response, replied⟩ :=
      Option.ne_none_iff_exists'.mp (fun missing => kept (unanswered.mp missing))
    have plain := safe.plain ordinary command.2 response replied
    exact ⟨response, replied, plain.fits, plain.isLine⟩

/-- Without a budget nothing is evicted. -/
theorem not_losesContainer (wf : server.store.table.WellFormed)
    (unlimited : server.store.table.maxMemoryBudget = 0) (line : List UInt8) (env : CommandEnv)
    : ¬ LosesContainer server line env := by
  rintro ⟨_, args, key, value, _, validKey, validValue, ⟨_, lost⟩ | ⟨_, lost⟩⟩
  · exact kvLpush_defined wf unlimited _ _ env.call
      ((kvLpush_none_iff wf key value env.call).mpr ⟨validKey, validValue, lost⟩)
  · exact kvSadd_defined wf unlimited _ _ env.call
      ((kvSadd_none_iff wf key value env.call).mpr ⟨validKey, validValue, lost⟩)

/-- All that is sent in a session. -/
def Server.transcript (server : Server) (commands : List (List UInt8 × CommandEnv))
    (respBuf : List UInt8)
    : List UInt8 :=
  (Runs.run Server.command server commands).1.flatMap
    (fun reply => (reply.map (fun response => response.sent respBuf)).getD [])

/-- The transcript has a line for every command. -/
theorem transcript_lines {commands : List (List UInt8 × CommandEnv)}
    (answers : Along Server.command AnswersLine server commands)
    (ordinary : ∀ command ∈ commands, ¬ Exempt command.1)
    {respBuf : List UInt8} (sized : respBuf.length = respBufSize)
    : ∃ texts, server.transcript commands respBuf = Lines.join lf texts
        ∧ texts.length = commands.length ∧ ∀ text ∈ texts, lf ∉ text := by
  induction commands generalizing server with
  | nil => exact ⟨[], rfl, rfl, by simp⟩
  | cons command commands ih =>
      obtain ⟨response, replied, _, isLine⟩ := answers.1 (ordinary command List.mem_cons_self)
      obtain ⟨text, sent, noLf⟩ := isLine respBuf sized
      obtain ⟨texts, later, length, noLfs⟩ :=
        ih answers.2 (fun other member => ordinary other (List.mem_cons_of_mem _ member))
      refine ⟨(text ++ [cr]) :: texts, ?_, congrArg Nat.succ length, ?_⟩
      · rw [Lines.join_cons, ← later]
        simp only [Server.transcript, Runs.run, List.flatMap_cons, replied, Option.map_some,
          Option.getD_some, sent, crlf, List.append_assoc, List.cons_append, List.nil_append]
      · rw [List.forall_mem_cons, List.mem_append, not_or]
        exact ⟨⟨noLf, by decide⟩, noLfs⟩

/-- From an empty store, commands without an LF are answered with one line each exactly as long as
no LPUSH or SADD evicts its own container, which none does without a memory budget. A client then
reads as many lines as it has sent.
-/
theorem replies_are_lines_iff (reachable : server.Reachable)
    (empty : server.store.table.size = 0) {commands : List (List UInt8 × CommandEnv)}
    (lines : ∀ command ∈ commands, lf ∉ command.1)
    : (Along Server.command AnswersLine server commands
        ↔ Along Server.command
            (fun server command => ¬ LosesContainer server command.1 command.2) server commands)
      ∧ (server.store.table.maxMemoryBudget = 0 →
          Along Server.command AnswersLine server commands)
      ∧ (Along Server.command AnswersLine server commands →
          (∀ command ∈ commands, ¬ Exempt command.1) →
          ∀ respBuf, respBuf.length = respBufSize →
            (Lines.cut lf (server.transcript commands respBuf)).1.length = commands.length
              ∧ (Lines.cut lf (server.transcript commands respBuf)).2 = []) := by
  have wf := reachable.wellFormed
  have nothing : server.store.table.entries = [] := by
    rw [wf.size] at empty
    exact List.length_eq_zero_iff.mp empty
  have safe : server.LineSafe := ⟨wf, by simp [Table.AllValues, nothing]⟩
  have keeps : ∀ (server : Server) (command : List UInt8 × CommandEnv), server.LineSafe →
      lf ∉ command.1 → (server.command command).2.LineSafe :=
    fun _ command safe noLf => safe.command noLf command.2
  have answersIff := Runs.along_congr keeps (fun _ command safe _ => safe.answersLine_iff command)
    safe lines
  refine ⟨answersIff, fun unlimited => ?_, fun answers ordinary respBuf sized => ?_⟩
  · have budgetKept : ∀ (server : Server) (command : List UInt8 × CommandEnv),
        server.store.table.WellFormed ∧ server.store.table.maxMemoryBudget = 0 → True →
        (server.command command).2.store.table.WellFormed
          ∧ (server.command command).2.store.table.maxMemoryBudget = 0 := by
      intro server command kept _
      have keeps := (protocolExecuteCommand_path kept.1 command.1 command.2).keeps kept.1
      exact ⟨keeps.wellFormed, keeps.maxMemoryBudget.trans kept.2⟩
    have never := Runs.along_congr budgetKept (fun _ command kept _ =>
      iff_true_intro (not_losesContainer kept.1 kept.2 command.1 command.2)) ⟨wf, unlimited⟩
      (fun command (_ : command ∈ commands) => trivial)
    exact answersIff.mpr (never.mpr (Runs.along_of_forall (fun _ _ => trivial) server commands))
  · obtain ⟨texts, same, length, noLfs⟩ := transcript_lines answers ordinary sized
    have cut := Lines.cut_join_append noLfs []
    rw [List.append_nil] at cut
    rw [same, cut]
    simpa [Lines.cut] using length

/-- A SET, a GET of the value and a word that is no command, without a budget. -/
theorem replies_are_lines_iff_three
    : ∃ start, kvInitFull 1 0 0 none [] 7 (.at 0) (fun _ => .at 0) = .ok start
        ∧ Along Server.command AnswersLine { store := start, replication := ⟨.master, []⟩ }
            [(ascii ['S', 'E', 'T', ' ', 'k', ' ', 'v'], .at 1),
              (ascii ['G', 'E', 'T', ' ', 'k'], .at 2), (ascii ['?'], .at 3)] := by
  obtain ⟨start, isStart, empty, unlimited⟩ : ∃ start,
      kvInitFull 1 0 0 none [] 7 (.at 0) (fun _ => .at 0) = .ok start
        ∧ start.table.size = 0 ∧ start.table.maxMemoryBudget = 0 := ⟨_, rfl, rfl, rfl⟩
  exact ⟨start, isStart,
    (replies_are_lines_iff (.opened ⟨.master, []⟩ isStart) empty (by decide)).2.1 unlimited⟩

/-- A budget of 100 bytes has room for an empty list and for a node, but not for both. -/
theorem push_without_reply
    : ∃ start, kvInitFull 1 0 100 none [] 7 (.at 0) (fun _ => .at 0) = .ok start
        ∧ start.table.size = 0
        ∧ ¬ Along Server.command AnswersLine { store := start, replication := ⟨.master, []⟩ }
            [(ascii ['L', 'P', 'U', 'S', 'H', ' ', 'k', ' ', 'a'], .at 1)]
        ∧ (protocolExecuteCommand { store := start, replication := ⟨.master, []⟩ }
            (ascii ['L', 'P', 'U', 'S', 'H', ' ', 'k', ' ', 'a']) (.at 1)).1 = none := by
  obtain ⟨start, isStart, empty, unanswered⟩ : ∃ start,
      kvInitFull 1 0 100 none [] 7 (.at 0) (fun _ => .at 0) = .ok start ∧ start.table.size = 0
        ∧ (protocolExecuteCommand { store := start, replication := ⟨.master, []⟩ }
            (ascii ['L', 'P', 'U', 'S', 'H', ' ', 'k', ' ', 'a']) (.at 1)).1 = none :=
    ⟨_, rfl, rfl, by decide +kernel⟩
  refine ⟨start, isStart, empty, fun answers => ?_, unanswered⟩
  have ordinary : ¬ Exempt (ascii ['L', 'P', 'U', 'S', 'H', ' ', 'k', ' ', 'a']) := by
    have word : (lineCommand (ascii ['L', 'P', 'U', 'S', 'H', ' ', 'k', ' ', 'a'])).map Prod.fst
        = some .lpush := by decide
    rintro ⟨args, exempt | exempt⟩ <;> simp [exempt] at word
  obtain ⟨response, replied, _⟩ := answers.1 ordinary
  rw [Server.command, unanswered] at replied
  contradiction

end MiniKv
