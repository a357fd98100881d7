import MiniKv.Server.Replication

/-! The text protocol: one command line in, stores into a response buffer out.
A reply is kept as the stores that produced it, so that their places can be spoken about.
-/

namespace MiniKv

open MiniKv.Foundations.Decimal

-- Responses

/-- `SERVER_MAX_LINE_LEN`. -/
def serverMaxLineLen : Nat := 8192

/-- The size of the response buffer of a worker. -/
def respBufSize : Nat := serverMaxLineLen + 128

/-- The stores into the response buffer, each as an offset and bytes, with `*out_len`,
`*out_close` and `*out_detach`.
-/
structure Response where
  writes : List (Nat × List UInt8)
  outLen : Nat
  close : Bool
  detach : Bool
deriving DecidableEq

/-- Nothing is written. -/
def Response.silent : Response :=
  { writes := [], outLen := 0, close := false, detach := false }

def crlf : List UInt8 := [cr, lf]

/-- `memcpy(resp_buf, msg, strlen(msg))` of a text and its line end. -/
def Response.message (text : List Char) : Response :=
  { Response.silent with
    writes := [(0, ascii text ++ crlf)]
    outLen := (ascii text ++ crlf).length }

/-- `INT_MAX`. -/
def intMax : Nat := 2 ^ 31 - 1

/-- `snprintf` of an expanded text to an offset with `room` bytes: at most `room - 1` bytes and a
NUL are stored, and the result counts the whole text or reports an overflow.
-/
def snprintf (offset room : Nat) (text : List UInt8) : List (Nat × List UInt8) × Int :=
  (if room = 0 then [] else [(offset, text.take (room - 1) ++ [0])],
    if text.length ≤ intMax then text.length else -1)

/-- The value of `*out_len` after `if (n > 0 && (size_t)n < resp_buf_size) *out_len = n`. -/
def printedLength (n : Int) : Nat :=
  if 0 < n ∧ n.toNat < respBufSize then n.toNat else 0

/-- A reply that is printed into the whole buffer. -/
def Response.printed (text : List UInt8) : Response :=
  { Response.silent with
    writes := (snprintf 0 respBufSize text).1
    outLen := printedLength (snprintf 0 respBufSize text).2 }

/-- `":%d\r\n"` and `":%" PRId64 "\r\n"`. -/
def Response.number (number : Int) : Response :=
  .printed (58 :: decimalInt number ++ crlf)

/-- `"VALUE %s\r\n"`. -/
def valueText (value : CString) : List UInt8 :=
  ascii ['V', 'A', 'L', 'U', 'E', ' '] ++ value.bytes ++ crlf

/-- `"$%zu\r\n%s\r\n"`. -/
def memberText (member : CString) : List UInt8 :=
  36 :: decimal member.length ++ crlf ++ member.bytes ++ crlf

/-- Subtraction of two `size_t`. -/
def sizeSub (left right : Nat) : Nat :=
  (left + 2 ^ 64 - right % 2 ^ 64) % 2 ^ 64

/-- One `snprintf` of the members reply behind what is written, and the new count. -/
def printBehind (written : Nat) (text : List UInt8) : List (Nat × List UInt8) × Nat :=
  let printed := snprintf written (sizeSub respBufSize written) text
  (printed.1, if 0 < printed.2 then written + printed.2.toNat else written)

/-- The loop over the members. -/
def printMembers : List CString → Nat → List (Nat × List UInt8) × Nat
  | [], written => ([], written)
  | member :: rest, written =>
      let printed := printBehind written (memberText member)
      let later := printMembers rest printed.2
      (printed.1 ++ later.1, later.2)

/-- `"*%zu\r\n"` and all members. -/
def Response.members (members : List CString) (count : Nat) : Response :=
  let header := printBehind 0 (42 :: decimal count ++ crlf)
  let printed := printMembers members header.2
  { Response.silent with writes := header.1 ++ printed.1, outLen := printed.2 }

def invalidArguments : Response :=
  .message ['E', 'R', 'R', ' ', 'i', 'n', 'v', 'a', 'l', 'i', 'd', '_', 'a', 'r', 'g', 'u', 'm',
    'e', 'n', 't', 's']

def errInternal : Response :=
  .message ['E', 'R', 'R', ' ', 'i', 'n', 't', 'e', 'r', 'n', 'a', 'l']

def wrongType : Response :=
  .message ['W', 'R', 'O', 'N', 'G', 'T', 'Y', 'P', 'E']

def notFound : Response :=
  .message ['N', 'O', 'T', '_', 'F', 'O', 'U', 'N', 'D']

def okReply : Response :=
  .message ['O', 'K']

def keyTooLong : Response :=
  .message ['E', 'R', 'R', ' ', 'k', 'e', 'y', '_', 't', 'o', 'o', '_', 'l', 'o', 'n', 'g']

def valueTooLong : Response :=
  .message ['E', 'R', 'R', ' ', 'v', 'a', 'l', 'u', 'e', '_', 't', 'o', 'o', '_', 'l', 'o', 'n',
    'g']

def emptyCommand : Response :=
  .message ['E', 'R', 'R', ' ', 'e', 'm', 'p', 't', 'y', '_', 'c', 'o', 'm', 'm', 'a', 'n', 'd']

def unknownCommand : Response :=
  .message ['E', 'R', 'R', ' ', 'u', 'n', 'k', 'n', 'o', 'w', 'n', '_', 'c', 'o', 'm', 'm', 'a',
    'n', 'd']

def readOnlyReplica : Response :=
  .message ['-', 'E', 'R', 'R', ' ', 'S', 'e', 'r', 'v', 'e', 'r', ' ', 'i', 's', ' ', 'r', 'u',
    'n', 'n', 'i', 'n', 'g', ' ', 'i', 'n', ' ', 'r', 'e', 'a', 'd', '-', 'o', 'n', 'l', 'y', ' ',
    'r', 'e', 'p', 'l', 'i', 'c', 'a', ' ', 'm', 'o', 'd', 'e']

-- Commands

/-- The server as a command sees it. -/
structure Server where
  store : Store
  replication : Replication

/-- The outside world of one command: the store call's, the client's socket, what `fork` returns
to the parent and how a SYNC goes on.
-/
structure CommandEnv where
  call : CallEnv
  clientFd : Int
  pid : Int
  sync : SyncOutcome

/-- Nothing fails. -/
def CommandEnv.at (now : Int64) : CommandEnv :=
  { call := .at now, clientFd := 0, pid := 1, sync := .sent true }

/-- The reply of a command and the server behind it; there is no reply when the store call is
undefined.
-/
abbrev Executed := Option Response × Server

/-- A reply that leaves the server alone. -/
def Server.reply (server : Server) (response : Response) : Executed :=
  (some response, server)

/-- A reply with a new store. -/
def Server.replyWith (server : Server) (store : Store) (response : Response) : Executed :=
  (some response, { server with store })

/-- `args` is the text behind the first blank; `none` is a null pointer. -/
abbrev Arguments := Option (List UInt8)

/-- A command that takes no arguments tolerates an empty text. -/
def Arguments.nothing (args : Arguments) : Option Unit :=
  if args = none ∨ args = some [] then some () else none

/-- One argument, which must be there and hold no blank. -/
def Arguments.key (args : Arguments) : Option CString :=
  match args with
  | none => none
  | some text => if text = [] ∨ 32 ∈ text then none else some (CString.ofBuffer text)

/-- The texts before and behind the first blank. -/
def Arguments.split (args : Arguments) : Option (List UInt8 × List UInt8) :=
  match args with
  | none => none
  | some text =>
      match splitAtDelim 32 text with
      | (_, none) => none
      | (key, some rest) => if key = [] then none else some (key, rest)

/-- A key and a value: the value is the rest of the line, and there must be one. -/
def Arguments.keyValue (args : Arguments) : Option (CString × CString) :=
  match args.split with
  | none => none
  | some (key, value) =>
      if value = [] then none else some (CString.ofBuffer key, CString.ofBuffer value)

/-- Where `strtoll` stops; `none` when it finds no number. -/
def strtollEnd (text : List UInt8) : Option (List UInt8) :=
  let digits :=
    match text.dropWhile isSpace with
    | 45 :: rest => rest
    | 43 :: rest => rest
    | rest => rest
  match digits with
  | digit :: _ => if isDigit digit then some (digits.dropWhile isDigit) else none
  | [] => none

/-- A key and a positive number. -/
def Arguments.duration (args : Arguments) : Option (CString × Int64) :=
  match args.split with
  | none => none
  | some (key, number) =>
      if number = [] ∨ 32 ∈ number then none
      else if strtollEnd number = some [] ∧ 0 < strtoll number then
        some (CString.ofBuffer key, strtoll number)
      else none

/-- A branch that answers `ERR invalid_arguments` unless the arguments have its form. -/
def Server.whenGiven {α : Type} (server : Server) (parsed : Option α) (handle : α → Executed)
    : Executed :=
  match parsed with
  | none => server.reply invalidArguments
  | some arguments => handle arguments

/-- `kv_sync`. -/
def kvSync (store : Store) (io : IoOutcome) : Int :=
  match io with
  | .refused => kvErrIo
  | .ok => kvOk
  | .failed _ => if store.aof.fp = none then kvOk else kvErrIo

def executePing (server : Server) (args : Arguments) : Executed :=
  server.whenGiven args.nothing (fun _ => server.reply (.message ['P', 'O', 'N', 'G']))

def executeQuit (server : Server) (args : Arguments) : Executed :=
  server.whenGiven args.nothing (fun _ =>
    server.reply { Response.message ['B', 'Y', 'E'] with close := true })

def executeSave (server : Server) (args : Arguments) (env : CommandEnv) : Executed :=
  server.whenGiven args.nothing (fun _ =>
    if kvSync server.store env.call.io = kvOk then server.reply okReply
    else server.reply (.message ['E', 'R', 'R', ' ', 'i', 'o', '_', 'f', 'a', 'i', 'l', 'u', 'r',
      'e']))

/-- The reply to GET: a value that does not fit is replaced by an error. -/
def Response.value (value : CString) : Response :=
  let printed := Response.printed (valueText value)
  if printed.outLen = 0 then
    { errInternal with writes := printed.writes ++ errInternal.writes }
  else printed

def executeGet (server : Server) (args : Arguments) (env : CommandEnv) : Executed :=
  server.whenGiven args.key (fun key =>
    let got := kvGet server.store (some key) env.call
    match got.1 with
    | none => server.replyWith got.2 notFound
    | some value => server.replyWith got.2 (.value value))

def executeExists (server : Server) (args : Arguments) (env : CommandEnv) : Executed :=
  server.whenGiven args.key (fun key =>
    let found := kvExists server.store (some key) env.call
    server.replyWith found.2
      (if found.1 ≠ 0 then .message ['E', 'X', 'I', 'S', 'T', 'S'] else notFound))

/-- The reply to DELETE. -/
def deleteReply (status : Int) : Response :=
  if status = kvOk then .message ['D', 'E', 'L', 'E', 'T', 'E', 'D']
  else if status = kvErrNotFound then notFound
  else if status = kvErrInvalidParam ∨ status = kvErrEmptyKey ∨ status = kvErrKeyWhitespace then
    invalidArguments
  else errInternal

def executeDelete (server : Server) (args : Arguments) (env : CommandEnv) : Executed :=
  server.whenGiven args.key (fun key =>
    let deleted := kvDelete server.store (some key) env.call
    server.replyWith deleted.2 (deleteReply deleted.1))

/-- The reply to a push, an add or a removal: the wrong type, another error, or a number. -/
def countReply (result : Int) : Response :=
  if result = kvErrWrongType then wrongType
  else if result < 0 then errInternal
  else .number result

def executeLpush (server : Server) (args : Arguments) (env : CommandEnv) : Executed :=
  server.whenGiven args.keyValue (fun (key, value) =>
    let pushed := kvLpush server.store (some key) (some value) env.call
    (pushed.1.map countReply, { server with store := pushed.2 }))

def executeRpop (server : Server) (args : Arguments) (env : CommandEnv) : Executed :=
  server.whenGiven args.key (fun key =>
    let popped := kvRpop server.store (some key) env.call
    server.replyWith popped.2
      (if popped.1.1 = kvErrWrongType then wrongType
      else if popped.1.1 < 0 then errInternal
      else
        match popped.1.2 with
        | none => .message ['$', '-', '1']
        | some value => .printed (valueText value)))

/-- The reply to a length or a cardinality: the wrong type, or a number. -/
def lengthReply (result : Int) : Response :=
  if result = kvErrWrongType then wrongType else .number result

def executeLlen (server : Server) (args : Arguments) (env : CommandEnv) : Executed :=
  server.whenGiven args.key (fun key =>
    let counted := kvLlen server.store (some key) env.call
    server.replyWith counted.2 (lengthReply counted.1))

def executeSadd (server : Server) (args : Arguments) (env : CommandEnv) : Executed :=
  server.whenGiven args.keyValue (fun (key, value) =>
    let added := kvSadd server.store (some key) (some value) env.call
    (added.1.map countReply, { server with store := added.2 }))

def executeSrem (server : Server) (args : Arguments) (env : CommandEnv) : Executed :=
  server.whenGiven args.keyValue (fun (key, value) =>
    let removed := kvSrem server.store (some key) (some value) env.call
    server.replyWith removed.2 (countReply removed.1))

def executeScard (server : Server) (args : Arguments) (env : CommandEnv) : Executed :=
  server.whenGiven args.key (fun key =>
    let counted := kvScard server.store (some key) env.call
    server.replyWith counted.2 (lengthReply counted.1))

def executeSmembers (server : Server) (args : Arguments) (env : CommandEnv) : Executed :=
  server.whenGiven args.key (fun key =>
    let listed := kvSmembers server.store (some key) env.call
    server.replyWith listed.2
      (match listed.1.1 with
      | none => .message ['*', '0']
      | some members => .members members listed.1.2))

/-- The reply to SET. -/
def setReply (status : Int) : Response :=
  if status = kvOk then okReply
  else if status = kvErrCapacityFull then
    .message ['E', 'R', 'R', ' ', 'c', 'a', 'p', 'a', 'c', 'i', 't', 'y', '_', 'f', 'u', 'l', 'l']
  else if status = kvErrBudgetExceeded then
    .message ['E', 'R', 'R', ' ', 'b', 'u', 'd', 'g', 'e', 't', '_', 'e', 'x', 'c', 'e', 'e', 'd',
      'e', 'd']
  else if status = kvErrKeyTooLong then keyTooLong
  else if status = kvErrValTooLong then valueTooLong
  else if status = kvErrKeyWhitespace ∨ status = kvErrEmptyKey then invalidArguments
  else errInternal

/-- SET takes an empty value too, and checks the lengths itself. -/
def executeSet (server : Server) (args : Arguments) (env : CommandEnv) : Executed :=
  server.whenGiven args.split (fun (key, value) =>
    if kvMaxKeyLen < key.length then server.reply keyTooLong
    else if kvMaxValueLen < value.length then server.reply valueTooLong
    else
      let set := kvSet server.store (some (CString.ofBuffer key)) (some (CString.ofBuffer value))
        env.call
      server.replyWith set.2 (setReply set.1))

def executeExpire (server : Server) (args : Arguments) (env : CommandEnv) : Executed :=
  server.whenGiven args.duration (fun (key, seconds) =>
    let expires := kvExpire server.store (some key) seconds env.call
    server.replyWith expires.2 (.number expires.1))

def executePexpire (server : Server) (args : Arguments) (env : CommandEnv) : Executed :=
  server.whenGiven args.duration (fun (key, milliseconds) =>
    let expires := kvPexpire server.store (some key) milliseconds env.call
    server.replyWith expires.2 (.number expires.1))

def executeTtl (server : Server) (args : Arguments) (env : CommandEnv) : Executed :=
  server.whenGiven args.key (fun key =>
    let ttl := kvTtl server.store (some key) env.call
    server.replyWith ttl.2 (.number ttl.1.toInt))

def executePttl (server : Server) (args : Arguments) (env : CommandEnv) : Executed :=
  server.whenGiven args.key (fun key =>
    let pttl := kvPttl server.store (some key) env.call
    server.replyWith pttl.2 (.number pttl.1.toInt))

def executePersist (server : Server) (args : Arguments) (env : CommandEnv) : Executed :=
  server.whenGiven args.key (fun key =>
    let persisted := kvPersist server.store (some key) env.call
    server.replyWith persisted.2 (.number persisted.1))

/-- BGSAVE ignores its arguments. -/
def executeBgsave (server : Server) (env : CommandEnv) : Executed :=
  let saving := kvBgsave server.store env.pid
  server.replyWith saving.2
    (if saving.1 = kvOk then
      .message ['+', 'B', 'a', 'c', 'k', 'g', 'r', 'o', 'u', 'n', 'd', ' ', 's', 'a', 'v', 'i', 'n',
        'g', ' ', 's', 't', 'a', 'r', 't', 'e', 'd']
    else if saving.1 = kvErrAgain then
      .message ['-', 'E', 'R', 'R', ' ', 'B', 'a', 'c', 'k', 'g', 'r', 'o', 'u', 'n', 'd', ' ', 's',
        'a', 'v', 'e', ' ', 'a', 'l', 'r', 'e', 'a', 'd', 'y', ' ', 'i', 'n', ' ', 'p', 'r', 'o',
        'g', 'r', 'e', 's', 's']
    else
      .message ['-', 'E', 'R', 'R', ' ', 'B', 'a', 'c', 'k', 'g', 'r', 'o', 'u', 'n', 'd', ' ', 's',
        'a', 'v', 'e', ' ', 'f', 'a', 'i', 'l', 'e', 'd', ' ', 't', 'o', ' ', 's', 't', 'a', 'r',
        't'])

/-- BGREWRITEAOF ignores its arguments. -/
def executeBgrewriteaof (server : Server) (env : CommandEnv) : Executed :=
  let rewriting := kvBgrewriteaof server.store env.pid env.call
  server.replyWith rewriting.2
    (if rewriting.1 = kvOk then
      .message ['+', 'B', 'a', 'c', 'k', 'g', 'r', 'o', 'u', 'n', 'd', ' ', 'a', 'p', 'p', 'e', 'n',
        'd', ' ', 'o', 'n', 'l', 'y', ' ', 'f', 'i', 'l', 'e', ' ', 'r', 'e', 'w', 'r', 'i', 't',
        'i', 'n', 'g', ' ', 's', 't', 'a', 'r', 't', 'e', 'd']
    else if rewriting.1 = kvErrAgain then
      if rewriting.2.aof.rewritePid ≠ 0 then
        .message ['-', 'E', 'R', 'R', ' ', 'B', 'a', 'c', 'k', 'g', 'r', 'o', 'u', 'n', 'd', ' ',
          'a', 'p', 'p', 'e', 'n', 'd', ' ', 'o', 'n', 'l', 'y', ' ', 'f', 'i', 'l', 'e', ' ', 'r',
          'e', 'w', 'r', 'i', 't', 'i', 'n', 'g', ' ', 'a', 'l', 'r', 'e', 'a', 'd', 'y', ' ', 'i',
          'n', ' ', 'p', 'r', 'o', 'g', 'r', 'e', 's', 's']
      else
        .message ['-', 'E', 'R', 'R', ' ', 'B', 'a', 'c', 'k', 'g', 'r', 'o', 'u', 'n', 'd', ' ',
          's', 'a', 'v', 'e', ' ', 'i', 'n', ' ', 'p', 'r', 'o', 'g', 'r', 'e', 's', 's']
    else
      .message ['-', 'E', 'R', 'R', ' ', 'B', 'a', 'c', 'k', 'g', 'r', 'o', 'u', 'n', 'd', ' ', 'r',
        'e', 'w', 'r', 'i', 't', 'e', ' ', 'f', 'a', 'i', 'l', 'e', 'd', ' ', 't', 'o', ' ', 's',
        't', 'a', 'r', 't'])

/-- SYNC answers on the socket itself. -/
def executeSync (server : Server) (env : CommandEnv) : Executed :=
  let synced := replicationHandleSync server.replication server.store env.clientFd env.pid env.sync
  let response : Response :=
    if synced.1 = 0 then { Response.silent with detach := true }
    else { Response.silent with close := true }
  (some response, { store := synced.2.2, replication := synced.2.1 })

-- Dispatch

/-- The command words that `strcmp` is called with. -/
inductive Verb where
  | sync
  | ping
  | quit
  | save
  | get
  | exist
  | delete
  | lpush
  | rpop
  | llen
  | sadd
  | srem
  | scard
  | smembers
  | set
  | expire
  | pexpire
  | ttl
  | pttl
  | persist
  | bgsave
  | bgrewriteaof
deriving DecidableEq

def Verb.word : Verb → List UInt8
  | .sync => ascii ['S', 'Y', 'N', 'C']
  | .ping => ascii ['P', 'I', 'N', 'G']
  | .quit => ascii ['Q', 'U', 'I', 'T']
  | .save => ascii ['S', 'A', 'V', 'E']
  | .get => ascii ['G', 'E', 'T']
  | .exist => ascii ['E', 'X', 'I', 'S', 'T', 'S']
  | .delete => ascii ['D', 'E', 'L', 'E', 'T', 'E']
  | .lpush => ascii ['L', 'P', 'U', 'S', 'H']
  | .rpop => ascii ['R', 'P', 'O', 'P']
  | .llen => ascii ['L', 'L', 'E', 'N']
  | .sadd => ascii ['S', 'A', 'D', 'D']
  | .srem => ascii ['S', 'R', 'E', 'M']
  | .scard => ascii ['S', 'C', 'A', 'R', 'D']
  | .smembers => ascii ['S', 'M', 'E', 'M', 'B', 'E', 'R', 'S']
  | .set => ascii ['S', 'E', 'T']
  | .expire => ascii ['E', 'X', 'P', 'I', 'R', 'E']
  | .pexpire => ascii ['P', 'E', 'X', 'P', 'I', 'R', 'E']
  | .ttl => ascii ['T', 'T', 'L']
  | .pttl => ascii ['P', 'T', 'T', 'L']
  | .persist => ascii ['P', 'E', 'R', 'S', 'I', 'S', 'T']
  | .bgsave => ascii ['B', 'G', 'S', 'A', 'V', 'E']
  | .bgrewriteaof => ascii ['B', 'G', 'R', 'E', 'W', 'R', 'I', 'T', 'E', 'A', 'O', 'F']

/-- The order of the comparisons. -/
def verbOrder : List Verb :=
  [.sync, .ping, .quit, .save, .get, .exist, .delete, .lpush, .rpop, .llen, .sadd, .srem, .scard,
    .smembers, .set, .expire, .pexpire, .ttl, .pttl, .persist, .bgsave, .bgrewriteaof]

/-- The commands of `is_write`. -/
def Verb.isWrite : Verb → Bool
  | .set | .delete | .lpush | .sadd | .srem | .expire | .pexpire | .persist => true
  | _ => false

/-- The branch of one command. -/
def Verb.execute (verb : Verb) (server : Server) (args : Arguments) (env : CommandEnv)
    : Executed :=
  match verb with
  | .sync => executeSync server env
  | .ping => executePing server args
  | .quit => executeQuit server args
  | .save => executeSave server args env
  | .get => executeGet server args env
  | .exist => executeExists server args env
  | .delete => executeDelete server args env
  | .lpush => executeLpush server args env
  | .rpop => executeRpop server args env
  | .llen => executeLlen server args env
  | .sadd => executeSadd server args env
  | .srem => executeSrem server args env
  | .scard => executeScard server args env
  | .smembers => executeSmembers server args env
  | .set => executeSet server args env
  | .expire => executeExpire server args env
  | .pexpire => executePexpire server args env
  | .ttl => executeTtl server args env
  | .pttl => executePttl server args env
  | .persist => executePersist server args env
  | .bgsave => executeBgsave server env
  | .bgrewriteaof => executeBgrewriteaof server env

/-- `protocol_execute_command` of the line in a command buffer, which ends at a NUL. -/
def protocolExecuteCommand (server : Server) (line : List UInt8) (env : CommandEnv) : Executed :=
  if line = [] then server.reply emptyCommand
  else
    let command := splitAtDelim 32 (CString.ofBuffer line).bytes
    if command.1 = [] then server.reply emptyCommand
    else
      match verbOrder.find? (fun verb => verb.word = command.1) with
      | none => server.reply unknownCommand
      | some verb =>
          if verb.isWrite ∧ server.replication.mode = .replica then server.reply readOnlyReplica
          else verb.execute server command.2 env

end MiniKv
