import MiniKv.Invariants.Mutations
import MiniKv.Invariants.Server
import MiniKv.Invariants.StoredValues

/-! What the branches of the protocol answer, said once for all commands but SYNC and SMEMBERS: a
fixed text, a number or a stored value.
-/

namespace MiniKv

open MiniKv.Foundations.Decimal

variable {Property : CString → Prop} {server : Server} {store : Store} {key value : CString}

-- Results

/-- The numbers of 64 bits. -/
def Fits64 (number : Int) : Prop :=
  -2 ^ 63 ≤ number ∧ number < 2 ^ 63

instance instDecidableFits64 (number : Int) : Decidable (Fits64 number) :=
  inferInstanceAs (Decidable (_ ∧ _))

theorem fits64_toInt (number : Int64) : Fits64 number.toInt :=
  ⟨number.le_toInt, number.toInt_lt⟩

theorem fits64_toCInt (count : Nat) : Fits64 (toCInt count) := by
  have positive : (0 : Int) < ((2 ^ 32 : Nat) : Int) := by norm_num
  have low := Int.emod_nonneg (count : Int) positive.ne'
  have high := Int.emod_lt_of_pos (count : Int) positive
  unfold toCInt
  rw [Int.bmod_def]
  constructor
  · split <;> omega
  · split <;> omega

/-- The codes of the operations that answer with a number. -/
theorem fits64_code : ∀ code ∈ [0, 1, kvErrInvalidParam, kvErrWrongType], Fits64 code := by
  decide

theorem kvLlen_fits64 (store : Store) (key : Option CString) (env : CallEnv)
    : Fits64 (kvLlen store key env).1 := by
  simp only [kvLlen]
  split
  · exact fits64_code _ (by simp)
  · split
    · exact fits64_code _ (by simp)
    · dsimp only
      exact fits64_toCInt _
    · exact fits64_code _ (by simp)

theorem kvScard_fits64 (store : Store) (key : Option CString) (env : CallEnv)
    : Fits64 (kvScard store key env).1 := by
  simp only [kvScard]
  split
  · exact fits64_code _ (by simp)
  · split
    · exact fits64_code _ (by simp)
    · dsimp only
      exact fits64_toCInt _
    · exact fits64_code _ (by simp)

theorem kvPexpireat_fits64 (store : Store) (key : Option CString) (unixMs : Int64)
    (env : CallEnv)
    : Fits64 (kvPexpireat store key unixMs env).1 := by
  simp only [kvPexpireat]
  split
  · exact fits64_code _ (by simp)
  · split <;> exact fits64_code _ (by simp)

theorem kvPersist_fits64 (store : Store) (key : Option CString) (env : CallEnv)
    : Fits64 (kvPersist store key env).1 := by
  simp only [kvPersist]
  split
  · exact fits64_code _ (by simp)
  · split
    · exact fits64_code _ (by simp)
    · split <;> exact fits64_code _ (by simp)

theorem kvSrem_fits64 (store : Store) (key value : Option CString) (env : CallEnv)
    : Fits64 (kvSrem store key value env).1 := by
  simp only [kvSrem]
  split
  · exact fits64_code _ (by simp)
  · exact fits64_code _ (by simp)
  · split
    · exact fits64_code _ (by simp)
    · split
      · split_ifs <;> exact fits64_code _ (by simp)
      · exact fits64_code _ (by simp)

/-- A push reports a code below zero or the length of the list. -/
theorem kvLpush_result {result : Int} {env : CallEnv}
    (replied : (kvLpush store (some key) (some value) env).1 = some result)
    : result < 0 ∨ Fits64 result := by
  rcases kvLpush_eq store key value env with ⟨err, negative, _, refused⟩ | ⟨_, _, same, _⟩
  · rw [refused] at replied
    exact .inl (Option.some.inj replied ▸ negative)
  · rw [same] at replied
    simp only [Table.lpush] at replied
    split at replied
    · next failed =>
        obtain rfl := Option.some.inj replied
        exact .inl (Table.openContainer_error failed)
    · rcases Table.linkNode_cases _ key _ (pushFrontPayload value) env with
        ⟨status, negative, failed⟩ | freed | ⟨entry, payload, length, _, links, linked⟩
      · rw [failed] at replied
        obtain rfl := Option.some.inj replied
        exact .inl negative
      · rw [freed] at replied
        contradiction
      · rw [linked] at replied
        obtain rfl := Option.some.inj replied
        cases shown : entry.value with
        | list list =>
            rw [shown] at links
            obtain ⟨_, rfl⟩ := Prod.mk.inj (Option.some.inj links)
            exact .inr (fits64_toCInt _)
        | _ => simp [shown, pushFrontPayload] at links

theorem kvSadd_result {result : Int} {env : CallEnv}
    (replied : (kvSadd store (some key) (some value) env).1 = some result)
    : result < 0 ∨ Fits64 result := by
  rcases kvSadd_eq store key value env with ⟨err, negative, _, refused⟩ | ⟨_, _, same, _⟩
  · rw [refused] at replied
    exact .inl (Option.some.inj replied ▸ negative)
  · rw [same] at replied
    rcases store.table.sadd_cases key value env with ⟨status, atMost, failed⟩ | freed | linked
    · rw [failed] at replied
      obtain rfl := Option.some.inj replied
      rcases atMost.lt_or_eq with negative | rfl
      · exact .inl negative
      · exact .inr (by decide)
    · rw [freed] at replied
      contradiction
    · rw [linked] at replied
      obtain rfl := Option.some.inj replied
      exact .inr (by decide)

/-- GET hands out a stored value. -/
theorem kvGet_stored {env : CallEnv} (all : store.table.AllValues Property)
    (got : (kvGet store (some key) env).1 = some value)
    : Property value := by
  simp only [kvGet] at got
  split at got
  · next found =>
      obtain rfl := Option.some.inj got
      exact all.of_lookup (Table.lookup_of_findEntry found) _ List.mem_cons_self
  · contradiction

/-- RPOP hands out an element that was stored. -/
theorem kvRpop_stored {env : CallEnv} (all : store.table.AllValues Property)
    (wf : store.table.WellFormed) (popped : (kvRpop store (some key) env).1.2 = some value)
    : Property value := by
  simp only [kvRpop] at popped
  split at popped
  · contradiction
  · next entry found =>
      have here := Table.lookup_of_findEntry found
      have valid := wf.value_of_lookup here
      have held := all.of_lookup here
      split at popped
      · next links payload =>
          rw [payload] at valid held
          split at popped
          · contradiction
          · next last rest pops =>
              have shape := (ListWellFormed.popBack_eq valid pops).2
              have same : last = value := by
                split_ifs at popped <;> exact Option.some.inj popped
              subst same
              apply held
              rw [ListWellFormed.mem_values valid, shape]
              exact List.mem_append_right _ List.mem_cons_self
      · contradiction

-- Replies

/-- The forms of a reply. A reply to GET or RPOP shows a value of which the property holds. -/
inductive Response.Plain (Property : CString → Prop) : Response → Prop where
  | message {text : List Char} (short : text.length + 2 ≤ respBufSize) (noLf : lf ∉ ascii text)
      : Plain Property (.message text)
  | bye : Plain Property { Response.message ['B', 'Y', 'E'] with close := true }
  | number {number : Int} (fits : Fits64 number) : Plain Property (.number number)
  | value {value : CString} (holds : Property value) : Plain Property (.value value)
  | popped {value : CString} (holds : Property value) : Plain Property (.printed (valueText value))

/-- The reply, if there is one, is good. -/
def Replies (Good : Response → Prop) (executed : Executed) : Prop :=
  ∀ response, executed.1 = some response → Good response

variable {Good : Response → Prop} {response : Response}

theorem Server.reply_good (good : Good response) : Replies Good (server.reply response) :=
  fun _ same => Option.some.inj same ▸ good

theorem Server.replyWith_good (good : Good response) (store : Store)
    : Replies Good (server.replyWith store response) :=
  fun _ same => Option.some.inj same ▸ good

theorem Server.whenGiven_good {α : Type} {parsed : Option α} {handle : α → Executed}
    (invalid : Good invalidArguments) (good : ∀ arguments, Replies Good (handle arguments))
    : Replies Good (server.whenGiven parsed handle) := by
  cases parsed with
  | none => exact Server.reply_good invalid
  | some arguments => exact good arguments

theorem invalidArguments_plain : invalidArguments.Plain Property :=
  .message (by decide) (by decide)

theorem errInternal_plain : errInternal.Plain Property :=
  .message (by decide) (by decide)

theorem countReply_plain {result : Int} (fits : result < 0 ∨ Fits64 result)
    : (countReply result).Plain Property := by
  simp only [countReply]
  split_ifs with _ negative
  · exact .message (by decide) (by decide)
  · exact errInternal_plain
  · exact .number (fits.resolve_left negative)

theorem lengthReply_plain {result : Int} (fits : Fits64 result)
    : (lengthReply result).Plain Property := by
  simp only [lengthReply]
  split_ifs
  · exact .message (by decide) (by decide)
  · exact .number fits

/-- Every branch but SYNC and SMEMBERS answers in one of these forms. -/
theorem Verb.execute_plain {verb : Verb} (notSync : verb ≠ .sync)
    (notSmembers : verb ≠ .smembers)
    (all : server.store.table.AllValues Property) (wf : server.store.table.WellFormed)
    (args : Arguments) (env : CommandEnv)
    : Replies (Response.Plain Property) (verb.execute server args env) := by
  cases verb
  case sync | smembers => contradiction
  case ping =>
    refine Server.whenGiven_good invalidArguments_plain (fun _ => Server.reply_good ?_)
    exact .message (by decide) (by decide)
  case quit =>
    exact Server.whenGiven_good invalidArguments_plain (fun _ => Server.reply_good .bye)
  case save =>
    refine Server.whenGiven_good invalidArguments_plain (fun _ => ?_)
    split <;> exact Server.reply_good (.message (by decide) (by decide))
  case get =>
    refine Server.whenGiven_good invalidArguments_plain (fun key => ?_)
    simp only
    split
    · exact Server.replyWith_good (.message (by decide) (by decide)) _
    · next got => exact Server.replyWith_good (.value (kvGet_stored all got)) _
  case exist =>
    refine Server.whenGiven_good invalidArguments_plain (fun key => Server.replyWith_good ?_ _)
    split <;> exact .message (by decide) (by decide)
  case delete =>
    refine Server.whenGiven_good invalidArguments_plain (fun key => Server.replyWith_good ?_ _)
    simp only [deleteReply]
    split_ifs <;> exact .message (by decide) (by decide)
  case lpush =>
    refine Server.whenGiven_good invalidArguments_plain (fun both response same => ?_)
    obtain ⟨result, replied, rfl⟩ := Option.map_eq_some_iff.mp same
    exact countReply_plain (kvLpush_result replied)
  case sadd =>
    refine Server.whenGiven_good invalidArguments_plain (fun both response same => ?_)
    obtain ⟨result, replied, rfl⟩ := Option.map_eq_some_iff.mp same
    exact countReply_plain (kvSadd_result replied)
  case rpop =>
    refine Server.whenGiven_good invalidArguments_plain (fun key => Server.replyWith_good ?_ _)
    split_ifs
    · exact .message (by decide) (by decide)
    · exact errInternal_plain
    · split
      · exact .message (by decide) (by decide)
      · next popped => exact .popped (kvRpop_stored all wf popped)
  case srem =>
    refine Server.whenGiven_good invalidArguments_plain (fun both => Server.replyWith_good ?_ _)
    exact countReply_plain (.inr (kvSrem_fits64 _ _ _ _))
  case llen =>
    refine Server.whenGiven_good invalidArguments_plain (fun key => Server.replyWith_good ?_ _)
    exact lengthReply_plain (kvLlen_fits64 _ _ _)
  case scard =>
    refine Server.whenGiven_good invalidArguments_plain (fun key => Server.replyWith_good ?_ _)
    exact lengthReply_plain (kvScard_fits64 _ _ _)
  case set =>
    refine Server.whenGiven_good invalidArguments_plain (fun both => ?_)
    simp only
    split_ifs
    · exact Server.reply_good (.message (by decide) (by decide))
    · exact Server.reply_good (.message (by decide) (by decide))
    · refine Server.replyWith_good ?_ _
      simp only [setReply]
      split_ifs <;> exact .message (by decide) (by decide)
  case expire | pexpire =>
    refine Server.whenGiven_good invalidArguments_plain (fun both => Server.replyWith_good ?_ _)
    exact .number (kvPexpireat_fits64 _ _ _ _)
  case ttl | pttl =>
    refine Server.whenGiven_good invalidArguments_plain (fun key => Server.replyWith_good ?_ _)
    exact .number (fits64_toInt _)
  case persist =>
    refine Server.whenGiven_good invalidArguments_plain (fun key => Server.replyWith_good ?_ _)
    exact .number (kvPersist_fits64 _ _ _)
  case bgsave =>
    refine Server.replyWith_good ?_ _
    split_ifs <;> exact .message (by decide) (by decide)
  case bgrewriteaof =>
    refine Server.replyWith_good ?_ _
    split_ifs <;> exact .message (by decide) (by decide)

end MiniKv
