import Mathlib.Data.Rat.Floor
import MiniKv.Correctness.Liveness
import MiniKv.Server.Protocol

/-! The arithmetic of relative deadlines. EXPIRE and PEXPIRE take any positive number that fits a
signed word; the product, the sum and the rounding of `kv_ttl` are made in such words as well.
-/

namespace MiniKv

open MiniKv.Foundations.SignedWords

variable {store : Store} {key : CString} {now : Int64}

/-- The deadline of the key is so many milliseconds after `now`, and `kv_ttl` gives them in seconds,
rounded up.
-/
structure Store.ExpiresIn (store : Store) (key : CString) (now : Int64) (milliseconds : Int)
    : Prop where
  deadline : ∃ entry, store.table.lookup key = some entry
    ∧ entry.expireAtMs.toInt = now.toInt + milliseconds ∧ now < entry.expireAtMs
  ttl : (kvTtl store (some key) (.at now)).1.toInt = ⌈(milliseconds : ℚ) / 1000⌉

/-- A deadline is accepted for a key that is seen. -/
theorem kvPexpireat_accepts {env : CallEnv} (seen : store.Sees key env.now) (deadline : Int64)
    : (kvPexpireat store (some key) deadline env).1 = 1 := by
  obtain ⟨entry, found⟩ := Option.isSome_iff_exists.mp (Store.sees_iff_find.mp seen)
  simp only [kvPexpireat, found]

theorem ceil_seconds (milliseconds : Int)
    : ⌈(milliseconds : ℚ) / 1000⌉ = (milliseconds + 999) / 1000 := by
  have ceil := Rat.ceil_intCast_div_natCast milliseconds 1000
  push_cast at ceil
  rw [ceil]
  omega

/-- Adding 999 before the division by 1000 rounds up, unless the sum wraps. -/
theorem roundUp_iff {remaining : Int64} (positive : 0 < remaining.toInt)
    : ((remaining + 999) / 1000).toInt = (remaining.toInt + 999) / 1000
      ↔ remaining.toInt + 999 < 2 ^ 63 := by
  have thousand : (1000 : Int64).toInt = 1000 := by decide
  have rest : (999 : Int64).toInt = 999 := by decide
  have quotient : ((remaining + 999) / 1000).toInt = (remaining + 999).toInt.tdiv 1000 := by
    rw [Int64.toInt_div_of_ne_right _ _ (by decide), thousand]
  have bound := remaining.toInt_lt
  constructor
  · intro exact
    by_contra large
    have wrapped : (remaining + 999).toInt = remaining.toInt + 999 - 2 ^ 64 := by
      rw [toInt_add_of_large (by omega), rest]
    have negative : ((remaining + 999) / 1000).toInt ≤ 0 := by
      have opposite : 0 ≤ (-(remaining + 999).toInt).tdiv 1000 :=
        Int.tdiv_nonneg (by omega) (by decide)
      rw [Int.neg_tdiv] at opposite
      omega
    omega
  · intro fits
    have sum : (remaining + 999).toInt = remaining.toInt + 999 := by
      rw [toInt_add_iff.mpr ⟨by omega, by omega⟩, rest]
    rw [quotient, sum, Int.tdiv_eq_ediv_of_nonneg (by omega)]

/-- What is known of the deadline that a relative one is turned into: it is exact if and only if the
integer sum fits, and the rounding is exact if and only if that fits, too.
-/
theorem kvPexpireat_expiresIn_iff (wf : store.table.WellFormed) {env : CallEnv}
    (seen : store.Sees key env.now) (epoch : 0 ≤ env.now.toInt) {deadline : Int64}
    {milliseconds : Int} (positive : 0 < milliseconds)
    (exact : deadline.toInt = env.now.toInt + milliseconds
      ↔ Fits (env.now.toInt + milliseconds))
    : (kvPexpireat store (some key) deadline env).2.ExpiresIn key env.now milliseconds
      ↔ env.now.toInt + milliseconds < 2 ^ 63 ∧ milliseconds + 999 < 2 ^ 63 := by
  obtain ⟨entry, found⟩ := kvPexpireat_lookup wf (kvPexpireat_accepts seen deadline)
  generalize (kvPexpireat store (some key) deadline env).2 = after at found ⊢
  have rounded : deadline.toInt = env.now.toInt + milliseconds →
      ((kvTtl after (some key) (.at env.now)).1.toInt = ⌈(milliseconds : ℚ) / 1000⌉
        ↔ milliseconds + 999 < 2 ^ 63) := by
    intro same
    have bound := deadline.toInt_lt
    have ahead : env.now.toInt < deadline.toInt := by omega
    obtain ⟨remaining, returned, nonnegative, difference⟩ :=
      kvPttl_ahead found (entryIsExpired_eq_false.mpr (.inr ahead))
        (by dsimp only; omega) ahead (by dsimp only; omega)
    have asked : remaining.toInt = milliseconds := by
      dsimp only at difference
      omega
    simp only [kvTtl, returned, if_neg (Int64.not_lt.mpr nonnegative)]
    rw [ceil_seconds, ← asked]
    exact roundUp_iff (asked ▸ positive)
  have stored : (∃ entry, after.table.lookup key = some entry
      ∧ entry.expireAtMs.toInt = env.now.toInt + milliseconds ∧ env.now < entry.expireAtMs)
      ↔ deadline.toInt = env.now.toInt + milliseconds := by
    constructor
    · rintro ⟨other, sought, same, _⟩
      obtain rfl := Option.some.inj (found.symm.trans sought)
      exact same
    · intro same
      refine ⟨_, found, same, ?_⟩
      rw [Int64.lt_iff_toInt_lt]
      dsimp only
      omega
  constructor
  · rintro ⟨deadlineSet, ttl⟩
    have same := stored.mp deadlineSet
    exact ⟨(exact.mp same).2, (rounded same).mp ttl⟩
  · rintro ⟨fits, roundFits⟩
    have same := exact.mpr ⟨by omega, fits⟩
    exact ⟨stored.mpr same, (rounded same).mpr roundFits⟩

/-- The product and the sum wrap together. -/
theorem toInt_after (now seconds : Int64)
    : (now + seconds * 1000).toInt = now.toInt + seconds.toInt * 1000
      ↔ Fits (now.toInt + seconds.toInt * 1000) := by
  have thousand : (1000 : Int64).toInt = 1000 := by decide
  rw [Int64.toInt_add, Int64.toInt_mul, thousand, Int.add_bmod_bmod, bmod_eq_iff]

/-- Only positive numbers are accepted. -/
theorem Arguments.duration_pos {args : Arguments} {amount : Int64}
    (parsed : args.duration = some (key, amount))
    : 0 < amount.toInt := by
  rw [Arguments.duration] at parsed
  split at parsed
  · contradiction
  · split at parsed
    · contradiction
    · split at parsed
      · next accepted =>
          obtain ⟨_, rfl⟩ := Prod.mk.inj (Option.some.inj parsed)
          exact Int64.lt_iff_toInt_lt.mp accepted.2
      · contradiction

/-- A relative deadline that the parser of EXPIRE or PEXPIRE accepts is stored, and given back by
`kv_ttl`, without overflow if and only if the deadline fits a signed word, and so does the remaining
time with the 999 that round it up.
-/
theorem relative_ttl_exact_iff {server : Server} (wf : server.store.table.WellFormed)
    {args : Arguments} {amount : Int64} (parsed : args.duration = some (key, amount))
    {env : CommandEnv} (epoch : 0 ≤ env.call.now.toInt)
    (seen : server.store.Sees key env.call.now)
    : let now := env.call.now
      let expired := (Verb.expire.execute server args env).2.store
      let pexpired := (Verb.pexpire.execute server args env).2.store
      (expired.ExpiresIn key now (amount.toInt * 1000)
        ↔ now.toInt + amount.toInt * 1000 < 2 ^ 63 ∧ amount.toInt * 1000 + 999 < 2 ^ 63)
      ∧ (pexpired.ExpiresIn key now amount.toInt
        ↔ now.toInt + amount.toInt < 2 ^ 63 ∧ amount.toInt + 999 < 2 ^ 63) := by
  intro now expired pexpired
  have positive := Arguments.duration_pos parsed
  constructor
  · have effect : expired
        = (kvPexpireat server.store (some key) (now + amount * 1000) env.call).2 := by
      simp only [expired, Verb.execute, executeExpire, parsed]
      rfl
    rw [effect]
    exact kvPexpireat_expiresIn_iff wf seen epoch (by omega) (toInt_after now amount)
  · have effect : pexpired
        = (kvPexpireat server.store (some key) (now + amount) env.call).2 := by
      simp only [pexpired, Verb.execute, executePexpire, parsed]
      rfl
    rw [effect]
    exact kvPexpireat_expiresIn_iff wf seen epoch positive toInt_add_iff

/-- `EXPIRE a 10` on a store with that key. -/
theorem relative_ttl_exact_iff_ten
    : ∃ start, kvInit 1 7 (.at 0) = .ok start
        ∧ let held := (start.run
            [⟨.op (.set (some ⟨[97], by decide⟩) (some ⟨[120], by decide⟩)), .at 1, 0⟩]).2
          let server : Server := ⟨held, { mode := .master, replicas := [] }⟩
          (Verb.expire.execute server (some (ascii ['a', ' ', '1', '0'])) (.at 2)).2.store.ExpiresIn
            ⟨[97], by decide⟩ 2 10000 := by
  refine ⟨_, rfl, ?_⟩
  intro held server
  have opened : kvInit 1 7 (.at 0) = .ok _ := rfl
  have wf : server.store.table.WellFormed :=
    ((kvInitFull_sound opened).run (by decide)).wellFormed
  have seen : server.store.Sees ⟨[97], by decide⟩ 2 := show (_ : Int) = 1 by decide +kernel
  have parsed : Arguments.duration (some (ascii ['a', ' ', '1', '0']))
      = some (⟨[97], by decide⟩, 10) := by decide +kernel
  exact (@relative_ttl_exact_iff _ server wf _ _ parsed (.at 2) (by decide) seen).1.mpr (by decide)

/-- `EXPIRE a 9223372036854775807`: the deadline is negative, so the key never expires, and `TTL a`
says that no time is left.
-/
theorem relative_ttl_wraps
    : ∃ start, kvInit 1 7 (.at 0) = .ok start
        ∧ let held := (start.run
            [⟨.op (.set (some ⟨[97], by decide⟩) (some ⟨[120], by decide⟩)), .at 1, 0⟩]).2
          let server : Server := ⟨held, { mode := .master, replicas := [] }⟩
          let line := ascii ['E', 'X', 'P', 'I', 'R', 'E', ' ', 'a', ' ', '9', '2', '2', '3', '3',
            '7', '2', '0', '3', '6', '8', '5', '4', '7', '7', '5', '8', '0', '7']
          let after := (protocolExecuteCommand server line (.at 2)).2.store
          (after.table.lookup ⟨[97], by decide⟩).map Entry.expireAtMs = some (-998)
          ∧ (kvTtl after (some ⟨[97], by decide⟩) (.at 2)).1 = 0
          ∧ ∀ now, after.Sees ⟨[97], by decide⟩ now := by
  refine ⟨_, rfl, ?_⟩
  intro held server line after
  have stored : (after.table.lookup ⟨[97], by decide⟩).map Entry.expireAtMs = some (-998) := by
    decide +kernel
  refine ⟨stored, by decide +kernel, fun now => ?_⟩
  obtain ⟨entry, found, deadline⟩ := Option.map_eq_some_iff.mp stored
  refine (Store.sees_iff found).mpr (entryIsExpired_eq_false.mpr (.inl ?_))
  rw [deadline]
  decide

end MiniKv
