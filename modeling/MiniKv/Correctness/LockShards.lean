import MiniKv.Foundations.Fnv
import MiniKv.Store.Locks

/-! Lock shards and buckets. One hash is reduced modulo the number of locks and modulo the number of
buckets; the first protects the second exactly when it divides it.
-/

namespace MiniKv

open MiniKv.Foundations.Fnv

/-- The multiplier of `hash_key`. -/
def fnvPrime : UInt64 := 1099511628211

theorem fnvPrime_mixes : Mixes fnvPrime :=
  ⟨⟨14886173955864302971, by decide⟩, by decide⟩

/-- The 64-bit word behind `hash_key`. -/
def hashWord (key : CString) : UInt64 :=
  key.bytes.foldl (round fnvPrime) 1469598103934665603

theorem hashKey_eq (key : CString) (count : Nat)
    : hashKey key count = (hashWord key).toNat % count :=
  rfl

/-- Every word is the hash of some key. -/
theorem hashWord_surjective : Function.Surjective hashWord := by
  intro word
  obtain ⟨bytes, noNul, same⟩ := fnvPrime_mixes.leads 1469598103934665603 word
  exact ⟨⟨bytes, noNul⟩, same⟩

/-- Keys of one bucket share their lock exactly when the number of locks divides the number of
buckets. The locks are made for the bucket count that `kv_init_full` is called with; otherwise it
does not matter how the store was opened.
Witness: the words zero and the number of buckets fall into one bucket.
-/
theorem lock_protects_bucket_iff (bucketCount : Nat) (start : Store) (calls : List Call)
    (bounded : (start.run calls).2.table.bucketCount < 2 ^ 64)
    : (∀ left right,
          hashKey left (start.run calls).2.table.bucketCount
            = hashKey right (start.run calls).2.table.bucketCount →
          kvLockIndex (numLocks bucketCount) left = kvLockIndex (numLocks bucketCount) right)
      ↔ numLocks bucketCount ∣ (start.run calls).2.table.bucketCount := by
  simp only [kvLockIndex, if_neg (numLocks_ne_zero bucketCount), hashKey_eq]
  generalize (start.run calls).2.table.bucketCount = buckets at bounded ⊢
  constructor
  · intro shared
    obtain ⟨left, leftWord⟩ := hashWord_surjective 0
    obtain ⟨right, rightWord⟩ := hashWord_surjective (UInt64.ofNat buckets)
    have leftValue : (hashWord left).toNat = 0 := by rw [leftWord]; rfl
    have rightValue : (hashWord right).toNat = buckets := by
      rw [rightWord, UInt64.toNat_ofNat', Nat.mod_eq_of_lt bounded]
    have same := shared left right (by rw [leftValue, rightValue, Nat.zero_mod, Nat.mod_self])
    rw [leftValue, rightValue, Nat.zero_mod] at same
    exact Nat.dvd_of_mod_eq_zero same.symm
  · intro divides left right same
    rw [← Nat.mod_mod_of_dvd (hashWord left).toNat divides, same, Nat.mod_mod_of_dvd _ divides]

/-- From 64 buckets to 128 by a resize: 64 locks protect them. -/
theorem lock_protects_bucket_iff_resized
    : ∃ start, kvInitFull 64 0 0 none [] 7 (.at 0) (fun _ => .at 0) = .ok start
        ∧ let store := (start.run [⟨.op (.resize 128), .at 1, 0⟩]).2
          store.table.bucketCount = 128
          ∧ ∀ left right, hashKey left 128 = hashKey right 128 →
              kvLockIndex (numLocks 64) left = kvLockIndex (numLocks 64) right := by
  have started : kvInitFull 64 0 0 none [] 7 (.at 0) (fun _ => .at 0)
      = .ok (Store.fresh 64 0 0 7 []) := rfl
  have resized : ((Store.fresh 64 0 0 7 []).run
      [⟨.op (.resize 128), .at 1, 0⟩]).2.table.bucketCount = 128 := by
    decide +kernel
  have shared := lock_protects_bucket_iff 64 _ [⟨.op (.resize 128), .at 1, 0⟩]
    (by rw [resized]; decide)
  rw [resized] at shared
  exact ⟨_, started, resized, shared.mpr (by decide)⟩

/-- A store of 16 buckets has 32 locks: two keys of one bucket are guarded by different locks. -/
theorem bucket_under_two_locks
    : ∃ start, kvInitFull 16 0 0 none [] 7 (.at 0) (fun _ => .at 0) = .ok start
        ∧ start.table.bucketCount = 16
        ∧ hashKey ⟨[97], by decide⟩ 16 = 6
        ∧ hashKey ⟨[113], by decide⟩ 16 = 6
        ∧ kvLockIndex (numLocks 16) ⟨[97], by decide⟩ = 6
        ∧ kvLockIndex (numLocks 16) ⟨[113], by decide⟩ = 22 := by
  refine ⟨_, rfl, ?_⟩
  decide +kernel

end MiniKv
