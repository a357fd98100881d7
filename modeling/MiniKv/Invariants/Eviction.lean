import MiniKv.Invariants.Removals

/-! Which entry sampled eviction takes: the least recently used one of those it looked at. Hence an
eviction from a non-empty table succeeds, and the eviction loops end with enough room or with an
empty table.
-/

namespace MiniKv

open MiniKv.Foundations.ChainedTable

/-- The candidate is the least recently used one of the entries seen so far. There is none only
as long as no entry was used before the clock's last value.
-/
inductive Oldest.Least : Oldest → List Entry → Prop where
  | nothing {seen : List Entry} (late : ∀ entry ∈ seen, uint64Max ≤ entry.lastAccessedTime)
      : Oldest.Least ⟨uint64Max, none⟩ seen
  | candidate {victim : Victim} {seen : List Entry} (member : victim.cursor.item ∈ seen)
      (least : ∀ entry ∈ seen,
        victim.cursor.item.lastAccessedTime ≤ entry.lastAccessedTime)
      : Oldest.Least ⟨victim.cursor.item.lastAccessedTime, some victim⟩ seen

variable {oldest : Oldest} {seen : List Entry} {table : Table}

/-- Looking at one more entry. -/
theorem Oldest.Least.look (least : oldest.Least seen) (index : Nat) (cursor : Cursor Entry)
    : (if cursor.item.lastAccessedTime < oldest.minClock then
        (⟨cursor.item.lastAccessedTime, some ⟨index, cursor⟩⟩ : Oldest)
      else oldest).Least (seen ++ [cursor.item]) := by
  have inside : ∀ entry ∈ seen ++ [cursor.item], entry ∈ seen ∨ entry = cursor.item :=
    fun entry member => by simpa using member
  split
  · next older =>
      refine @Least.candidate ⟨index, cursor⟩ _ (by simp) (fun entry member => ?_)
      rcases inside entry member with old | rfl
      · cases least with
        | nothing late => exact older.le.trans (late entry old)
        | candidate _ least => exact older.le.trans (least entry old)
      · exact le_rfl
  · next younger =>
      cases least with
      | nothing late =>
          refine .nothing (fun entry member => ?_)
          rcases inside entry member with old | rfl
          · exact late entry old
          · exact Nat.le_of_not_lt younger
      | candidate member least =>
          refine .candidate (List.mem_append_left _ member) (fun entry member => ?_)
          rcases inside entry member with old | rfl
          · exact least entry old
          · exact Nat.le_of_not_lt younger

/-- Scanning a chain looks at each of its entries, by induction on the chain. -/
theorem scanChain_least {index : Nat} {chain : List Entry} {prev : Option Nat} {pos : Nat}
    (least : oldest.Least seen)
    : (scanChain index chain prev pos oldest).Least (seen ++ chain) := by
  induction chain generalizing seen oldest prev pos with
  | nil => rwa [List.append_nil]
  | cons entry rest ih =>
      have next := @ih _ _ (some pos) (pos + 1) (least.look index ⟨prev, pos, entry⟩)
      rwa [List.append_assoc, List.singleton_append] at next

theorem scanBuckets_least {chains : List (List Entry)} {index : Nat}
    (least : oldest.Least seen)
    : (scanBuckets chains index oldest).Least (seen ++ chains.flatten) := by
  induction chains generalizing seen oldest index with
  | nil => rwa [List.flatten_nil, List.append_nil]
  | cons chain rest ih =>
      have next := @ih _ _ (index + 1) (@scanChain_least _ _ index chain none 0 least)
      rwa [List.append_assoc, ← List.flatten_cons] at next

/-- The entries in the buckets that an eviction draws, with repetitions. -/
def Table.drawnEntries (table : Table) : Nat → UInt32 → Nat → List Entry
  | 0, _, _ => []
  | tries + 1, prng, samplesFound =>
      if samplesFound < 16 then
        let prng := xorshift32 prng
        match bucket table.buckets (prng.toNat % table.bucketCount) with
        | [] => table.drawnEntries tries prng samplesFound
        | entry :: rest => entry :: rest ++ table.drawnEntries tries prng (samplesFound + 1)
      else []

theorem sampleBuckets_least {tries samplesFound : Nat} {prng : UInt32}
    (least : oldest.Least seen)
    : (table.sampleBuckets tries prng samplesFound oldest).2.Least
        (seen ++ table.drawnEntries tries prng samplesFound) := by
  induction tries generalizing seen oldest prng samplesFound with
  | zero => rwa [Table.drawnEntries, List.append_nil]
  | succ tries ih =>
      simp only [Table.sampleBuckets, Table.drawnEntries]
      split
      · cases bucket table.buckets ((xorshift32 prng).toNat % table.bucketCount) with
        | nil => exact ih least
        | cons entry rest =>
            simp only
            rw [← List.append_assoc]
            exact ih (scanChain_least least)
      · rwa [List.append_nil]

theorem Table.mem_of_drawn {tries samplesFound : Nat} {prng : UInt32} {entry : Entry}
    (drawn : entry ∈ table.drawnEntries tries prng samplesFound)
    : entry ∈ table.entries := by
  induction tries generalizing prng samplesFound with
  | zero => simp [Table.drawnEntries] at drawn
  | succ tries ih =>
      simp only [Table.drawnEntries] at drawn
      split at drawn
      · split at drawn
        · exact ih drawn
        · next first rest chain =>
            rcases List.mem_append.mp drawn with here | later
            · exact mem_flatten_iff.mpr ⟨_, chain ▸ here⟩
            · exact ih later
      · simp at drawn

/-- The entries an eviction chooses from: those in the drawn buckets, or all entries when the
drawn buckets are empty.
-/
def Table.candidates (table : Table) : List Entry :=
  match table.drawnEntries 64 table.prng 0 with
  | [] => table.entries
  | entry :: rest => entry :: rest

theorem Table.mem_of_candidate {entry : Entry} (candidate : entry ∈ table.candidates)
    : entry ∈ table.entries := by
  simp only [Table.candidates] at candidate
  split at candidate
  · exact candidate
  · next drawn => exact Table.mem_of_drawn (drawn ▸ candidate)

/-- What sampled eviction needs of a table: the size counts the entries, and all of them were used
before the clock's last value.
-/
structure Table.Evictable (table : Table) : Prop where
  sized : table.size = table.entries.length
  early : ∀ entry ∈ table.entries, entry.lastAccessedTime < uint64Max

theorem Table.WellFormed.evictable (wf : table.WellFormed) (clock : table.lruClock < uint64Max)
    : table.Evictable :=
  ⟨wf.size, fun entry member => (wf.clock entry member).trans_lt clock⟩

theorem Table.Evictable.exists_candidate (evictable : table.Evictable) (occupied : 0 < table.size)
    : ∃ entry, entry ∈ table.candidates := by
  simp only [Table.candidates]
  split
  · rw [evictable.sized] at occupied
    exact List.exists_mem_of_length_pos occupied
  · exact ⟨_, List.mem_cons_self⟩

/-- The choice is the least recently used candidate. -/
theorem Table.Evictable.choice_least (evictable : table.Evictable)
    : table.choice.2.Least table.candidates := by
  have start : Oldest.Least ⟨uint64Max, none⟩ [] := .nothing (by simp)
  have sampled := @sampleBuckets_least _ _ table 64 0 table.prng start
  rw [List.nil_append] at sampled
  simp only [Table.choice, Table.candidates]
  generalize table.sampleBuckets 64 table.prng 0 ⟨uint64Max, none⟩ = drawn at sampled ⊢
  obtain ⟨prng, oldest⟩ := drawn
  generalize entries : table.drawnEntries 64 table.prng 0 = drawnEntries at sampled ⊢
  cases sampled with
  | nothing late =>
      -- An entry that was drawn was used before the clock's last value.
      cases drawnEntries with
      | nil => exact scanBuckets_least start
      | cons entry rest =>
          have inTable : entry ∈ table.entries :=
            @Table.mem_of_drawn table 64 0 table.prng entry (entries ▸ List.mem_cons_self)
          have last := late entry List.mem_cons_self
          exact absurd (evictable.early entry inTable) (Nat.not_lt_of_le last)
  | candidate member least =>
      cases drawnEntries with
      | nil => simp at member
      | cons entry rest => exact .candidate member least

/-- An eviction from a table with entries succeeds: it unlinks the least recently used candidate
where the scan found it.
-/
theorem Table.Evictable.evictLru (evictable : table.Evictable) (occupied : 0 < table.size)
    : ∃ victim : Victim, victim.Found table.buckets
        ∧ victim.cursor.item ∈ table.candidates
        ∧ (∀ entry ∈ table.candidates,
            victim.cursor.item.lastAccessedTime ≤ entry.lastAccessedTime)
        ∧ table.kvEvictLruUnlocked
          = (kvOk, Table.expireAndDeleteUnlocked { table with prng := table.choice.1 }
              victim.cursor victim.index) := by
  have found := @Table.choice_found table
  have chosen := evictable.choice_least
  rw [Table.kvEvictLruUnlocked_eq (Nat.ne_of_gt occupied)]
  generalize table.choice = choice at found chosen ⊢
  obtain ⟨prng, oldest⟩ := choice
  cases chosen with
  | nothing late =>
      obtain ⟨entry, candidate⟩ := evictable.exists_candidate occupied
      have last := late entry candidate
      have bound := evictable.early entry (Table.mem_of_candidate candidate)
      exact absurd bound (Nat.not_lt_of_le last)
  | @candidate victim _ member least => exact ⟨victim, found victim rfl, member, least, rfl⟩

/-- The eviction takes one entry out of the table and off its size. -/
theorem Table.Evictable.evictLru_victim (evictable : table.Evictable)
    (occupied : 0 < table.size)
    : ∃ victim ∈ table.candidates,
        (∀ entry ∈ table.candidates, victim.lastAccessedTime ≤ entry.lastAccessedTime)
        ∧ table.kvEvictLruUnlocked.1 = kvOk
        ∧ table.entries.Perm (victim :: table.kvEvictLruUnlocked.2.entries) := by
  obtain ⟨victim, ⟨prev, here⟩, candidate, least, evicted⟩ := evictable.evictLru occupied
  refine ⟨victim.cursor.item, candidate, least, by rw [evicted], ?_⟩
  rw [evicted]
  exact Table.expireAndDelete_perm { table with prng := table.choice.1 } prev here

theorem Table.Evictable.evictLru_size (evictable : table.Evictable) (occupied : 0 < table.size)
    : table.kvEvictLruUnlocked.2.size + 1 = table.size := by
  obtain ⟨victim, _, _, _, evicted⟩ := evictable.evictLru occupied
  rw [evicted]
  exact Nat.sub_add_cancel occupied

/-- The table can be evicted from again. -/
theorem Table.Evictable.next (evictable : table.Evictable) (occupied : 0 < table.size)
    : table.kvEvictLruUnlocked.2.Evictable := by
  obtain ⟨victim, _, _, _, split⟩ := evictable.evictLru_victim occupied
  have fewer := evictable.evictLru_size occupied
  constructor
  · have lengths := split.length_eq
    rw [← evictable.sized, List.length_cons, ← fewer] at lengths
    exact Nat.add_right_cancel lengths
  · intro entry member
    exact evictable.early entry (split.mem_iff.mpr (List.mem_cons_of_mem _ member))

theorem Table.Removals.lruClock {Lost : Binding → Prop} {after : Table}
    (removals : Table.Removals Lost table after)
    : after.lruClock = table.lruClock := by
  induction removals with
  | refl => rfl
  | tail _ last ih =>
      cases last with
      | draw prng => exact ih
      | free prev here lost => exact ih

theorem Table.Removals.bucketCount {Lost : Binding → Prop} {after : Table}
    (removals : Table.Removals Lost table after)
    : after.bucketCount = table.bucketCount := by
  induction removals with
  | refl => rfl
  | tail _ last ih =>
      cases last with
      | draw prng => exact ih
      | free prev here lost =>
          rw [← ih]
          simp [Table.bucketCount, Table.expireAndDeleteUnlocked, Table.refund]

theorem Table.Removals.maxMemoryBudget {Lost : Binding → Prop} {after : Table}
    (removals : Table.Removals Lost table after)
    : after.maxMemoryBudget = table.maxMemoryBudget := by
  induction removals with
  | refl => rfl
  | tail _ last ih =>
      cases last with
      | draw prng => exact ih
      | free prev here lost => exact ih

/-- The eviction loop ends with enough room or with an empty table: every round takes one entry.
By induction on the fuel, which the size bounds.
-/
theorem Table.Evictable.evictWhileOver_ends (evictable : table.Evictable) (bytes : Nat)
    {fuel : Nat} (enough : table.size ≤ fuel)
    : (table.evictWhileOver bytes fuel).allocatedBytes + bytes ≤ table.maxMemoryBudget
      ∨ (table.evictWhileOver bytes fuel).entries = [] := by
  have empty : ∀ {table : Table}, table.Evictable → table.size = 0 → table.entries = [] :=
    fun evictable none => List.eq_nil_of_length_eq_zero (evictable.sized.symm.trans none)
  induction fuel generalizing table with
  | zero => exact .inr (empty evictable (Nat.le_zero.mp enough))
  | succ fuel ih =>
      simp only [Table.evictWhileOver]
      split
      · next excess =>
          obtain ⟨_, _, _, evicted, _⟩ := evictable.evictLru_victim excess.2
          have fewer := evictable.evictLru_size excess.2
          rw [if_pos evicted, ← table.evictLru_removals.maxMemoryBudget]
          exact ih (evictable.next excess.2) (by omega)
      · next stopped =>
          rcases Nat.eq_zero_or_pos table.size with none | some
          · exact .inr (empty evictable none)
          · exact .inl (Nat.le_of_not_lt (fun excess => stopped ⟨excess, some⟩))

/-- Room cannot be made only if the table ends up empty and the bytes still do not fit. -/
theorem Table.Evictable.makeRoom_fails (evictable : table.Evictable) {bytes : Nat}
    (failed : (table.makeRoom bytes).1 = false)
    : (table.makeRoom bytes).2.entries = []
      ∧ table.maxMemoryBudget < (table.makeRoom bytes).2.allocatedBytes + bytes := by
  have budget := (table.makeRoom_removals bytes).maxMemoryBudget
  have ends := evictable.evictWhileOver_ends bytes (Nat.le_refl table.size)
  simp only [Table.makeRoom] at failed budget ⊢
  split at failed
  · next limited =>
      rw [if_pos limited] at budget ⊢
      simp only [decide_eq_false_iff_not, Nat.not_le] at failed
      have excess := budget ▸ failed
      exact ⟨ends.resolve_left (Nat.not_le_of_lt excess), excess⟩
  · simp at failed

end MiniKv
