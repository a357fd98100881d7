import MiniKv.Invariants.Accounting

/-! Exact byte accounting over whole runs, and with it that the branches which clamp
`allocated_bytes` at zero are dead code.
-/

namespace MiniKv

/-- In every state of a run `allocated_bytes` is what the store owns: the bucket array, the path
of the log and the footprint of each entry. No refund is clamped, neither while the log is
replayed nor in any call. Lists and sets may be filled as long as there is no memory budget.
Witness: every call is a path of primitive changes, and each of them keeps the sum.
-/
theorem run_accounted {bucketCount maxCapacity maxMemoryBudget : Nat} {path : Option CString}
    {log : List UInt8} {prng : UInt32} {env : CallEnv} {lineEnvs : Nat → CallEnv}
    {start : Store}
    (opened : kvInitFull bucketCount maxCapacity maxMemoryBudget path log prng env lineEnvs
      = .ok start)
    (calls : List Call)
    (admitted : maxMemoryBudget = 0 ∧ (∀ call ∈ calls, call.action.keepsUnlimited = true)
      ∨ LogFillsNone log ∧ ∀ call ∈ calls, call.action.fillsContainer = false)
    : let table := (start.run calls).2.table
      table.allocatedBytes
          = table.bucketCount * sizeofPointer + pathBytes path
            + (table.entries.map Entry.footprint).sum
      ∧ ((Store.fresh bucketCount maxCapacity maxMemoryBudget prng log).table.charge
          (pathBytes path)).ExactPath start.table
      ∧ (∀ before call after, calls = before ++ call :: after →
          (start.run before).2.table.ExactPath ((start.run before).2.step call).2.table)
      ∧ ∀ reply ∈ (start.run calls).1, reply ≠ .undefined := by
  obtain ⟨books, exactPath⟩ := kvInitFull_books opened
  refine ⟨(books.run calls).accounted.exact, exactPath,
    fun before call _ _ => ((books.run before).step call).2, ?_⟩
  rcases admitted with ⟨rfl, unlimited⟩ | ⟨_, fillsNone⟩
  · have sound := kvInitFull_sound opened
    exact @Foundations.Runs.run_replies _ _ _ Store.step
      (fun call => call.action.keepsUnlimited = true) Store.Sound (fun reply => reply ≠ .undefined)
      (fun _ _ sound keeps => (sound.step keeps).1) (fun _ _ sound keeps => (sound.step keeps).2)
      start sound calls unlimited
  · exact @Foundations.Runs.run_replies _ _ _ Store.step
      (fun call => call.action.fillsContainer = false) (fun _ => True)
      (fun reply => reply ≠ .undefined) (fun _ _ _ _ => trivial)
      (fun _ _ _ fillsNone => Store.step_defined fillsNone) start trivial calls fillsNone

/-- A budgeted store opened on a log with one string, which is overwritten by a shorter one
before a resize.
-/
theorem run_accounted_budgeted
    : ∃ start,
        kvInitFull 2 0 500 (some ⟨[112], by decide⟩)
            (ascii ['S', 'E', 'T', ' ', 'a', ' ', 'b', 'c'])
            7 (.at 0) (fun _ => .at 0)
          = .ok start
        ∧ (start.run
            [⟨.op (.set (some ⟨[97], by decide⟩) (some ⟨[120], by decide⟩)), .at 1, 3⟩,
              ⟨.op (.resize 5), .at 3, 3⟩]).2.table.allocatedBytes
          = 5 * 8 + 2 + (48 + 2 + 2) :=
  ⟨_, rfl, (@run_accounted 2 0 500 (some ⟨[112], by decide⟩)
    (ascii ['S', 'E', 'T', ' ', 'a', ' ', 'b', 'c']) 7 (.at 0) (fun _ => .at 0) _ rfl
    [⟨.op (.set (some ⟨[97], by decide⟩) (some ⟨[120], by decide⟩)), .at 1, 3⟩,
      ⟨.op (.resize 5), .at 3, 3⟩]
    (.inr ⟨by unfold LogFillsNone; decide +kernel, by decide⟩)).1.trans (by decide +kernel)⟩

end MiniKv
