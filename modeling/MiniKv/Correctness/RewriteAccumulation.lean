import MiniKv.Correctness.InputFiles

/-! The rewrite buffer collects exactly what is appended during a rewrite. Length, capacity and
pointer are reset by different functions and in different ways; over every history the length is
within the capacity and zero while no rewrite runs, so the doubling loop always starts from a
capacity that it can double.
-/

namespace MiniKv

variable {server : Server} {aof : Aof} {data : List UInt8}

-- The doubling loop

/-- The doubling loop on a `size_t`, where a capacity may wrap around to zero. -/
def growCapWrapping (need : Nat) : Nat → Nat → Option Nat
  | 0, cap => if need ≤ cap then some cap else none
  | fuel + 1, cap =>
      if need ≤ cap then some cap else growCapWrapping need fuel (cap * 2 % 2 ^ 64)

/-- What the loop ends with: the capacity itself when it is enough, and otherwise one that is enough
but less than twice the need.
-/
theorem growCap_bounds {need fuel cap grown : Nat} (ends : growCap need fuel cap = some grown)
    : need ≤ grown ∧ cap ≤ grown ∧ (need ≤ cap → grown = cap)
      ∧ (cap < need → grown < 2 * need) := by
  fun_induction growCap need fuel cap with
  | case1 cap enough | case3 fuel cap enough =>
      obtain rfl := Option.some.inj ends
      exact ⟨enough, le_rfl, fun _ => rfl, by omega⟩
  | case2 cap short => contradiction
  | case4 fuel cap short ih =>
      obtain ⟨enough, larger, same, small⟩ := ih ends
      refine ⟨enough, by omega, by omega, fun _ => ?_⟩
      by_cases doubled : need ≤ cap * 2
      · have last := same doubled
        omega
      · exact small (by omega)

/-- The number of rounds that are allowed does not matter, by induction on it. -/
theorem growCap_unique {need fuel more cap grown other : Nat}
    (ends : growCap need fuel cap = some grown) (endsToo : growCap need more cap = some other)
    : grown = other := by
  fun_induction growCap need fuel cap generalizing more with
  | case1 cap enough | case3 fuel cap enough =>
      obtain rfl := Option.some.inj ends
      exact ((growCap_bounds endsToo).2.2.1 enough).symm
  | case2 cap short => contradiction
  | case4 fuel cap short ih =>
      cases more with
      | zero =>
          rw [growCap, if_neg short] at endsToo
          contradiction
      | succ more =>
          rw [growCap, if_neg short] at endsToo
          exact ih ends endsToo

/-- Below `2 ^ 64` nothing wraps around: every capacity on the way is at most the last one. -/
theorem growCapWrapping_eq {need fuel cap grown : Nat} (ends : growCap need fuel cap = some grown)
    (small : grown < 2 ^ 64)
    : growCapWrapping need fuel cap = some grown := by
  fun_induction growCap need fuel cap with
  | case1 cap enough | case3 fuel cap enough => rwa [growCapWrapping, if_pos enough]
  | case2 cap short => contradiction
  | case4 fuel cap short ih =>
      have larger := (growCap_bounds ends).2.1
      rw [growCapWrapping, if_neg short, Nat.mod_eq_of_lt (by omega)]
      exact ih ends

/-- From a positive capacity the loop reaches a need below `2 ^ 63` in at most 64 rounds. -/
theorem growCapWrapping_ends {need cap grown : Nat} (positive : 0 < cap) (small : need < 2 ^ 63)
    (ends : growCap need need cap = some grown)
    : growCapWrapping need 64 cap = some grown := by
  obtain ⟨other, soon, _⟩ := @growCap_some need 64 cap positive (by omega)
  obtain rfl := growCap_unique ends soon
  by_cases enough : need ≤ cap
  · obtain rfl := (growCap_bounds ends).2.2.1 enough
    rw [growCapWrapping, if_pos enough]
  · have last := (growCap_bounds ends).2.2.2 (by omega)
    exact growCapWrapping_eq soon (by omega)

-- The buffer between calls

/-- What every history leaves of the rewrite buffer: what it counts is there, what is there is
within the capacity, and nothing is counted while no rewrite runs.
-/
structure Aof.BufferSized (aof : Aof) : Prop where
  within : aof.rewriteBufLen ≤ aof.rewriteBufCap
  held : ∀ buffer, aof.rewriteBuf = some buffer →
    aof.rewriteBufLen ≤ buffer.length ∧ buffer.length ≤ aof.rewriteBufCap ∧ 0 < aof.rewriteBufCap
  idle : aof.rewritePid ≤ 0 → aof.rewriteBufLen = 0

theorem length_overwriteAt {buffer : List UInt8} {offset : Nat} (inside : offset ≤ buffer.length)
    (data : List UInt8)
    : (overwriteAt buffer offset data).length = max buffer.length (offset + data.length) := by
  simp only [overwriteAt, List.length_append, List.length_take, List.length_drop]
  omega

theorem Aof.BufferSized.append (sized : aof.BufferSized) (data : List UInt8) (allocated : Bool)
    : (aof.appendAofRewriteBuffer data allocated).BufferSized := by
  simp only [Aof.appendAofRewriteBuffer]
  split
  · exact sized
  · next appends =>
      have running : ¬ aof.rewritePid ≤ 0 := (not_or.mp appends).2
      split
      · next missing =>
          split
          · refine ⟨?_, ?_, fun stopped => absurd stopped running⟩
            · dsimp only
              split <;> omega
            · intro buffer same
              obtain rfl := Option.some.inj same
              dsimp only
              split <;> omega
          · refine ⟨Nat.zero_le _, ?_, fun _ => rfl⟩
            intro buffer same
            simp [missing] at same
      · next buffer held =>
          obtain ⟨bound, room, positive⟩ := sized.held buffer held
          have length := length_overwriteAt bound data
          split
          · next fits =>
              refine ⟨fits, ?_, fun stopped => absurd stopped running⟩
              intro other same
              obtain rfl := Option.some.inj same
              dsimp only
              omega
          · next short =>
              split
              · exact sized
              · next cap grown =>
                  obtain ⟨enough, larger, _⟩ := growCap_bounds grown
                  split
                  · refine ⟨enough, ?_, fun stopped => absurd stopped running⟩
                    intro other same
                    obtain rfl := Option.some.inj same
                    dsimp only
                    omega
                  · refine ⟨sized.within.trans larger, ?_, fun stopped => absurd stopped running⟩
                    intro other same
                    simp at same

theorem Aof.bufferSized_lasting : Aof.Lasting Aof.BufferSized where
  congr sized pid buf len cap := by
    refine ⟨len ▸ cap ▸ sized.within, ?_, ?_⟩
    · intro buffer held
      rw [len, cap]
      exact sized.held buffer (buf ▸ held)
    · intro stopped
      rw [len]
      exact sized.idle (pid ▸ stopped)
  fresh missing empty := by
    refine ⟨by omega, ?_, fun _ => empty⟩
    intro buffer held
    rw [missing] at held
    contradiction
  append _ data allocated sized := sized.append data allocated
  start pid stopped sized := by
    have empty := sized.idle (by omega)
    refine ⟨?_, ?_, ?_⟩
    · dsimp only
      split <;> omega
    · intro buffer held
      have fits := sized.held buffer held
      dsimp only
      split <;> omega
    · intro _
      dsimp only
      split <;> omega
  finish sized := by
    refine ⟨Nat.zero_le _, ?_, fun _ => rfl⟩
    intro buffer held
    have fits := sized.held buffer held
    exact ⟨Nat.zero_le _, fits.2⟩

-- One rewrite

/-- Consecutive calls of `append_aof_rewrite_buffer` whose allocations succeed. -/
def Aof.appendAll (aof : Aof) (chunks : List (List UInt8)) : Aof :=
  chunks.foldl (fun aof data => aof.appendAofRewriteBuffer data true) aof

/-- The loop of an append ends, within 64 doublings and without wrapping around, with the capacity
that the append leaves. Without a buffer there is no loop.
-/
def Aof.GrowsFor (aof : Aof) (data : List UInt8) : Prop :=
  ∀ buffer, aof.rewriteBuf = some buffer →
    growCapWrapping (aof.rewriteBufLen + data.length) 64 aof.rewriteBufCap
      = some (aof.appendAofRewriteBuffer data true).rewriteBufCap

/-- The buffer of a running rewrite holds exactly a text. Its capacity is the one that was there
when the rewrite started, or bounded by the text.
-/
structure Aof.Accumulated (start aof : Aof) (text : List UInt8) : Prop where
  sized : aof.BufferSized
  running : 0 < aof.rewritePid
  counted : aof.rewriteBufLen = text.length
  content : aof.rewriteBuffer = text
  bounded : aof.rewriteBufCap ≤ max start.rewriteBufCap (max 4096 (2 * text.length))

theorem Aof.BufferSized.ready (sized : aof.BufferSized) : aof.BufferReady := by
  intro buffer held
  obtain ⟨bound, _, positive⟩ := sized.held buffer held
  exact ⟨bound, positive⟩

/-- A successful append makes a buffer, or doubles the capacity until the data fit. -/
theorem Aof.BufferSized.append_cases (sized : aof.BufferSized) (running : 0 < aof.rewritePid)
    (nonempty : data ≠ [])
    : (aof.rewriteBuf = none
        ∧ aof.appendAofRewriteBuffer data true
          = { aof with
              rewriteBuf := some data
              rewriteBufLen := data.length
              rewriteBufCap := if 4096 < data.length then data.length * 2 else 4096 })
      ∨ ∃ buffer cap, aof.rewriteBuf = some buffer
        ∧ growCap (aof.rewriteBufLen + data.length) (aof.rewriteBufLen + data.length)
            aof.rewriteBufCap = some cap
        ∧ aof.appendAofRewriteBuffer data true
          = { aof with
              rewriteBuf := some (overwriteAt buffer aof.rewriteBufLen data)
              rewriteBufLen := aof.rewriteBufLen + data.length
              rewriteBufCap := cap } := by
  have appends : ¬ (data = [] ∨ aof.rewritePid ≤ 0) := not_or.mpr ⟨nonempty, by omega⟩
  simp only [Aof.appendAofRewriteBuffer, if_neg appends]
  cases held : aof.rewriteBuf with
  | none => exact .inl ⟨rfl, rfl⟩
  | some buffer =>
      obtain ⟨cap, grown, _⟩ :=
        @growCap_need (aof.rewriteBufLen + data.length) _ (sized.held buffer held).2.2
      refine .inr ⟨buffer, cap, rfl, grown, ?_⟩
      by_cases fits : aof.rewriteBufLen + data.length ≤ aof.rewriteBufCap
      · obtain rfl := (growCap_bounds grown).2.2.1 fits
        simp only [if_pos fits]
      · simp only [if_neg fits, grown, if_true]

/-- Appending adds the data to the text. -/
theorem Aof.Accumulated.append {start : Aof} {text : List UInt8}
    (accumulated : start.Accumulated aof text) (nonempty : data ≠ [])
    : start.Accumulated (aof.appendAofRewriteBuffer data true) (text ++ data) := by
  have sized := accumulated.sized
  have counted := accumulated.counted
  have bounded := accumulated.bounded
  have content := sized.ready.rewriteBuffer_append accumulated.running data
  rw [accumulated.content] at content
  have kept := sized.append data true
  rcases sized.append_cases accumulated.running nonempty with
    ⟨missing, appended⟩ | ⟨buffer, cap, held, grown, appended⟩
  · -- Without a buffer nothing has been appended yet.
    have empty : [] = text := by
      have text := accumulated.content
      rwa [Aof.rewriteBuffer, missing] at text
    rw [appended] at kept content ⊢
    obtain rfl := empty
    refine ⟨kept, accumulated.running, rfl, content, ?_⟩
    rw [List.nil_append]
    dsimp only
    split <;> omega
  · obtain ⟨_, _, same, small⟩ := growCap_bounds grown
    rw [appended] at kept content ⊢
    refine ⟨kept, accumulated.running, ?_, content, ?_⟩
    · rw [List.length_append]
      exact congrArg (· + data.length) counted
    · rw [List.length_append]
      dsimp only
      omega

theorem Aof.Accumulated.growsFor {start : Aof} {text : List UInt8}
    (accumulated : start.Accumulated aof text) (nonempty : data ≠ [])
    (small : text.length + data.length < 2 ^ 63)
    : aof.GrowsFor data := by
  intro buffer held
  have sized := accumulated.sized
  rcases sized.append_cases accumulated.running nonempty with
    ⟨missing, _⟩ | ⟨buffer, cap, _, grown, appended⟩
  · rw [missing] at held
    contradiction
  · rw [appended]
    refine growCapWrapping_ends (sized.held _ held).2.2 ?_ grown
    rw [accumulated.counted]
    exact small

/-- A run of appends adds all the data, by induction on the calls. -/
theorem Aof.Accumulated.appendAll {start : Aof} {text : List UInt8} {chunks : List (List UInt8)}
    (accumulated : start.Accumulated aof text) (nonempty : ∀ data ∈ chunks, data ≠ [])
    : start.Accumulated (aof.appendAll chunks) (text ++ chunks.flatten) := by
  induction chunks generalizing aof text with
  | nil => simpa [Aof.appendAll] using accumulated
  | cons data rest ih =>
      obtain ⟨first, later⟩ := List.forall_mem_cons.mp nonempty
      have appended := ih (accumulated.append first) later
      rwa [List.append_assoc] at appended

/-- When a rewrite starts, its buffer is empty: a buffer that is still there is cleared, and without
one nothing was counted.
-/
theorem kvBgrewriteaof_accumulated {store started : Store} {pid : Int} {env : CallEnv}
    (sized : store.aof.BufferSized) (begins : kvBgrewriteaof store pid env = (kvOk, started))
    : started.aof.Accumulated started.aof [] := by
  have kept : started.aof.BufferSized := by
    have lasts := @Upkeep.call_lasting store env _ Aof.bufferSized_lasting (.bgrewriteaof pid) sized
    simpa only [Upkeep.call, begins, Prod.map_snd, id_eq] using lasts
  have forked : 0 < started.aof.rewritePid ∧ started.aof.rewriteBufLen = 0 := by
    simp only [kvBgrewriteaof] at begins
    split at begins
    · simp [kvErrInvalidParam, kvOk] at begins
    · split at begins
      · simp [kvErrAgain, kvOk] at begins
      · next idle =>
          have empty := sized.idle (Int.not_lt.mp (not_or.mp idle).2)
          split at begins
          · simp [kvErrIo, kvOk] at begins
          · next positive =>
              obtain ⟨_, rfl⟩ := Prod.mk.inj begins
              refine ⟨Int.not_le.mp positive, ?_⟩
              dsimp only
              rw [empty, ite_self]
  have content : started.aof.rewriteBuffer = [] := by
    rw [Aof.rewriteBuffer, forked.2]
    split <;> rfl
  exact ⟨kept, forked.1, forked.2, content, le_max_left _ _⟩

/-- Whatever earlier rewrites, merges and discards have left, and whatever has failed on the way:
from the start of a rewrite on, appends whose allocations succeed collect exactly their data. At
every point the length is within the capacity, the first `aof_rewrite_buf_len` bytes are the data so
far, nothing is behind the capacity, and the doubling loop of the next append ends.
-/
theorem rewrite_buffer_accumulates (reachable : server.Reachable) {pid : Int} {env : CallEnv}
    {started : Store} (begins : kvBgrewriteaof server.store pid env = (kvOk, started))
    {chunks : List (List UInt8)} (nonempty : ∀ data ∈ chunks, data ≠ [])
    (total : chunks.flatten.length < 2 ^ 63)
    : ∀ done rest, done ++ rest = chunks →
        started.aof.Accumulated (started.aof.appendAll done) done.flatten
        ∧ ∀ data ∈ rest.head?, (started.aof.appendAll done).GrowsFor data := by
  rintro done rest rfl
  obtain ⟨early, late⟩ := List.forall_mem_append.mp nonempty
  have first := kvBgrewriteaof_accumulated (reachable.lasting Aof.bufferSized_lasting) begins
  have collected := first.appendAll early
  rw [List.nil_append] at collected
  refine ⟨collected, ?_⟩
  intro data next
  obtain ⟨later, rfl⟩ := List.head?_eq_some_iff.mp next
  refine collected.growsFor (late data List.mem_cons_self) ?_
  simp only [List.flatten_append, List.flatten_cons, List.length_append] at total
  omega

/-- A second rewrite starts with the buffer that the merge of the first has left, with its old
contents and capacity, and collects two pieces.
-/
theorem rewrite_buffer_accumulates_again
    : ∃ start, kvInitFull 1 0 0 (some ⟨[108], by decide⟩) [] 7 (.at 0) (fun _ => .at 0) = .ok start
        ∧ let first := (start.step ⟨.upkeep (.bgrewriteaof 5), .at 1, 7⟩).2
          let second := (first.step
            ⟨.op (.set (some ⟨[107], by decide⟩) (some ⟨[97], by decide⟩)), .at 2, 7⟩).2
          let merged := (second.step ⟨.upkeep (.mergeAofRewrite 5 .ok), .at 3, 7⟩).2
          merged.aof.rewriteBufCap = 4096
          ∧ ∃ started, kvBgrewriteaof merged 6 (.at 4) = (kvOk, started)
            ∧ (started.aof.appendAll [[1], [2, 3]]).rewriteBuffer = [1, 2, 3] := by
  have opened : kvInitFull 1 0 0 (some ⟨[108], by decide⟩) [] 7 (.at 0) (fun _ => .at 0)
      = .ok _ := rfl
  have reachable := Server.Reachable.call ⟨.upkeep (.mergeAofRewrite 5 .ok), .at 3, 7⟩
    (Server.Reachable.call
      ⟨.op (.set (some ⟨[107], by decide⟩) (some ⟨[97], by decide⟩)), .at 2, 7⟩
      (Server.Reachable.call ⟨.upkeep (.bgrewriteaof 5), .at 1, 7⟩
        (Server.Reachable.opened ⟨.master, []⟩ opened)))
  have accumulates := fun started begins =>
    @rewrite_buffer_accumulates _ reachable 6 (.at 4) started begins [[1], [2, 3]] (by decide)
      (by decide) [[1], [2, 3]] [] rfl
  exact ⟨_, opened, rfl, _, rfl, (accumulates _ rfl).1.content⟩

end MiniKv
