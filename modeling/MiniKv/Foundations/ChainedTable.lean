import Mathlib.Data.Finmap
import Mathlib.Tactic

/-! Separately chained hash tables over an arbitrary item type.
A table is the array of its collision chains. Pointer surgery on one chain is described by
positions: the node before the unlinked one and the unlinked node itself.
-/

namespace MiniKv.Foundations.ChainedTable

open scoped List

variable {α κ : Type}

-- Chains: walking with a trailing pointer and unlinking a node

/-- A node met while walking a chain, with the trailing pointer the walk keeps. -/
structure Cursor (α : Type) where
  prev : Option Nat
  pos : Nat
  item : α

/-- (seek found chain prev pos) walks `chain` from position `pos`, trailing one node behind,
until `found` accepts a node.
-/
def seek (found : α → Bool) : List α → Option Nat → Nat → Option (Cursor α)
  | [], _, _ => none
  | item :: rest, prev, pos =>
      if found item then some ⟨prev, pos, item⟩ else seek found rest (some pos) (pos + 1)

/-- The chain after `prev->next = node->next`, or `head = node->next` without a trailing
node; `pos` is the position of the unlinked node.
-/
def unlink (chain : List α) (prev : Option Nat) (pos : Nat) : List α :=
  (match prev with
    | some before => chain.take (before + 1)
    | none => [])
  ++ chain.drop (pos + 1)

/-- The trailing pointer of a walk that reached `pos` from the head of its chain. -/
def trailing : Nat → Option Nat
  | 0 => none
  | pos + 1 => some pos

/-- Rewrites the first item that `found` accepts, through a pointer into the chain. -/
def rewriteFirst (found : α → Bool) (change : α → α) : List α → List α
  | [] => []
  | item :: rest =>
      if found item then change item :: rest else item :: rewriteFirst found change rest

/-- A walk that starts with the right trailing pointer ends with the right one.
Witness: induction on the chain, moving the first node into the walked part.
-/
theorem seek_some {found : α → Bool} {chain : List α} {start : Nat} {cursor : Cursor α}
    (met : seek found chain (trailing start) start = some cursor)
    : cursor.prev = trailing cursor.pos
      ∧ start ≤ cursor.pos
      ∧ chain[cursor.pos - start]? = some cursor.item
      ∧ chain.find? found = some cursor.item := by
  induction chain generalizing start with
  | nil => simp [seek] at met
  | cons item rest ih =>
      by_cases accepted : found item
      · simp only [seek, accepted, if_true, Option.some.injEq] at met
        subst met
        simp [accepted]
      · simp only [seek, accepted, Bool.false_eq_true, if_false] at met
        obtain ⟨prev, later, here, first⟩ := @ih (start + 1) met
        refine ⟨prev, by omega, ?_, ?_⟩
        · have shift : cursor.pos - start = (cursor.pos - (start + 1)) + 1 := by omega
          rw [shift, List.getElem?_cons_succ]
          exact here
        · simp [accepted, first]

/-- A walk without a meeting has no accepted item, by chain induction. -/
theorem seek_eq_none {found : α → Bool} {chain : List α} {prev : Option Nat} {pos : Nat}
    : seek found chain prev pos = none ↔ chain.find? found = none := by
  induction chain generalizing prev pos with
  | nil => simp [seek]
  | cons item rest ih =>
      by_cases accepted : found item
      · simp [seek, accepted]
      · simp [seek, accepted, ih]

/-- Unlinking behind the walk's own trailing pointer removes exactly the node met. -/
theorem unlink_trailing (chain : List α) (pos : Nat)
    : unlink chain (trailing pos) pos = chain.eraseIdx pos := by
  rw [List.eraseIdx_eq_take_drop_succ]
  cases pos <;> simp [unlink, trailing]

/-- Removing the node at a position takes one occurrence of its item away. -/
theorem perm_eraseIdx {chain : List α} {pos : Nat} {item : α}
    (here : chain[pos]? = some item)
    : chain.Perm (item :: chain.eraseIdx pos) := by
  obtain ⟨bound, rfl⟩ := List.getElem?_eq_some_iff.mp here
  rw [List.eraseIdx_eq_take_drop_succ]
  calc chain
      = chain.take pos ++ chain[pos] :: chain.drop (pos + 1) := by
        rw [List.cons_getElem_drop_succ, List.take_append_drop]
    _ ~ chain[pos] :: (chain.take pos ++ chain.drop (pos + 1)) := List.perm_middle

/-- Rewriting the first accepted item exchanges that one occurrence.
Witness: induction on the chain; both permutations share the untouched remainder.
-/
theorem rewriteFirst_perm {found : α → Bool} (change : α → α) {chain : List α} {item : α}
    (first : chain.find? found = some item)
    : ∃ rest,
        chain.Perm (item :: rest)
        ∧ (rewriteFirst found change chain).Perm (change item :: rest) := by
  induction chain with
  | nil => simp at first
  | cons head tail ih =>
      by_cases accepted : found head
      · obtain rfl : head = item := by simpa [accepted] using first
        exact ⟨tail, .rfl, by simp [rewriteFirst, accepted]⟩
      · obtain ⟨rest, before, after⟩ := ih (by simpa [accepted] using first)
        refine ⟨head :: rest, ?_, ?_⟩
        · exact (before.cons head).trans (.swap ..)
        · simpa [rewriteFirst, accepted] using (after.cons head).trans (.swap ..)

/-- Every rewritten chain item is an old item or the changed one, by chain induction. -/
theorem mem_rewriteFirst {found : α → Bool} {change : α → α} {chain : List α} {item : α}
    (member : item ∈ rewriteFirst found change chain)
    : item ∈ chain ∨ ∃ old ∈ chain, found old = true ∧ item = change old := by
  induction chain with
  | nil => simp [rewriteFirst] at member
  | cons head tail ih =>
      by_cases accepted : found head
      · simp only [rewriteFirst, accepted, if_true, List.mem_cons] at member
        rcases member with rfl | later
        · exact Or.inr ⟨head, by simp, accepted, rfl⟩
        · exact Or.inl (by simp [later])
      · simp only [rewriteFirst, accepted, Bool.false_eq_true, if_false, List.mem_cons]
          at member
        rcases member with rfl | later
        · exact Or.inl (by simp)
        · rcases ih later with old | ⟨old, inTail, hit, same⟩
          · exact Or.inl (by simp [old])
          · exact Or.inr ⟨old, by simp [inTail], hit, same⟩

-- Buckets: one chain changes, the others stay

/-- The collision chain at an index; an index outside the array has no items. -/
def bucket (buckets : List (List α)) (index : Nat) : List α :=
  buckets.getD index []

/-- An item of the table sits in some chain inside the array. -/
theorem mem_flatten_iff {buckets : List (List α)} {item : α}
    : item ∈ buckets.flatten ↔ ∃ index, item ∈ bucket buckets index := by
  simp only [List.mem_flatten, bucket, List.getD_eq_getElem?_getD]
  constructor
  · rintro ⟨chain, inBuckets, inChain⟩
    obtain ⟨index, bound, rfl⟩ := List.mem_iff_getElem.mp inBuckets
    exact ⟨index, by simpa [List.getElem?_eq_getElem bound] using inChain⟩
  · rintro ⟨index, inChain⟩
    cases here : buckets[index]? with
    | none => simp [here] at inChain
    | some chain =>
        exact ⟨chain, List.mem_of_getElem? here, by simpa [here] using inChain⟩

/-- Reading a chain after one chain changed. -/
theorem bucket_modify {buckets : List (List α)} {index : Nat} {change : List α → List α}
    (bound : index < buckets.length) (other : Nat)
    : bucket (buckets.modify index change) other
      = if other = index then change (bucket buckets index) else bucket buckets other := by
  simp only [bucket, List.getD_eq_getElem?_getD, List.getElem?_modify]
  by_cases same : index = other
  · subst other
    simp [List.getElem?_eq_getElem bound]
  · simp [same, Ne.symm same]

/-- Changing one chain exchanges that chain's items in the whole table.
Witness: induction on the array down to the changed chain.
-/
theorem modify_flatten_perm {buckets : List (List α)} {index : Nat}
    (change : List α → List α) (bound : index < buckets.length)
    : ((buckets.modify index change).flatten ++ bucket buckets index).Perm
        (buckets.flatten ++ change (bucket buckets index)) := by
  induction buckets generalizing index with
  | nil => simp at bound
  | cons chain rest ih =>
      cases index with
      | zero =>
          simp only [List.modify_zero_cons, List.flatten_cons, bucket,
            List.getD_cons_zero]
          calc change chain ++ rest.flatten ++ chain
              ~ chain ++ (change chain ++ rest.flatten) := List.perm_append_comm
            _ ~ chain ++ (rest.flatten ++ change chain) :=
                List.perm_append_comm.append_left chain
            _ = chain ++ rest.flatten ++ change chain := by simp
      | succ index =>
          have tail := @ih index (by simpa using bound)
          simpa only [List.modify_succ_cons, List.flatten_cons, bucket,
            List.getD_cons_succ, List.append_assoc] using tail.append_left chain

/-- Only chains inside the array hold nodes. -/
theorem index_lt_of_bucket {buckets : List (List α)} {index pos : Nat} {item : α}
    (here : (bucket buckets index)[pos]? = some item)
    : index < buckets.length := by
  by_contra outside
  have empty : bucket buckets index = [] := by
    simp [bucket, List.getD_eq_getElem?_getD,
      List.getElem?_eq_none (Nat.le_of_not_lt outside)]
  simp [empty] at here

/-- Removing the node at a position of one chain takes one item out of the table. -/
theorem modify_eraseIdx_perm {buckets : List (List α)} {index pos : Nat} {item : α}
    (here : (bucket buckets index)[pos]? = some item)
    : buckets.flatten.Perm
        (item :: (buckets.modify index (fun chain => chain.eraseIdx pos)).flatten) := by
  have exchanged :=
    modify_flatten_perm (fun chain => chain.eraseIdx pos) (index_lt_of_bucket here)
  have shrunk := perm_eraseIdx here
  refine (List.perm_append_right_iff ((bucket buckets index).eraseIdx pos)).mp ?_
  exact exchanged.symm.trans ((shrunk.append_left _).trans List.perm_middle)

/-- The rest of a walk is the node at its position and the rest behind that. -/
theorem of_drop_eq_cons {chain rest : List α} {pos : Nat} {item : α}
    (shape : chain.drop pos = item :: rest)
    : chain[pos]? = some item ∧ chain.drop (pos + 1) = rest := by
  rw [← List.head?_drop, ← List.drop_drop, shape]
  exact ⟨rfl, rfl⟩

/-- Removing the node a walk is at leaves the walk at the node behind it. -/
theorem drop_eraseIdx {chain rest : List α} {pos : Nat} {item : α}
    (shape : chain.drop pos = item :: rest)
    : (chain.eraseIdx pos).drop pos = rest := by
  obtain ⟨here, next⟩ := of_drop_eq_cons shape
  have inside : pos < chain.length := (List.getElem?_eq_some_iff.mp here).1
  rw [List.eraseIdx_eq_take_drop_succ, List.drop_append, List.length_take,
    Nat.min_eq_left inside.le, List.drop_of_length_le (by simp), Nat.sub_self, next]
  rfl

/-- Rewriting changes nothing when no item is accepted, by induction on the chain. -/
theorem rewriteFirst_of_find_none {found : α → Bool} (change : α → α) {chain : List α}
    (absent : chain.find? found = none)
    : rewriteFirst found change chain = chain := by
  induction chain with
  | nil => rfl
  | cons item rest ih =>
      simp only [List.find?_eq_none, List.mem_cons, forall_eq_or_imp] at absent
      rw [rewriteFirst, if_neg absent.1, ih (List.find?_eq_none.mpr absent.2)]

/-- Only what a change makes of the selected chain counts. -/
theorem modify_congr {buckets : List (List α)} {index : Nat}
    {left right : List α → List α}
    (same : left (bucket buckets index) = right (bucket buckets index))
    : buckets.modify index left = buckets.modify index right := by
  apply List.ext_getElem?
  intro other
  rw [List.getElem?_modify, List.getElem?_modify]
  split
  · next here =>
      subst here
      cases inside : buckets[index]? with
      | none => rfl
      | some chain =>
          rw [bucket, List.getD_eq_getElem?_getD, inside, Option.getD_some] at same
          simp [same]
  · rfl

/-- A change that leaves one chain as it is leaves the array as it is. -/
theorem modify_of_bucket_eq {buckets : List (List α)} {index : Nat}
    {change : List α → List α} (same : change (bucket buckets index) = bucket buckets index)
    : buckets.modify index change = buckets := by
  rw [@modify_congr α buckets index change id same, List.modify_id]

-- Well-placed tables

section Keyed

variable (key : α → κ) (slot : κ → Nat → Nat)

/-- Every item sits in the chain its key selects, and no key occurs twice. -/
structure Placed (buckets : List (List α)) : Prop where
  nonempty : 0 < buckets.length
  placed : ∀ index, ∀ item ∈ bucket buckets index, slot (key item) buckets.length = index
  distinct : (buckets.flatten.map key).Nodup

/-- The chain selected by a key. -/
def chainOf (buckets : List (List α)) (k : κ) : List α :=
  bucket buckets (slot k buckets.length)

/-- Looks a key up in the chain it selects. -/
def find [DecidableEq κ] (buckets : List (List α)) (k : κ) : Option α :=
  (chainOf slot buckets k).find? (fun item => decide (key item = k))

/-- Re-links every item at the head of its chain in a fresh array of `count` chains, in
the order of the old array and its chains.
-/
def rehash (buckets : List (List α)) (count : Nat) : List (List α) :=
  buckets.foldl
    (fun fresh chain =>
      chain.foldl
        (fun fresh item => fresh.modify (slot (key item) count) (item :: ·)) fresh)
    (List.replicate count [])

variable {key slot}

/-- A found item belongs to the table and carries the key, by the chain search. -/
theorem mem_of_find [DecidableEq κ] {buckets : List (List α)} {k : κ} {item : α}
    (found : find key slot buckets k = some item)
    : item ∈ buckets.flatten ∧ key item = k := by
  constructor
  · exact mem_flatten_iff.mpr ⟨_, List.mem_of_find?_eq_some found⟩
  · simpa using List.find?_some found

/-- In a well-placed table the selected chain decides whether a key occurs at all. -/
theorem find_eq_none_iff [DecidableEq κ] {buckets : List (List α)}
    (valid : Placed key slot buckets) {k : κ}
    : find key slot buckets k = none ↔ ∀ item ∈ buckets.flatten, key item ≠ k := by
  simp only [find, chainOf, List.find?_eq_none, decide_eq_true_eq]
  constructor
  · intro absent item member same
    obtain ⟨index, inChain⟩ := mem_flatten_iff.mp member
    have home := valid.placed index item inChain
    subst same
    exact absent item (home ▸ inChain) rfl
  · intro absent item inChain
    exact absent item (mem_flatten_iff.mpr ⟨_, inChain⟩)

/-- Two items of a well-placed table with one key are one item. -/
theorem Placed.eq_of_key {buckets : List (List α)} (valid : Placed key slot buckets)
    {left right : α} (inLeft : left ∈ buckets.flatten) (inRight : right ∈ buckets.flatten)
    (same : key left = key right)
    : left = right :=
  List.inj_on_of_nodup_map valid.distinct inLeft inRight same

/-- Lookup finds every item of a well-placed table under its own key. -/
theorem find_of_mem [DecidableEq κ] {buckets : List (List α)}
    (valid : Placed key slot buckets) {item : α} (member : item ∈ buckets.flatten)
    : find key slot buckets (key item) = some item := by
  cases found : find key slot buckets (key item) with
  | none => exact ((find_eq_none_iff valid).mp found item member rfl).elim
  | some other =>
      obtain ⟨inTable, same⟩ := mem_of_find found
      rw [valid.eq_of_key inTable member same]

/-- Replacing one chain keeps a table well placed when the new chain's items belong there
and the resulting keys stay distinct.
-/
theorem Placed.modify {buckets : List (List α)} (valid : Placed key slot buckets)
    {index : Nat} {change : List α → List α} (bound : index < buckets.length)
    (home : ∀ item ∈ change (bucket buckets index), slot (key item) buckets.length = index)
    (distinct : ((buckets.modify index change).flatten.map key).Nodup)
    : Placed key slot (buckets.modify index change) := by
  refine ⟨by simpa using valid.nonempty, ?_, distinct⟩
  intro other item member
  rw [bucket_modify bound] at member
  rw [List.length_modify]
  split at member
  · next same => exact same ▸ home item member
  · exact valid.placed other item member

/-- Linking an item with a new key at the head of its chain. -/
theorem Placed.push {buckets : List (List α)} (valid : Placed key slot buckets) {item : α}
    (bound : slot (key item) buckets.length < buckets.length)
    (fresh : ∀ other ∈ buckets.flatten, key other ≠ key item)
    : Placed key slot (buckets.modify (slot (key item) buckets.length) (item :: ·))
      ∧ (buckets.modify (slot (key item) buckets.length) (item :: ·)).flatten.Perm
          (item :: buckets.flatten) := by
  have exchanged := modify_flatten_perm (item :: ·) bound
  have grown : (buckets.modify (slot (key item) buckets.length) (item :: ·)).flatten.Perm
      (item :: buckets.flatten) := by
    refine (List.perm_append_right_iff (bucket buckets (slot (key item) buckets.length))).mp
      (exchanged.trans ?_)
    exact List.perm_middle
  refine ⟨valid.modify bound ?_ ?_, grown⟩
  · intro other member
    rcases List.mem_cons.mp member with rfl | old
    · rfl
    · exact valid.placed _ other old
  · rw [(grown.map key).nodup_iff, List.map_cons, List.nodup_cons]
    refine ⟨?_, valid.distinct⟩
    intro member
    obtain ⟨other, inTable, same⟩ := List.mem_map.mp member
    exact fresh other inTable same

/-- Removing the node at a position of a chain keeps the table well placed. -/
theorem Placed.erase {buckets : List (List α)} (valid : Placed key slot buckets)
    {index pos : Nat} {item : α} (here : (bucket buckets index)[pos]? = some item)
    : Placed key slot (buckets.modify index (fun chain => chain.eraseIdx pos))
      ∧ buckets.flatten.Perm
          (item :: (buckets.modify index (fun chain => chain.eraseIdx pos)).flatten) := by
  have taken := modify_eraseIdx_perm here
  refine ⟨valid.modify (index_lt_of_bucket here) ?_ ?_, taken⟩
  · intro other member
    exact valid.placed index other (List.mem_of_mem_eraseIdx member)
  · have keys := (taken.map key).nodup_iff.mp valid.distinct
    exact (List.nodup_cons.mp (by simpa using keys)).2

/-- Rewriting the item under a key, without changing the key, exchanges that one item. -/
theorem Placed.rewrite [DecidableEq κ] {buckets : List (List α)} (valid : Placed key slot buckets)
    {k : κ} {item : α} (found : find key slot buckets k = some item)
    (bound : slot k buckets.length < buckets.length)
    {change : α → α} (keeps : ∀ old, key (change old) = key old)
    : Placed key slot
        (buckets.modify (slot k buckets.length)
          (rewriteFirst (fun old => decide (key old = k)) change))
      ∧ ∃ rest,
          buckets.flatten.Perm (item :: rest)
          ∧ (buckets.modify (slot k buckets.length)
              (rewriteFirst (fun old => decide (key old = k)) change)).flatten.Perm
              (change item :: rest) := by
  obtain ⟨inTable, itemKey⟩ := mem_of_find found
  obtain ⟨chainRest, before, after⟩ := rewriteFirst_perm change found
  obtain ⟨rest, split⟩ : ∃ rest, buckets.flatten.Perm (item :: rest) := by
    obtain ⟨front, back, same⟩ := List.append_of_mem inTable
    exact ⟨front ++ back, same ▸ List.perm_middle⟩
  have exchanged := modify_flatten_perm
    (rewriteFirst (fun old => decide (key old = k)) change) bound
  have swapped : (item :: (buckets.modify (slot k buckets.length)
      (rewriteFirst (fun old => decide (key old = k)) change)).flatten).Perm
      (change item :: buckets.flatten) := by
    refine (List.perm_append_right_iff chainRest).mp ?_
    calc item :: _ ++ chainRest
        ~ _ ++ item :: chainRest := List.perm_middle.symm
      _ ~ _ ++ bucket buckets (slot k buckets.length) := before.symm.append_left _
      _ ~ buckets.flatten ++ _ := exchanged
      _ ~ buckets.flatten ++ change item :: chainRest := after.append_left _
      _ ~ change item :: buckets.flatten ++ chainRest := List.perm_middle
  have replaced : (buckets.modify (slot k buckets.length)
      (rewriteFirst (fun old => decide (key old = k)) change)).flatten.Perm
      (change item :: rest) := by
    refine (List.perm_cons item).mp (swapped.trans ?_)
    exact (split.cons (change item)).trans (.swap ..)
  refine ⟨valid.modify bound ?_ ?_, rest, split, replaced⟩
  · intro other member
    rcases mem_rewriteFirst member with old | ⟨old, inChain, _, rfl⟩
    · exact valid.placed _ other old
    · rw [keeps old]
      exact valid.placed _ old inChain
  · rw [(replaced.map key).nodup_iff, List.map_cons, keeps item, ← List.map_cons,
      ← (split.map key).nodup_iff]
    exact valid.distinct

-- Rehashing

/-- Every chain of `buckets` holds only items that select it among `count` chains. -/
def Homes (key : α → κ) (slot : κ → Nat → Nat) (count : Nat) (buckets : List (List α))
    : Prop :=
  ∀ index, ∀ item ∈ bucket buckets index, slot (key item) count = index

/-- Re-linking one item keeps every chain at home and adds that item. -/
theorem relink_step {buckets : List (List α)} {count : Nat} {item : α}
    (length : buckets.length = count) (bound : slot (key item) count < count)
    (homes : Homes key slot count buckets)
    : Homes key slot count (buckets.modify (slot (key item) count) (item :: ·))
      ∧ (buckets.modify (slot (key item) count) (item :: ·)).flatten.Perm
          (item :: buckets.flatten) := by
  have inside : slot (key item) count < buckets.length := length ▸ bound
  constructor
  · intro index other member
    rw [bucket_modify inside] at member
    split at member
    · next same =>
        rcases List.mem_cons.mp member with rfl | old
        · exact same.symm
        · exact same ▸ homes _ other old
    · exact homes index other member
  · refine (List.perm_append_right_iff (bucket buckets (slot (key item) count))).mp
      ((modify_flatten_perm _ inside).trans ?_)
    exact List.perm_middle

/-- Re-linking a chain node by node moves all of it, by induction on the chain. -/
theorem relink_chain {count : Nat} (bound : ∀ k, slot k count < count)
    (chain : List α) {buckets : List (List α)} (length : buckets.length = count)
    (homes : Homes key slot count buckets)
    : let moved := chain.foldl
        (fun fresh item => fresh.modify (slot (key item) count) (item :: ·)) buckets
      moved.length = count
      ∧ Homes key slot count moved
      ∧ moved.flatten.Perm (chain ++ buckets.flatten) := by
  induction chain generalizing buckets with
  | nil => exact ⟨length, homes, .rfl⟩
  | cons item rest ih =>
      obtain ⟨home, grown⟩ := relink_step length (bound (key item)) homes
      obtain ⟨sameLength, allHome, perm⟩ :=
        ih (by simpa using length) home
      refine ⟨sameLength, allHome, perm.trans ?_⟩
      calc rest ++ _
          ~ rest ++ item :: buckets.flatten := grown.append_left rest
        _ ~ item :: rest ++ buckets.flatten := List.perm_middle

/-- Re-linking all chains of the old array, by induction on the array. -/
theorem relink_array {count : Nat} (bound : ∀ k, slot k count < count)
    (old : List (List α)) {buckets : List (List α)} (length : buckets.length = count)
    (homes : Homes key slot count buckets)
    : let moved := old.foldl
        (fun fresh chain =>
          chain.foldl
            (fun fresh item => fresh.modify (slot (key item) count) (item :: ·)) fresh)
        buckets
      moved.length = count
      ∧ Homes key slot count moved
      ∧ moved.flatten.Perm (old.flatten ++ buckets.flatten) := by
  induction old generalizing buckets with
  | nil => exact ⟨length, homes, .rfl⟩
  | cons chain rest ih =>
      obtain ⟨chainLength, chainHomes, chainPerm⟩ := relink_chain bound chain length homes
      obtain ⟨sameLength, allHome, perm⟩ := ih chainLength chainHomes
      refine ⟨sameLength, allHome, perm.trans ?_⟩
      calc rest.flatten ++ _
          ~ rest.flatten ++ (chain ++ buckets.flatten) := chainPerm.append_left _
        _ = (rest.flatten ++ chain) ++ buckets.flatten := by simp
        _ ~ (chain ++ rest.flatten) ++ buckets.flatten :=
            List.perm_append_comm.append_right _
        _ = (chain :: rest).flatten ++ buckets.flatten := by simp

/-- A rehash moves every item once, to the chain its key selects in the new array. -/
theorem Placed.rehash {buckets : List (List α)} (valid : Placed key slot buckets)
    {count : Nat} (positive : 0 < count) (bound : ∀ k, slot k count < count)
    : (ChainedTable.rehash key slot buckets count).length = count
      ∧ Placed key slot (ChainedTable.rehash key slot buckets count)
      ∧ (ChainedTable.rehash key slot buckets count).flatten.Perm buckets.flatten := by
  have empty : (List.replicate count ([] : List α)).flatten = [] := by simp
  have start : Homes key slot count (List.replicate count []) := by
    intro index item member
    have inside := mem_flatten_iff.mpr ⟨index, member⟩
    simp [empty] at inside
  obtain ⟨length, homes, perm⟩ :=
    relink_array bound buckets (List.length_replicate ..) start
  rw [empty, List.append_nil] at perm
  change (ChainedTable.rehash key slot buckets count).length = count at length
  refine ⟨length, ⟨?_, ?_, ?_⟩, perm⟩
  · rw [length]
    exact positive
  · intro index item member
    rw [length]
    exact homes index item member
  · exact (perm.map key).nodup_iff.mpr valid.distinct

end Keyed

end MiniKv.Foundations.ChainedTable
