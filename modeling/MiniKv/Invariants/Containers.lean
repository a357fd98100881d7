import MiniKv.Invariants.WellFormed

/-! Lists and sets keep their invariants: what pushing, popping, adding and removing do to the
links and chains, and to the values they hold.
-/

namespace MiniKv

open MiniKv.Foundations.ChainedTable
open MiniKv.Foundations.DoublyLinked

theorem Payload.exists_of_isList {payload : Payload} (isList : payload.isList = true)
    : ∃ links, payload = .list links := by
  cases payload with
  | list links => exact ⟨links, rfl⟩
  | _ => cases isList

theorem Payload.exists_of_isSet {payload : Payload} (isSet : payload.isSet = true)
    : ∃ chains, payload = .set chains := by
  cases payload with
  | set chains => exact ⟨chains, rfl⟩
  | _ => cases isSet

theorem listWellFormed_of_represents {list : KvList} {contents : List CString}
    (links : Represents list contents) (bounded : ∀ value ∈ contents, ValidValue value)
    : ListWellFormed list ∧ list.toList = contents := by
  have same := links.toList_eq
  refine ⟨⟨?_, ?_⟩, same⟩
  · rwa [same]
  · rwa [same]

theorem listWellFormed_empty : ListWellFormed DList.empty :=
  (listWellFormed_of_represents represents_empty (by simp)).1

theorem toList_empty : (DList.empty : KvList).toList = [] :=
  Represents.toList_eq represents_empty

theorem ListWellFormed.count_eq {list : KvList} (wf : ListWellFormed list)
    : list.count = list.toList.length :=
  wf.links.count_eq

theorem ListWellFormed.pushFront {list : KvList} (wf : ListWellFormed list) {value : CString}
    (valid : ValidValue value)
    : ListWellFormed (list.pushFront value)
      ∧ (list.pushFront value).toList = value :: list.toList := by
  apply listWellFormed_of_represents (wf.links.pushFront value)
  intro other member
  rcases List.mem_cons.mp member with rfl | old
  · exact valid
  · exact wf.bounded other old

theorem ListWellFormed.popBack_none {list : KvList} (wf : ListWellFormed list)
    (empty : list.toList = [])
    : list.popBack = none := by
  have links := wf.links
  rw [empty] at links
  exact links.popBack_nil.2

/-- Popping takes the last value and keeps the others. -/
theorem ListWellFormed.popBack_some {list : KvList} (wf : ListWellFormed list)
    {value : CString} (last : list.toList.getLast? = some value)
    : ∃ rest, list.popBack = some (value, rest)
        ∧ ListWellFormed rest ∧ rest.toList = list.toList.dropLast := by
  have shape : list.toList.dropLast ++ [value] = list.toList :=
    List.dropLast_append_getLast? value last
  have links := wf.links
  rw [← shape] at links
  obtain ⟨rest, popped, restLinks⟩ := links.popBack_snoc
  obtain ⟨restWf, same⟩ := listWellFormed_of_represents restLinks
    (fun other member => wf.bounded other (List.mem_of_mem_dropLast member))
  exact ⟨rest, popped, restWf, same⟩

/-- What was popped was the last value. -/
theorem ListWellFormed.popBack_eq {list rest : KvList} (wf : ListWellFormed list)
    {value : CString} (popped : list.popBack = some (value, rest))
    : ListWellFormed rest ∧ list.toList = rest.toList ++ [value] := by
  cases bottom : list.toList.getLast? with
  | none =>
      rw [wf.popBack_none (by simpa using bottom)] at popped
      contradiction
  | some last =>
      obtain ⟨other, popsOther, otherWf, same⟩ := wf.popBack_some bottom
      rw [popped, Option.some.injEq, Prod.mk.injEq] at popsOther
      obtain ⟨rfl, rfl⟩ := popsOther
      rw [same, List.dropLast_append_getLast? value bottom]
      exact ⟨otherWf, rfl⟩

theorem ListWellFormed.mem_values {list : KvList} (wf : ListWellFormed list) {value : CString}
    : value ∈ (Payload.list list).values ↔ value ∈ list.toList := by
  rw [Payload.values, wf.links.toListBackward_eq, List.mem_reverse]

theorem ListWellFormed.values_pushFront {list : KvList} (wf : ListWellFormed list)
    {value : CString} (valid : ValidValue value)
    : (Payload.list (list.pushFront value)).values ⊆ (Payload.list list).values ++ [value] := by
  intro other member
  obtain ⟨pushedWf, pushed⟩ := wf.pushFront valid
  rw [pushedWf.mem_values, pushed, List.mem_cons] at member
  rw [List.mem_append, wf.mem_values, List.mem_singleton]
  exact member.symm

theorem ListWellFormed.values_popBack {list rest : KvList} (wf : ListWellFormed list)
    {value : CString} (popped : list.popBack = some (value, rest))
    : (Payload.list rest).values ⊆ (Payload.list list).values := by
  intro other member
  obtain ⟨restWf, shape⟩ := wf.popBack_eq popped
  rw [restWf.mem_values] at member
  rw [wf.mem_values, shape]
  exact List.mem_append_left _ member

theorem Payload.WellFormed.values_valid {payload : Payload} (valid : payload.WellFormed)
    : ∀ value ∈ payload.values, ValidValue value := by
  cases payload with
  | string value =>
      intro other member
      obtain rfl := List.mem_singleton.mp member
      exact valid
  | list links =>
      exact fun value member =>
        ListWellFormed.bounded valid value ((ListWellFormed.mem_values valid).mp member)
  | set chains => exact KvSet.WellFormed.bounded valid

variable {set : KvSet} {value : CString}

theorem members_empty : KvSet.empty.members = [] := by
  simp [KvSet.members, KvSet.empty]

theorem setWellFormed_empty : KvSet.empty.WellFormed := by
  have members := members_empty
  refine ⟨⟨?_, ?_, ?_⟩, ?_, ?_⟩
  · simp [KvSet.empty, initialSetBuckets]
  · intro index item member
    have inside := mem_flatten_iff.mpr ⟨index, member⟩
    rw [← KvSet.members, members] at inside
    simp at inside
  · rw [← KvSet.members, members]
    simp
  · rw [members]
    rfl
  · simp [members]

theorem KvSet.WellFormed.nodup (wf : set.WellFormed) : set.members.Nodup := by
  have distinct := wf.placed.distinct
  rwa [List.map_id] at distinct

/-- Searching one chain decides membership. -/
theorem KvSet.WellFormed.contains_iff (wf : set.WellFormed)
    : set.contains value = true ↔ value ∈ set.members := by
  have absent := @find_eq_none_iff CString CString id hashKey _ set.buckets wf.placed value
  rw [KvSet.contains, ← not_iff_not]
  simp only [find, chainOf, List.find?_eq_none, id_eq, decide_eq_true_eq] at absent
  simp only [List.any_eq_true, decide_eq_true_eq, not_exists, not_and]
  rw [KvSet.bucketCount, absent]
  exact ⟨fun apart member => apart value member rfl,
    fun missing item member same => missing (same ▸ member)⟩

/-- Linking the node of a new member adds exactly that member. -/
theorem KvSet.WellFormed.add_perm (wf : set.WellFormed) (missing : value ∉ set.members)
    : Placed id hashKey (set.add value).buckets
      ∧ (set.add value).members.Perm (value :: set.members) := by
  have fresh : ∀ other ∈ set.buckets.flatten, id other ≠ id value :=
    fun other member same => missing ((id same : other = value) ▸ member)
  exact wf.placed.push (hashKey_lt value wf.placed.nonempty) fresh

theorem KvSet.WellFormed.add (wf : set.WellFormed) (valid : ValidValue value)
    (missing : value ∉ set.members)
    : (set.add value).WellFormed
      ∧ (set.add value).members.toFinset = insert value set.members.toFinset := by
  obtain ⟨placed, members⟩ := wf.add_perm missing
  refine ⟨⟨placed, ?_, ?_⟩, ?_⟩
  · rw [members.length_eq, List.length_cons, ← wf.count]
    rfl
  · intro other member
    rcases List.mem_cons.mp (members.mem_iff.mp member) with rfl | old
    · exact valid
    · exact wf.bounded other old
  · rw [List.toFinset_eq_of_perm _ _ members, List.toFinset_cons]

/-- Unlinking the node of a member takes exactly that member away. -/
theorem KvSet.WellFormed.remove_perm (wf : set.WellFormed) (present : value ∈ set.members)
    : Placed id hashKey (set.remove value).buckets
      ∧ set.members.Perm (value :: (set.remove value).members) := by
  let chain := bucket set.buckets (hashKey value set.bucketCount)
  have contained : chain.any (fun member => decide (member = value)) = true :=
    wf.contains_iff.mpr present
  obtain ⟨pos, found⟩ : ∃ pos, chain.findIdx? (fun member => decide (member = value)) = some pos :=
    Option.isSome_iff_exists.mp (by simpa using contained)
  have here : chain[pos]? = some value := by
    obtain ⟨bound, accepted, _⟩ := List.findIdx?_eq_some_iff_getElem.mp found
    rw [List.getElem?_eq_getElem bound, Option.some.injEq]
    simpa using accepted
  have erased : (set.remove value).buckets
      = set.buckets.modify (hashKey value set.bucketCount) (fun chain => chain.eraseIdx pos) := by
    apply modify_congr
    rw [List.eraseP_eq_eraseIdx, found]
  obtain ⟨placed, split⟩ := wf.placed.erase here
  rw [← erased] at placed split
  exact ⟨placed, split⟩

theorem KvSet.WellFormed.remove (wf : set.WellFormed) (present : value ∈ set.members)
    : (set.remove value).WellFormed
      ∧ (set.remove value).members.toFinset = set.members.toFinset.erase value := by
  obtain ⟨placed, split⟩ := wf.remove_perm present
  have nodup := split.nodup_iff.mp wf.nodup
  have lengths := split.length_eq
  rw [List.length_cons] at lengths
  refine ⟨⟨placed, ?_, ?_⟩, ?_⟩
  · have count := wf.count
    simp only [KvSet.remove] at lengths ⊢
    omega
  · exact fun other member => wf.bounded other (split.mem_iff.mpr (List.mem_cons_of_mem _ member))
  · rw [List.toFinset_eq_of_perm _ _ split, List.toFinset_cons, Finset.erase_insert]
    simpa using (List.nodup_cons.mp nodup).1

theorem KvSet.WellFormed.values_add (wf : set.WellFormed) (missing : value ∉ set.members)
    : (Payload.set (set.add value)).values ⊆ (Payload.set set).values ++ [value] := by
  intro other member
  have added := (wf.add_perm missing).2.mem_iff.mp member
  rw [List.mem_append, List.mem_singleton]
  exact (List.mem_cons.mp added).symm

theorem KvSet.WellFormed.values_remove (wf : set.WellFormed) (present : value ∈ set.members)
    : (Payload.set (set.remove value)).values ⊆ (Payload.set set).values :=
  fun _ member => (wf.remove_perm present).2.mem_iff.mpr (List.mem_cons_of_mem _ member)

/-- The member count is the size of the set. -/
theorem KvSet.WellFormed.count_eq_card (wf : set.WellFormed)
    : set.count = set.members.toFinset.card := by
  rw [wf.count, List.toFinset_card_of_nodup wf.nodup]

end MiniKv
