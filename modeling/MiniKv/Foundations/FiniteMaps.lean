import Mathlib.Data.Finmap
import Mathlib.Tactic

/-! Finite maps read off lists of keyed items.
The map depends on the items only up to order, as long as no key occurs twice, so exchanging
one item of the list is one insertion or erasure of the map.
-/

namespace MiniKv.Foundations.FiniteMaps

variable {α κ β : Type} [DecidableEq κ]

/-- The finite map from each item's key to what the item shows; the first of several items
with one key wins.
-/
def tabulate (key : α → κ) (view : α → β) (items : List α) : Finmap (fun _ : κ => β) :=
  (items.map (fun item => (⟨key item, view item⟩ : Sigma (fun _ : κ => β)))).toFinmap

variable {key : α → κ} {view : α → β}

/-- No items give the empty map. -/
@[simp]
theorem tabulate_nil : tabulate key view [] = ∅ :=
  Finmap.toFinmap_nil

/-- A first item is one insertion. -/
theorem tabulate_cons (item : α) (rest : List α)
    : tabulate key view (item :: rest)
      = (tabulate key view rest).insert (key item) (view item) :=
  Finmap.toFinmap_cons ..

/-- A key that no item carries is unbound, by induction on the items. -/
theorem lookup_tabulate_eq_none {k : κ} {items : List α}
    : (tabulate key view items).lookup k = none ↔ ∀ item ∈ items, key item ≠ k := by
  induction items with
  | nil => simp
  | cons item rest ih =>
      rw [tabulate_cons]
      by_cases same : key item = k
      · subst same
        simp
      · rw [Finmap.lookup_insert_of_ne _ (Ne.symm same), ih]
        simp [same]

/-- Items in another order give the same map when keys are distinct. -/
theorem tabulate_perm {left right : List α} (distinct : (left.map key).Nodup)
    (perm : left.Perm right)
    : tabulate key view left = tabulate key view right := by
  apply Finmap.ext_lookup
  intro k
  simp only [tabulate, Finmap.dlookup_list_toFinmap]
  apply List.perm_dlookup
  · rw [List.NodupKeys, List.keys, List.map_map]
    exact distinct
  · exact perm.map _

/-- An item of a list with distinct keys shows up under its key. -/
theorem lookup_tabulate_of_mem {items : List α} (distinct : (items.map key).Nodup)
    {item : α} (member : item ∈ items)
    : (tabulate key view items).lookup (key item) = some (view item) := by
  obtain ⟨front, back, rfl⟩ := List.append_of_mem member
  rw [tabulate_perm distinct List.perm_middle, tabulate_cons, Finmap.lookup_insert]

/-- A bound key comes from an item, by induction on the items. -/
theorem exists_of_lookup_tabulate {k : κ} {shown : β} {items : List α}
    (bound : (tabulate key view items).lookup k = some shown)
    : ∃ item ∈ items, key item = k ∧ view item = shown := by
  induction items with
  | nil => simp at bound
  | cons item rest ih =>
      rw [tabulate_cons] at bound
      by_cases same : key item = k
      · subst same
        rw [Finmap.lookup_insert] at bound
        exact ⟨item, by simp, rfl, Option.some.inj bound⟩
      · rw [Finmap.lookup_insert_of_ne _ (Ne.symm same)] at bound
        obtain ⟨other, member, found⟩ := ih bound
        exact ⟨other, by simp [member], found⟩

/-- Taking one item away erases its key. -/
theorem tabulate_erase {items rest : List α} {item : α} (distinct : (items.map key).Nodup)
    (split : items.Perm (item :: rest))
    : tabulate key view rest = (tabulate key view items).erase (key item) := by
  have keys := (split.map key).nodup_iff.mp distinct
  rw [List.map_cons, List.nodup_cons] at keys
  rw [tabulate_perm distinct split, tabulate_cons]
  apply Finmap.ext_lookup
  intro k
  by_cases same : k = key item
  · subst same
    rw [Finmap.lookup_erase, lookup_tabulate_eq_none]
    intro other member clash
    exact keys.1 (List.mem_map.mpr ⟨other, member, clash⟩)
  · rw [Finmap.lookup_erase_ne same, Finmap.lookup_insert_of_ne _ same]

/-- Adding an item with a new key inserts what it shows. -/
theorem tabulate_add {items grown : List α} {item : α} (distinct : (grown.map key).Nodup)
    (split : grown.Perm (item :: items))
    : tabulate key view grown = (tabulate key view items).insert (key item) (view item) := by
  rw [tabulate_perm distinct split, tabulate_cons]

/-- Exchanging an item for another one with the same key re-inserts what it shows. -/
theorem tabulate_replace {items replaced rest : List α} {old new : α}
    (distinct : (items.map key).Nodup) (sameKey : key new = key old)
    (before : items.Perm (old :: rest)) (after : replaced.Perm (new :: rest))
    : tabulate key view replaced
      = (tabulate key view items).insert (key old) (view new) := by
  have newDistinct : (replaced.map key).Nodup := by
    rw [(after.map key).nodup_iff, List.map_cons, sameKey, ← List.map_cons,
      ← (before.map key).nodup_iff]
    exact distinct
  rw [tabulate_perm newDistinct after, tabulate_perm distinct before, tabulate_cons,
    tabulate_cons, sameKey, Finmap.insert_insert]

/-- The map binds as many keys as there are items, by induction on the items. -/
theorem card_keys_tabulate {items : List α} (distinct : (items.map key).Nodup)
    : (tabulate key view items).keys.card = items.length := by
  have asFinset : (tabulate key view items).keys = (items.map key).toFinset := by
    ext k
    rw [Finmap.mem_keys, ← not_iff_not, ← Finmap.lookup_eq_none,
      lookup_tabulate_eq_none]
    simp
  rw [asFinset, List.toFinset_card_of_nodup distinct, List.length_map]

/-- Inserting the items one after another gives their map. -/
theorem foldl_insert_eq_tabulate {items : List α} (distinct : (items.map key).Nodup)
    : items.foldl (fun map item => map.insert (key item) (view item)) ∅
      = tabulate key view items := by
  have backwards : ∀ items : List α,
      items.foldr (fun item map => map.insert (key item) (view item)) ∅
        = tabulate key view items := by
    intro items
    induction items with
    | nil => rw [List.foldr_nil, tabulate_nil]
    | cons item rest ih => rw [List.foldr_cons, ih, tabulate_cons]
  rw [← List.foldr_reverse, backwards]
  exact (tabulate_perm distinct (List.reverse_perm items).symm).symm

/-- Dropping items by what they show drops the bindings that show it, by induction on the items. -/
theorem lookup_tabulate_filter {items : List α} (distinct : (items.map key).Nodup)
    (keep : κ → β → Bool) (k : κ)
    : (tabulate key view (items.filter (fun item => keep (key item) (view item)))).lookup k
      = ((tabulate key view items).lookup k).filter (keep k) := by
  induction items with
  | nil => simp
  | cons item rest ih =>
      rw [List.map_cons, List.nodup_cons] at distinct
      have others := ih distinct.2
      have unbound : (tabulate key view rest).lookup (key item) = none :=
        lookup_tabulate_eq_none.mpr
          (fun other member same => distinct.1 (List.mem_map.mpr ⟨other, member, same⟩))
      by_cases same : k = key item
      · subst same
        rw [tabulate_cons, Finmap.lookup_insert]
        cases kept : keep (key item) (view item) with
        | true => simp [kept, tabulate_cons, Option.filter]
        | false => simp [kept, others, unbound, Option.filter]
      · rw [tabulate_cons, Finmap.lookup_insert_of_ne _ same, ← others]
        cases kept : keep (key item) (view item) with
        | true => simp [kept, tabulate_cons, Finmap.lookup_insert_of_ne _ same]
        | false => simp [kept]

/-- Erasing an unbound key changes nothing. -/
theorem erase_of_lookup_none {map : Finmap (fun _ : κ => β)} {k : κ}
    (unbound : map.lookup k = none)
    : map.erase k = map := by
  apply Finmap.ext_lookup
  intro other
  by_cases same : other = k
  · subst same
    rw [Finmap.lookup_erase, unbound]
  · rw [Finmap.lookup_erase_ne same]

/-- Erasing forgets an insertion under the same key. -/
theorem erase_insert_self (map : Finmap (fun _ : κ => β)) (k : κ) (shown : β)
    : (map.insert k shown).erase k = map.erase k := by
  apply Finmap.ext_lookup
  intro other
  by_cases same : other = k
  · subst same
    rw [Finmap.lookup_erase, Finmap.lookup_erase]
  · rw [Finmap.lookup_erase_ne same, Finmap.lookup_erase_ne same,
      Finmap.lookup_insert_of_ne _ same]

/-- Re-inserting what a key shows already changes nothing. -/
theorem insert_of_lookup_some {map : Finmap (fun _ : κ => β)} {k : κ} {shown : β}
    (bound : map.lookup k = some shown)
    : map.insert k shown = map := by
  apply Finmap.ext_lookup
  intro other
  by_cases same : other = k
  · subst same
    rw [Finmap.lookup_insert, bound]
  · rw [Finmap.lookup_insert_of_ne _ same]

/-- Every value of the map has a property. -/
def Each (Property : β → Prop) (map : Finmap (fun _ : κ => β)) : Prop :=
  ∀ k shown, map.lookup k = some shown → Property shown

variable {Property : β → Prop} {map : Finmap (fun _ : κ => β)} {k : κ}

theorem Each.empty : Each Property (∅ : Finmap (fun _ : κ => β)) := by
  intro k shown bound
  simp at bound

theorem Each.imp {Weaker : β → Prop} (each : Each Property map)
    (weaken : ∀ shown, Property shown → Weaker shown)
    : Each Weaker map :=
  fun k shown bound => weaken shown (each k shown bound)

theorem Each.tabulate {items : List α} (holds : ∀ item ∈ items, Property (view item))
    : Each Property (tabulate key view items) := by
  intro k shown bound
  obtain ⟨item, member, _, rfl⟩ := exists_of_lookup_tabulate bound
  exact holds item member

theorem Each.insert (each : Each Property map) {shown : β} (holds : Property shown)
    : Each Property (map.insert k shown) := by
  intro other found bound
  by_cases same : other = k
  · subst same
    rw [Finmap.lookup_insert] at bound
    exact Option.some.inj bound ▸ holds
  · rw [Finmap.lookup_insert_of_ne _ same] at bound
    exact each other found bound

theorem Each.erase (each : Each Property map) : Each Property (map.erase k) := by
  intro other found bound
  by_cases same : other = k
  · subst same
    simp [Finmap.lookup_erase] at bound
  · rw [Finmap.lookup_erase_ne same] at bound
    exact each other found bound

end MiniKv.Foundations.FiniteMaps
