import Mathlib.Data.List.Nodup
import Mathlib.Tactic

/-! Doubly linked lists with explicit node addresses.
Nodes live in a partial heap; `head` and `tail` are addresses, and both links of every node
are stored, so that a wrong relinking step is visible in the model.
-/

namespace MiniKv.Foundations.DoublyLinked

variable {α : Type}

/-- A list node as it is stored: its value and both links. -/
structure Node (α : Type) where
  value : α
  prev : Option Nat
  next : Option Nat

/-- The nodes reachable through addresses; a freed or never allocated address holds none. -/
abbrev Heap (α : Type) := Nat → Option (Node α)

/-- Stores a node at an address. -/
def put (heap : Heap α) (address : Nat) (node : Node α) : Heap α :=
  fun other => if other = address then some node else heap other

/-- Writes through a pointer; a dangling pointer changes nothing. -/
def relink (heap : Heap α) (address : Nat) (change : Node α → Node α) : Heap α :=
  fun other => if other = address then (heap address).map change else heap other

/-- Frees the node at an address. -/
def free (heap : Heap α) (address : Nat) : Heap α :=
  fun other => if other = address then none else heap other

/-- A list header together with its node heap; `fresh` is the next unused address. -/
structure DList (α : Type) where
  heap : Heap α
  fresh : Nat
  head : Option Nat
  tail : Option Nat
  count : Nat

/-- A zeroed header with no nodes. -/
def DList.empty : DList α :=
  { heap := fun _ => none, fresh := 0, head := none, tail := none, count := 0 }

/-- Allocates a node and links it in front of the head. -/
def DList.pushFront (list : DList α) (value : α) : DList α :=
  let node := list.fresh
  let heap := put list.heap node { value, prev := none, next := list.head }
  let heap :=
    match list.head with
    | some first => relink heap first (fun old => { old with prev := some node })
    | none => heap
  {
    heap
    fresh := node + 1
    head := some node
    tail := if list.tail = none then some node else list.tail
    count := list.count + 1
  }

/-- Unlinks and frees the tail node, returning its value. -/
def DList.popBack (list : DList α) : Option (α × DList α) :=
  match list.tail with
  | none => none
  | some last =>
      match list.heap last with
      | none => none
      | some node =>
          let (heap, head) :=
            match node.prev with
            | some before =>
                (relink list.heap before (fun old => { old with next := none }), list.head)
            | none => (list.heap, none)
          some
            (node.value,
              { heap := free heap last, fresh := list.fresh, head, tail := node.prev,
                count := list.count - 1 })

/-- Follows one of the two links from an address until it is absent, for at most `fuel`
nodes.
-/
def walk (link : Node α → Option Nat) (heap : Heap α) : Nat → Option Nat → List Nat
  | _, none => []
  | 0, some _ => []
  | fuel + 1, some address =>
      match heap address with
      | none => []
      | some node => address :: walk link heap fuel (link node)

/-- The addresses met from the head along `next`. -/
def DList.forwardChain (list : DList α) : List Nat :=
  walk Node.next list.heap list.fresh list.head

/-- The addresses met from the tail along `prev`. -/
def DList.backwardChain (list : DList α) : List Nat :=
  walk Node.prev list.heap list.fresh list.tail

/-- The values stored at a sequence of addresses. -/
def values (heap : Heap α) (addresses : List Nat) : List α :=
  addresses.filterMap (fun address => (heap address).map Node.value)

/-- The list's values from head to tail. -/
def DList.toList (list : DList α) : List α :=
  values list.heap list.forwardChain

/-- The list's values from tail to head. -/
def DList.toListBackward (list : DList α) : List α :=
  values list.heap list.backwardChain

-- Segments: both links of consecutive nodes agree

/-- (Segment heap before addresses contents after) says that the nodes at `addresses` hold
`contents`, are linked both ways, and are bordered by `before` and `after`.
-/
def Segment (heap : Heap α) : Option Nat → List Nat → List α → Option Nat → Prop
  | _, [], [], _ => True
  | before, address :: addresses, value :: contents, after =>
      heap address = some ⟨value, before, addresses.head?.or after⟩
      ∧ Segment heap (some address) addresses contents after
  | _, _, _, _ => False

/-- A segment stores one value for each address, by induction on the addresses. -/
theorem Segment.length_eq {heap : Heap α} {before after : Option Nat}
    {addresses : List Nat} {contents : List α}
    (segment : Segment heap before addresses contents after)
    : addresses.length = contents.length := by
  induction addresses generalizing before contents with
  | nil =>
      cases contents with
      | nil => rfl
      | cons _ _ => exact segment.elim
  | cons address rest ih =>
      cases contents with
      | nil => exact segment.elim
      | cons value more => simpa using ih segment.2

/-- A segment reads only its own addresses. -/
theorem Segment.congr {heap other : Heap α} {before after : Option Nat}
    {addresses : List Nat} {contents : List α}
    (segment : Segment heap before addresses contents after)
    (agrees : ∀ address ∈ addresses, other address = heap address)
    : Segment other before addresses contents after := by
  induction addresses generalizing before contents with
  | nil =>
      cases contents with
      | nil => trivial
      | cons _ _ => exact segment.elim
  | cons address rest ih =>
      cases contents with
      | nil => exact segment.elim
      | cons value more =>
          refine ⟨?_, ih segment.2 (fun other member => agrees other (by simp [member]))⟩
          rw [agrees address (by simp)]
          exact segment.1

/-- A segment that ends in one more node splits into its front and that last node.
Witness: induction on the front, whose last node carries the link to the split point.
-/
theorem segment_snoc {heap : Heap α} {before after : Option Nat} {front : List Nat}
    {last : Nat} {contents : List α} {value : α}
    : Segment heap before (front ++ [last]) (contents ++ [value]) after
      ↔ Segment heap before front contents (some last)
        ∧ heap last = some ⟨value, front.getLast?.or before, after⟩ := by
  induction front generalizing before contents with
  | nil =>
      cases contents with
      | nil => simp [Segment]
      | cons head more => cases more <;> simp [Segment]
  | cons address rest ih =>
      cases contents with
      | nil =>
          constructor
          · intro segment
            have lengths := segment.length_eq
            simp at lengths
          · rintro ⟨segment, _⟩
            exact segment.elim
      | cons head more =>
          have border : (rest ++ [last]).head?.or after = rest.head?.or (some last) := by
            cases rest <;> simp
          have link : (address :: rest).getLast?.or before
              = rest.getLast?.or (some address) := by
            cases rest <;> simp [List.getLast?_cons]
          simp only [List.cons_append, Segment, border, link, ih, and_assoc]

/-- Every segment of at least one node has a last node. -/
theorem Segment.exists_snoc {heap : Heap α} {before after : Option Nat} {front : List Nat}
    {last : Nat} {contents : List α}
    (segment : Segment heap before (front ++ [last]) contents after)
    : ∃ initial value, contents = initial ++ [value] := by
  have lengths := segment.length_eq
  rcases List.eq_nil_or_concat contents with rfl | ⟨initial, value, rfl⟩
  · simp at lengths
  · exact ⟨initial, value, by simp⟩

/-- Rewriting the last node's `next` moves the segment's right border. -/
theorem Segment.relinkLast {heap : Heap α} {before after : Option Nat} {front : List Nat}
    {last : Nat} {contents : List α} (border : Option Nat)
    (segment : Segment heap before (front ++ [last]) contents after)
    (unique : (front ++ [last]).Nodup)
    : Segment (relink heap last (fun old => { old with next := border })) before
        (front ++ [last]) contents border := by
  obtain ⟨initial, value, rfl⟩ := segment.exists_snoc
  obtain ⟨frontSegment, stored⟩ := segment_snoc.mp segment
  refine segment_snoc.mpr ⟨frontSegment.congr ?_, by simp [relink, stored]⟩
  intro address member
  have different : address ≠ last := by
    rintro rfl
    exact (List.nodup_append.mp unique).2.2 address member address (by simp) rfl
  simp [relink, different]

-- Representation

/-- (Linked list addresses contents) is the list's representation: its nodes, in order, are
at `addresses`, they hold `contents`, and the header agrees with them.
-/
structure Linked (list : DList α) (addresses : List Nat) (contents : List α) : Prop where
  segment : Segment list.heap none addresses contents none
  unique : addresses.Nodup
  allocated : ∀ address ∈ addresses, address < list.fresh
  head : list.head = addresses.head?
  tail : list.tail = addresses.getLast?
  count : list.count = addresses.length

/-- The list is well linked and holds the given values. -/
def Represents (list : DList α) (contents : List α) : Prop :=
  ∃ addresses, Linked list addresses contents

/-- The zeroed header represents no values. -/
theorem represents_empty : Represents (DList.empty : DList α) [] :=
  ⟨[], trivial, .nil, by simp, rfl, rfl, rfl⟩

/-- A represented list counts its values. -/
theorem Represents.count_eq {list : DList α} {contents : List α}
    (represents : Represents list contents)
    : list.count = contents.length := by
  obtain ⟨addresses, linked⟩ := represents
  rw [linked.count, linked.segment.length_eq]

/-- Linking a fresh node in front of the head prepends its value.
Witness: the new address is unallocated, and only the old head's `prev` is rewritten.
-/
theorem Represents.pushFront {list : DList α} {contents : List α}
    (represents : Represents list contents) (value : α)
    : Represents (list.pushFront value) (value :: contents) := by
  obtain ⟨addresses, linked⟩ := represents
  have freshNode : list.fresh ∉ addresses := fun member =>
    Nat.lt_irrefl _ (linked.allocated _ member)
  refine ⟨list.fresh :: addresses, ?_, ?_, ?_, ?_, ?_, ?_⟩
  · cases addresses with
    | nil =>
        have noHead : list.head = none := linked.head
        have empty : contents = [] := List.length_eq_zero_iff.mp linked.segment.length_eq.symm
        subst empty
        simp [DList.pushFront, noHead, Segment, put]
    | cons first rest =>
        have hasHead : list.head = some first := linked.head
        have differs : first ≠ list.fresh := fun same => freshNode (same ▸ by simp)
        cases contents with
        | nil => exact linked.segment.elim
        | cons firstValue more =>
            obtain ⟨stored, tailSegment⟩ := linked.segment
            refine ⟨?_, ?_, ?_⟩
            · simp [DList.pushFront, hasHead, relink, put, Ne.symm differs]
            · simp [DList.pushFront, hasHead, relink, put, differs, stored]
            · refine tailSegment.congr ?_
              intro address member
              have notFirst : address ≠ first := by
                rintro rfl
                exact (List.nodup_cons.mp linked.unique).1 member
              have notFresh : address ≠ list.fresh := fun same =>
                freshNode (same ▸ by simp [member])
              simp [DList.pushFront, hasHead, relink, put, notFirst, notFresh]
  · exact List.nodup_cons.mpr ⟨freshNode, linked.unique⟩
  · intro address member
    rcases List.mem_cons.mp member with rfl | old
    · simp [DList.pushFront]
    · have bound := linked.allocated address old
      simp only [DList.pushFront]
      omega
  · simp [DList.pushFront]
  · cases addresses with
    | nil =>
        have noTail : list.tail = none := linked.tail
        simp [DList.pushFront, noTail]
    | cons first rest => simp [DList.pushFront, linked.tail, List.getLast?_cons]
  · simp [DList.pushFront, linked.count]

theorem DList.popBack_count {list rest : DList α} {value : α}
    (popped : list.popBack = some (value, rest))
    : rest.count = list.count - 1 := by
  simp only [DList.popBack] at popped
  split at popped
  · contradiction
  · split at popped
    · contradiction
    · obtain ⟨_, rfl⟩ := Prod.mk.inj (Option.some.inj popped)
      rfl

/-- An empty list has no tail to pop. -/
theorem Represents.popBack_nil {list : DList α} (represents : Represents list [])
    : list.tail = none ∧ list.popBack = none := by
  obtain ⟨addresses, linked⟩ := represents
  have empty : addresses = [] := List.length_eq_zero_iff.mp linked.segment.length_eq
  subst empty
  have noTail : list.tail = none := linked.tail
  exact ⟨noTail, by simp [DList.popBack, noTail]⟩

/-- Popping the tail removes the last value and relinks its predecessor.
Witness: split the segment at its last node; the predecessor's `next` becomes absent.
-/
theorem Represents.popBack_snoc {list : DList α} {contents : List α} {value : α}
    (represents : Represents list (contents ++ [value]))
    : ∃ rest, list.popBack = some (value, rest) ∧ Represents rest contents := by
  obtain ⟨addresses, linked⟩ := represents
  obtain ⟨front, last, rfl⟩ : ∃ front last, addresses = front ++ [last] := by
    rcases List.eq_nil_or_concat addresses with rfl | ⟨front, last, rfl⟩
    · have lengths := linked.segment.length_eq
      simp at lengths
    · exact ⟨front, last, by simp⟩
  obtain ⟨frontSegment, stored⟩ := segment_snoc.mp linked.segment
  have hasTail : list.tail = some last := by simp [linked.tail]
  obtain ⟨frontUnique, _, separate⟩ := List.nodup_append.mp linked.unique
  have notLast : ∀ address ∈ front, address ≠ last := fun address member =>
    separate address member last (by simp)
  rcases List.eq_nil_or_concat front with rfl | ⟨initial, before, rfl⟩
  · have empty : contents = [] :=
      List.length_eq_zero_iff.mp frontSegment.length_eq.symm
    subst empty
    simp only [List.getLast?_nil, Option.or_none] at stored
    refine ⟨_, by simp [DList.popBack, hasTail, stored]; rfl, [], trivial, .nil, by simp,
      rfl, rfl, ?_⟩
    simp [linked.count]
  · simp only [List.concat_eq_append] at *
    have lastLink : (initial ++ [before]).getLast?.or none = some before := by simp
    rw [lastLink] at stored
    refine ⟨_, by simp [DList.popBack, hasTail, stored]; rfl, initial ++ [before], ?_,
      frontUnique, ?_, ?_, ?_, ?_⟩
    · refine (frontSegment.relinkLast none frontUnique).congr ?_
      intro address member
      simp [free, notLast address member]
    · intro address member
      exact linked.allocated address (by simp at member ⊢; tauto)
    · rw [linked.head]
      cases initial <;> simp
    · simp
    · simp [linked.count]

-- Walks along either link

/-- Following `next` through a segment meets its addresses in order. -/
theorem Segment.walk_next {heap : Heap α} {before : Option Nat} {addresses : List Nat}
    {contents : List α} (segment : Segment heap before addresses contents none)
    {fuel : Nat} (enough : addresses.length ≤ fuel)
    : walk Node.next heap fuel addresses.head? = addresses := by
  induction addresses generalizing before contents fuel with
  | nil => cases fuel <;> rfl
  | cons address rest ih =>
      cases contents with
      | nil => exact segment.elim
      | cons value more =>
          cases fuel with
          | zero => simp at enough
          | succ fuel =>
              simp only [List.head?_cons, walk, segment.1, Option.or_none]
              rw [ih segment.2 (by simpa using enough)]

/-- Following `prev` through a segment meets its addresses in reverse order.
Witness: induction from the right, one segment node at a time.
-/
theorem Segment.walk_prev {heap : Heap α} {addresses : List Nat} {contents : List α}
    {after : Option Nat} (segment : Segment heap none addresses contents after)
    {fuel : Nat} (enough : addresses.length ≤ fuel)
    : walk Node.prev heap fuel addresses.getLast? = addresses.reverse := by
  induction addresses using List.reverseRecOn generalizing contents fuel after with
  | nil => cases fuel <;> rfl
  | append_singleton front last ih =>
      obtain ⟨initial, value, rfl⟩ := segment.exists_snoc
      obtain ⟨frontSegment, stored⟩ := segment_snoc.mp segment
      cases fuel with
      | zero => simp at enough
      | succ fuel =>
          simp only [List.getLast?_append, List.getLast?_singleton, Option.some_or, walk,
            stored, Option.or_none, List.reverse_append, List.reverse_singleton,
            List.singleton_append]
          rw [ih frontSegment (by simpa using enough)]

/-- The values stored along a segment are its contents. -/
theorem Segment.values_eq {heap : Heap α} {before after : Option Nat}
    {addresses : List Nat} {contents : List α}
    (segment : Segment heap before addresses contents after)
    : values heap addresses = contents := by
  induction addresses generalizing before contents with
  | nil =>
      cases contents with
      | nil => rfl
      | cons _ _ => exact segment.elim
  | cons address rest ih =>
      cases contents with
      | nil => exact segment.elim
      | cons value more =>
          have tail := ih segment.2
          simp only [values] at tail ⊢
          simp [segment.1, tail]

/-- A linked list has no more nodes than allocated addresses. -/
theorem Linked.length_le_fresh {list : DList α} {addresses : List Nat} {contents : List α}
    (linked : Linked list addresses contents)
    : addresses.length ≤ list.fresh := by
  have subset : addresses ⊆ List.range list.fresh := by
    intro address member
    exact List.mem_range.mpr (linked.allocated address member)
  simpa using linked.unique.length_le_of_subset subset

/-- Both walks of a linked list meet exactly its nodes, in opposite orders. -/
theorem Linked.chains {list : DList α} {addresses : List Nat} {contents : List α}
    (linked : Linked list addresses contents)
    : list.forwardChain = addresses ∧ list.backwardChain = addresses.reverse := by
  have enough := linked.length_le_fresh
  constructor
  · rw [DList.forwardChain, linked.head]
    exact linked.segment.walk_next enough
  · rw [DList.backwardChain, linked.tail]
    exact linked.segment.walk_prev enough

/-- A represented list reads its values forwards from the head. -/
theorem Represents.toList_eq {list : DList α} {contents : List α}
    (represents : Represents list contents)
    : list.toList = contents := by
  obtain ⟨addresses, linked⟩ := represents
  rw [DList.toList, linked.chains.1, linked.segment.values_eq]

/-- A represented list reads its values backwards from the tail. -/
theorem Represents.toListBackward_eq {list : DList α} {contents : List α}
    (represents : Represents list contents)
    : list.toListBackward = contents.reverse := by
  obtain ⟨addresses, linked⟩ := represents
  rw [DList.toListBackward, linked.chains.2]
  simp only [values, List.filterMap_reverse]
  exact congrArg List.reverse linked.segment.values_eq

/-- The two links agree: the forward chain is the reverse of the backward chain, and the
header names its ends and its length.
-/
theorem Represents.chains_agree {list : DList α} {contents : List α}
    (represents : Represents list contents)
    : list.forwardChain = list.backwardChain.reverse
      ∧ list.head = list.forwardChain.head?
      ∧ list.tail = list.forwardChain.getLast?
      ∧ list.count = list.forwardChain.length := by
  obtain ⟨addresses, linked⟩ := represents
  obtain ⟨forward, backward⟩ := linked.chains
  rw [forward, backward]
  exact ⟨by simp, linked.head, linked.tail, linked.count⟩

end MiniKv.Foundations.DoublyLinked
