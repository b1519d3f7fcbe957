import Uberos.Library.Linked
import Mathlib.Algebra.Group.Nat.Defs
import Mathlib.Data.Fintype.Card
import Mathlib.Logic.Function.Basic
/-!
# `LList`

The intrusive doubly linked list of `common/LList.hpp`. The links are
fields of the items, shared by all lists; a list is its two ends and its
size. The functions write the fields the source writes, in its order, on
items that may or may not be where they are taken to be. On a list that
represents a sequence they are the operations on sequences.
-/

namespace Uberos

open Library

/-- The fields of an `LList`. -/
structure LList (α : Type*) where
  head : Option α
  tail : Option α
  size : ℕ
  deriving DecidableEq, Repr

namespace LList

variable {α : Type*} [DecidableEq α]

/-- A list as it is constructed. -/
def empty : LList α := ⟨none, none, 0⟩

/-- `item.next = link`. -/
def setNext (links : Links α) (item : α) (link : Option α) : Links α :=
  { links with next := Function.update links.next item link }

/-- `item.prev = link`. -/
def setPrev (links : Links α) (item : α) (link : Option α) : Links α :=
  { links with prev := Function.update links.prev item link }

/-- `push_back`. -/
def pushBack (links : Links α) (list : LList α) (item : α) : Links α × LList α :=
  let links := match list.tail with
    | some tail => setNext links tail (some item)
    | none => links
  (setNext (setPrev links item list.tail) item none,
    { head := if list.head.isNone then some item else list.head
      tail := some item
      size := (list.size + 1) % 2 ^ 32 })

/-- `pop(item)`. Whose ends it moves is the list's it is called on. -/
def pop (links : Links α) (list : LList α) (item : α) : Links α × LList α :=
  let (links, head) := match links.prev item with
    | some prev => (setNext links prev (links.next item), list.head)
    | none => (links, links.next item)
  let (links, tail) := match links.next item with
    | some next => (setPrev links next (links.prev item), list.tail)
    | none => (links, links.prev item)
  (links, { head := head, tail := tail, size := (list.size + 2 ^ 32 - 1) % 2 ^ 32 })

/-- The items a walk along `next` visits, `fuel` of them at most. -/
def walk (links : Links α) : ℕ → Option α → List α
  | 0, _ => []
  | _ + 1, none => []
  | fuel + 1, some item => item :: walk links fuel (links.next item)

/-- `contains(item)`. A walk of more items than there are has gone round. -/
def contains [Fintype α] (links : Links α) (list : LList α) (item : α) : Bool :=
  (walk links (Fintype.card α) list.head).contains item

/-! ## Lists that represent sequences -/

/-- **A well-formed list**: its ends, its size and the links of its items
spell a sequence of distinct items. -/
structure Represents (links : Links α) (list : LList α) (xs : List α) : Prop where
  nodup : xs.Nodup
  head : list.head = xs.head?
  tail : list.tail = xs.getLast?
  size : list.size = xs.length % 2 ^ 32
  linked : Linked links xs

variable {links links' : Links α} {list : LList α} {xs : List α} {item x : α}

omit [DecidableEq α] in
theorem represents_empty (links : Links α) : Represents links empty [] :=
  ⟨List.nodup_nil, rfl, rfl, rfl, linked_nil links⟩

omit [DecidableEq α] in
/-- A list whose items keep their links represents what it did. -/
theorem Represents.congr (h : Represents links list xs)
    (hlinks : ∀ x ∈ xs, links'.next x = links.next x ∧ links'.prev x = links.prev x) :
    Represents links' list xs :=
  ⟨h.nodup, h.head, h.tail, h.size, h.linked.congr hlinks⟩

omit [DecidableEq α] in
/-- A list represents one sequence. -/
theorem Represents.unique {ys : List α} (h : Represents links list xs)
    (h' : Represents links list ys) : xs = ys := by
  have hfollows := h.linked.follows_next
  rw [← h.head, h'.head] at hfollows
  exact hfollows.unique h'.linked.follows_next

@[simp] theorem setNext_next (links : Links α) (item x : α) (link : Option α) :
    (setNext links item link).next x = if x = item then link else links.next x :=
  Function.update_apply ..

@[simp] theorem setNext_prev (links : Links α) (item : α) (link : Option α) :
    (setNext links item link).prev = links.prev := rfl

@[simp] theorem setPrev_prev (links : Links α) (item x : α) (link : Option α) :
    (setPrev links item link).prev x = if x = item then link else links.prev x :=
  Function.update_apply ..

@[simp] theorem setPrev_next (links : Links α) (item : α) (link : Option α) :
    (setPrev links item link).next = links.next := rfl

/-! ## `push_back` -/

/-- The links `push_back` leaves. -/
theorem pushBack_next (links : Links α) (list : LList α) (item x : α) :
    (pushBack links list item).1.next x =
      if x = item then none else if list.tail = some x then some item else links.next x := by
  unfold pushBack
  rcases htail : list.tail with - | tail
  · simp
  · simp [eq_comm]

theorem pushBack_prev (links : Links α) (list : LList α) (item x : α) :
    (pushBack links list item).1.prev x = if x = item then list.tail else links.prev x := by
  unfold pushBack
  rcases list.tail with - | tail <;> simp

/-- **`push_back` appends**, and touches no item but its own and those of
the list. -/
theorem Represents.pushBack (h : Represents links list xs) (hitem : item ∉ xs) :
    Represents (pushBack links list item).1 (pushBack links list item).2 (xs ++ [item]) ∧
      ∀ x ∉ xs, x ≠ item → (LList.pushBack links list item).1.next x = links.next x ∧
        (LList.pushBack links list item).1.prev x = links.prev x := by
  constructor
  · refine ⟨?_, ?_, ?_, ?_, ?_⟩
    · rw [List.nodup_append]
      exact ⟨h.nodup, by simp, fun a ha b hb heq => hitem (by simp_all)⟩
    · simp only [LList.pushBack, h.head]
      rcases xs with - | ⟨y, ys⟩ <;> simp
    · simp [LList.pushBack]
    · simp only [LList.pushBack, h.size, List.length_append, List.length_singleton]
      omega
    · refine h.linked.concat h.nodup ?_ ?_ (fun y hy => ?_) fun y hy => ⟨fun hne => ?_, ?_⟩
      · rw [pushBack_next, if_pos rfl]
      · rw [pushBack_prev, if_pos rfl, h.tail]
      · have hne : y ≠ item := fun heq => hitem (heq ▸ List.mem_of_mem_getLast? hy)
        rw [pushBack_next, if_neg hne, h.tail, if_pos hy]
      · have hitem' : y ≠ item := fun heq => hitem (heq ▸ hy)
        rw [pushBack_next, if_neg hitem', h.tail, if_neg hne]
      · have hitem' : y ≠ item := fun heq => hitem (heq ▸ hy)
        rw [pushBack_prev, if_neg hitem']
  · intro x hx hne
    refine ⟨?_, ?_⟩
    · rw [pushBack_next, if_neg hne, if_neg]
      rw [h.tail]
      exact fun hlast => hx (List.mem_of_mem_getLast? hlast)
    · rw [pushBack_prev, if_neg hne]

/-! ## `pop` -/

/-- The links `pop` leaves, where the item does not link to itself. -/
theorem pop_next (links : Links α) (list : LList α) (item x : α) :
    (pop links list item).1.next x =
      if links.prev item = some x then links.next item else links.next x := by
  unfold pop
  rcases hprev : links.prev item with - | prev
  · simp only
    rcases links.next item with - | next <;> simp
  · simp only
    rcases (setNext links prev (links.next item)).next item with - | next <;> simp [eq_comm]

theorem pop_prev (links : Links α) (list : LList α) (item x : α)
    (hself : links.prev item ≠ some item) :
    (pop links list item).1.prev x =
      if links.next item = some x then links.prev item else links.prev x := by
  unfold pop
  rcases hprev : links.prev item with - | prev
  · simp only
    rcases links.next item with - | next <;> simp [hprev, eq_comm]
  · have hne : item ≠ prev := fun heq => hself (by rw [hprev, ← heq])
    simp only [setNext_next, if_neg hne]
    rcases links.next item with - | next <;> simp [hprev, eq_comm]

/-- **`pop` takes the item out**, and touches no item but those of the
list. -/
theorem Represents.pop (h : Represents links list xs) (hitem : item ∈ xs) :
    Represents (pop links list item).1 (pop links list item).2 (xs.erase item) ∧
      ∀ x ∉ xs, (LList.pop links list item).1.next x = links.next x ∧
        (LList.pop links list item).1.prev x = links.prev x := by
  obtain ⟨ys, zs, hys, rfl, herase⟩ := List.exists_erase_eq hitem
  obtain ⟨hnext, hprev⟩ := h.linked ys item zs rfl
  have hself : links.prev item ≠ some item := fun hcon =>
    hys (List.mem_of_mem_getLast? (hprev ▸ hcon))
  rw [herase]
  have hpopNext := pop_next links list item
  have hpopPrev := fun x => pop_prev links list item x hself
  rw [hprev, hnext] at hpopNext hpopPrev
  constructor
  · refine ⟨?_, ?_, ?_, ?_, ?_⟩
    · exact h.nodup.sublist (List.Sublist.append_left (List.sublist_cons_self item zs) ys)
    · unfold LList.pop
      rw [hprev, h.head]
      rcases ys with - | ⟨y, ys⟩
      · simp [hnext]
      · rcases hlast : (y :: ys).getLast? with - | last
        · simp at hlast
        · simp
    · unfold LList.pop
      rw [hprev, h.tail]
      rcases hlast : ys.getLast? with - | last
      · have hnil : ys = [] := List.getLast?_eq_none_iff.1 hlast
        rcases zs with - | ⟨z, zs⟩
        · simp [hnil, hnext, hprev]
        · simp [hnil, hnext]
      · have hne : item ≠ last := fun heq => hys (heq ▸ List.mem_of_mem_getLast? hlast)
        simp only [setNext_next, if_neg hne, hnext]
        rcases zs with - | ⟨z, zs⟩
        · simp [hprev, hlast]
        · simp [List.getLast?_append]
    · simp only [LList.pop, h.size, List.length_append, List.length_cons]
      omega
    · refine h.linked.remove h.nodup (fun y hy => ?_) (fun z hz => ?_) (fun y _ hne => ?_)
        fun y _ hne => ?_
      · rw [hpopNext, if_pos hy]
      · rw [hpopPrev, if_pos hz]
      · rw [hpopNext, if_neg hne]
      · rw [hpopPrev, if_neg hne]
  · intro x hx
    refine ⟨?_, ?_⟩
    · rw [hpopNext, if_neg]
      exact fun hcon => hx (List.mem_append_left _ (List.mem_of_mem_getLast? hcon))
    · rw [hpopPrev, if_neg]
      exact fun hcon => hx (List.mem_append_right _
        (List.mem_cons_of_mem _ (List.mem_of_mem_head? hcon)))

/-! ## `contains` -/

omit [DecidableEq α] in
/-- A walk from the front of the rest of a list visits it. -/
theorem walk_eq (hlinked : Linked links xs) (fuel : ℕ) (ys zs : List α) (hxs : xs = ys ++ zs)
    (hfuel : zs.length ≤ fuel) : walk links fuel zs.head? = zs := by
  induction fuel generalizing ys zs with
  | zero =>
    have hzs : zs = [] := List.length_eq_zero_iff.1 (by omega)
    rw [walk, hzs]
  | succ fuel ih =>
    rcases zs with - | ⟨z, zs⟩
    · rfl
    · rw [List.head?_cons, walk, (hlinked ys z zs hxs).1,
        ih (ys ++ [z]) zs (by rw [hxs, List.append_assoc, List.singleton_append])
          (by rw [List.length_cons] at hfuel; omega)]

/-- **`contains` is membership.** -/
theorem Represents.contains_iff [Fintype α] (h : Represents links list xs) :
    contains links list item = true ↔ item ∈ xs := by
  have hfuel : xs.length ≤ Fintype.card α := h.nodup.length_le_card
  rw [contains, h.head, walk_eq h.linked _ [] xs rfl hfuel, List.contains_iff_mem]

/-! ## Lists that share their items -/

/-- **A family of lists represents these sequences**, no two of which have
an item in common. -/
structure Family {ι : Type*} (links : Links α) (lists : ι → LList α) (contents : ι → List α) :
    Prop where
  represents : ∀ i, Represents links (lists i) (contents i)
  disjoint : ∀ i j, i ≠ j → ∀ x ∈ contents i, x ∉ contents j

variable {ι : Type*} [DecidableEq ι] {lists : ι → LList α} {contents : ι → List α} {i : ι}

omit [DecidableEq α] in
/-- **One of the lists comes to represent another sequence**, of items on
none of the others, whose items keep their links. -/
theorem Family.update (h : Family links lists contents) {list' : LList α} {ys : List α}
    (hlist : Represents links' list' ys)
    (hkeep : ∀ j ≠ i, ∀ x ∈ contents j,
      links'.next x = links.next x ∧ links'.prev x = links.prev x)
    (hapart : ∀ j ≠ i, ∀ x ∈ ys, x ∉ contents j) :
    Family links' (Function.update lists i list') (Function.update contents i ys) := by
  constructor
  · intro j
    by_cases hj : j = i
    · subst hj
      rw [Function.update_self, Function.update_self]
      exact hlist
    · rw [Function.update_of_ne hj, Function.update_of_ne hj]
      exact (h.represents j).congr (hkeep j hj)
  · intro a b hab x hx
    by_cases ha : a = i
    · subst ha
      rw [Function.update_self] at hx
      rw [Function.update_of_ne (Ne.symm hab)]
      exact hapart b (Ne.symm hab) x hx
    · rw [Function.update_of_ne ha] at hx
      by_cases hb : b = i
      · subst hb
        rw [Function.update_self]
        exact fun hys => hapart a ha x hys hx
      · rw [Function.update_of_ne hb]
        exact h.disjoint a b hab x hx

/-- Appending an item that is on none of them. -/
theorem Family.pushBack (h : Family links lists contents) (hitem : ∀ i, item ∉ contents i) :
    Family (pushBack links (lists i) item).1
      (Function.update lists i (LList.pushBack links (lists i) item).2)
      (Function.update contents i (contents i ++ [item])) := by
  obtain ⟨hpushed, hkeep⟩ := (h.represents i).pushBack (hitem i)
  refine h.update hpushed (fun j hj x hx => ?_) fun j hj x hx => ?_
  · exact hkeep x (h.disjoint j i hj x hx) fun heq => hitem j (heq ▸ hx)
  · rcases List.mem_append.1 hx with hx | hx
    · exact h.disjoint i j (Ne.symm hj) x hx
    · rw [List.mem_singleton.1 hx]
      exact hitem j

/-- Taking an item from the one it is on. -/
theorem Family.pop (h : Family links lists contents) (hitem : item ∈ contents i) :
    Family (pop links (lists i) item).1
      (Function.update lists i (LList.pop links (lists i) item).2)
      (Function.update contents i ((contents i).erase item)) := by
  obtain ⟨hpopped, hkeep⟩ := (h.represents i).pop hitem
  refine h.update hpopped (fun j hj x hx => ?_) fun j hj x hx => ?_
  · exact hkeep x (h.disjoint j i hj x hx)
  · exact h.disjoint i j (Ne.symm hj) x (List.mem_of_mem_erase hx)

/-- **Every item is on the list of its owner**, and on no other. -/
def Distributed (links : Links α) (lists : ι → LList α) (owner : α → Option ι) : Prop :=
  ∃ contents, Family links lists contents ∧ ∀ x i, x ∈ contents i ↔ owner x = some i

variable {owner : α → Option ι}

omit [DecidableEq α] [DecidableEq ι] in
/-- It depends on the links of the items that are owned. -/
theorem Distributed.congr (h : Distributed links lists owner)
    (hlinks : ∀ x, owner x ≠ none → links'.next x = links.next x ∧ links'.prev x = links.prev x) :
    Distributed links' lists owner := by
  obtain ⟨contents, hfamily, hmem⟩ := h
  refine ⟨contents, ⟨fun i => (hfamily.represents i).congr fun x hx => hlinks x ?_,
    hfamily.disjoint⟩, hmem⟩
  rw [(hmem x i).1 hx]
  exact Option.some_ne_none i

/-- An item that has no owner is given one. -/
theorem Distributed.pushBack (h : Distributed links lists owner) (hitem : owner item = none) (i : ι) :
    Distributed (pushBack links (lists i) item).1
      (Function.update lists i (LList.pushBack links (lists i) item).2)
      (Function.update owner item (some i)) := by
  obtain ⟨contents, hfamily, hmem⟩ := h
  have hnot : ∀ j, item ∉ contents j := by
    intro j hj
    rw [hmem, hitem] at hj
    cases hj
  refine ⟨_, hfamily.pushBack hnot, fun x j => ?_⟩
  by_cases hx : x = item
  · subst hx
    rw [Function.update_self, Option.some.injEq]
    by_cases hj : j = i
    · subst hj
      simp
    · rw [Function.update_of_ne hj]
      exact iff_of_false (hnot j) (Ne.symm hj)
  · rw [Function.update_of_ne hx, ← hmem]
    by_cases hj : j = i
    · subst hj
      simp [hx]
    · rw [Function.update_of_ne hj]

/-- An item loses its owner. -/
theorem Distributed.pop (h : Distributed links lists owner) (hitem : owner item = some i) :
    Distributed (pop links (lists i) item).1
      (Function.update lists i (LList.pop links (lists i) item).2)
      (Function.update owner item none) := by
  obtain ⟨contents, hfamily, hmem⟩ := h
  have hin : item ∈ contents i := (hmem item i).2 hitem
  refine ⟨_, hfamily.pop hin, fun x j => ?_⟩
  by_cases hx : x = item
  · subst hx
    rw [Function.update_self]
    refine iff_of_false (fun hcon => ?_) (Option.some_ne_none j).symm
    by_cases hj : j = i
    · subst hj
      rw [Function.update_self] at hcon
      exact (hfamily.represents j).nodup.not_mem_erase hcon
    · rw [Function.update_of_ne hj] at hcon
      exact hfamily.disjoint i j (Ne.symm hj) x hin hcon
  · rw [Function.update_of_ne hx, ← hmem]
    by_cases hj : j = i
    · subst hj
      rw [Function.update_self, List.mem_erase_of_ne hx]
    · rw [Function.update_of_ne hj]

end LList

end Uberos
