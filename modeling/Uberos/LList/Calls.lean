import Uberos.LList
import Mathlib.Data.List.InsertIdx
/-!
# The other members of `LList`

`push_front`, `pop_front`, `insert_before`, `insert_after` and `clear`,
with what each makes of a list that represents a sequence. `clear` takes
the items apart and sets the size, but leaves the ends, so what it leaves
represents a sequence only where there was nothing to clear.
-/

namespace Uberos

open Library

namespace LList

variable {α : Type*} [DecidableEq α]

/-- `push_front`. -/
def pushFront (links : Links α) (list : LList α) (item : α) : Links α × LList α :=
  let links := match list.head with
    | some head => setPrev links head (some item)
    | none => links
  (setNext (setPrev links item none) item list.head,
    { head := some item
      tail := if list.tail.isNone then some item else list.tail
      size := (list.size + 1) % 2 ^ 32 })

/-- `pop_front`, and the item it returns. -/
def popFront (links : Links α) (list : LList α) : Option α × Links α × LList α :=
  match list.head with
  | none => (none, links, list)
  | some item =>
    let (links', tail) := match links.next item with
      | some head => (setPrev links head none, list.tail)
      | none => (links, if list.tail = some item then none else list.tail)
    (some item, links',
      { head := links.next item
        tail := tail
        size := (list.size + 2 ^ 32 - 1) % 2 ^ 32 })

/-- `insert_before(after, item)`. -/
def insertBefore (links : Links α) (list : LList α) (after item : α) : Links α × LList α :=
  let links := setNext links item (some after)
  let links := setPrev links item (links.prev after)
  let links := setPrev links after (some item)
  let (links, head) := match links.prev item with
    | some prev => (setNext links prev (some item), list.head)
    | none => (links, some item)
  (links, { head := head, tail := list.tail, size := (list.size + 1) % 2 ^ 32 })

/-- `insert_after(before, item)`. -/
def insertAfter (links : Links α) (list : LList α) (before item : α) : Links α × LList α :=
  let links := setPrev links item (some before)
  let links := setNext links item (links.next before)
  let links := setNext links before (some item)
  let (links, tail) := match links.next item with
    | some next => (setPrev links next (some item), list.tail)
    | none => (links, some item)
  (links, { head := list.head, tail := tail, size := (list.size + 1) % 2 ^ 32 })

/-- The loop of `clear`, from the item after the head, for so many turns.
There is no writing to an item before it that is null. -/
def unlink : ℕ → Option α → Links α → Option (Links α)
  | _, none, links => some links
  | 0, some _, _ => none
  | turns + 1, some item, links => do
    let prev ← links.prev item
    let links := setPrev (setNext links prev none) item none
    unlink turns (links.next item) links

/-- `clear`, with a loop of so many turns at most. -/
def clear (links : Links α) (list : LList α) (turns : ℕ) : Option (Links α × LList α) :=
  match list.head with
  | none => some (links, list)
  | some head =>
    (unlink turns (links.next head) links).map fun links => (links, { list with size := 0 })

variable {links links' : Links α} {list : LList α} {xs ys zs : List α} {item after before x : α}

/-! ## Items that join

The links each of the three writes, where the item is a new one, and from
them what the list represents. -/

/-- A list an item has joined: it stands between its neighbours, whose
links point to it, and the size counts it. -/
theorem Represents.insert (h : Represents links list (ys ++ zs)) (hitem : item ∉ ys ++ zs)
    {list' : LList α} (hhead : list'.head = (ys ++ item :: zs).head?)
    (htail : list'.tail = (ys ++ item :: zs).getLast?)
    (hsize : list'.size = (list.size + 1) % 2 ^ 32)
    (hnext : ∀ x, links'.next x =
      if x = item then zs.head? else if ys.getLast? = some x then some item else links.next x)
    (hprev : ∀ x, links'.prev x =
      if x = item then ys.getLast? else if zs.head? = some x then some item else links.prev x) :
    Represents links' list' (ys ++ item :: zs) ∧
      ∀ x ∉ ys ++ zs, x ≠ item → links'.next x = links.next x ∧ links'.prev x = links.prev x := by
  have hne : ∀ y ∈ ys ++ zs, y ≠ item := fun y hy heq => hitem (heq ▸ hy)
  constructor
  · refine ⟨?_, hhead, htail, ?_, ?_⟩
    · exact (List.perm_middle.nodup_iff).2 (List.nodup_cons.2 ⟨hitem, h.nodup⟩)
    · rw [hsize, h.size]
      simp only [List.length_append, List.length_cons]
      omega
    · refine h.linked.insert h.nodup ?_ ?_ (fun y hy => ?_) (fun z hz => ?_) (fun y hy hlast => ?_)
        fun y hy hfirst => ?_
      · rw [hnext, if_pos rfl]
      · rw [hprev, if_pos rfl]
      · rw [hnext, if_neg (hne y (List.mem_append_left _ (List.mem_of_mem_getLast? hy))), if_pos hy]
      · rw [hprev, if_neg (hne z (List.mem_append_right _ (List.mem_of_mem_head? hz))), if_pos hz]
      · rw [hnext, if_neg (hne y hy), if_neg hlast]
      · rw [hprev, if_neg (hne y hy), if_neg hfirst]
  · intro x hx hxitem
    rw [List.mem_append, not_or] at hx
    refine ⟨?_, ?_⟩
    · rw [hnext, if_neg hxitem, if_neg]
      exact fun hcon => hx.1 (List.mem_of_mem_getLast? hcon)
    · rw [hprev, if_neg hxitem, if_neg]
      exact fun hcon => hx.2 (List.mem_of_mem_head? hcon)

theorem pushFront_next (links : Links α) (list : LList α) (item x : α) :
    (pushFront links list item).1.next x = if x = item then list.head else links.next x := by
  unfold pushFront
  rcases list.head with - | head <;> simp

theorem pushFront_prev (links : Links α) (list : LList α) (item x : α) :
    (pushFront links list item).1.prev x =
      if x = item then none else if list.head = some x then some item else links.prev x := by
  unfold pushFront
  rcases list.head with - | head
  · simp
  · simp [eq_comm]

/-- **`push_front` prepends**, and touches no item but its own and those
of the list. -/
theorem Represents.pushFront (h : Represents links list xs) (hitem : item ∉ xs) :
    Represents (pushFront links list item).1 (pushFront links list item).2 (item :: xs) ∧
      ∀ x ∉ xs, x ≠ item → (LList.pushFront links list item).1.next x = links.next x ∧
        (LList.pushFront links list item).1.prev x = links.prev x := by
  have hfront : Represents links list ([] ++ xs) := h
  refine hfront.insert hitem rfl ?_ rfl (fun x => ?_) fun x => ?_
  · simp only [LList.pushFront, h.tail]
    rcases xs with - | ⟨y, ys⟩ <;> simp [List.getLast?_cons_cons]
  · rw [pushFront_next, h.head]
    simp
  · rw [pushFront_prev, h.head]
    simp

theorem insertBefore_next (links : Links α) (list : LList α) (hne : item ≠ after) (x : α) :
    (insertBefore links list after item).1.next x =
      if links.prev after = some x then some item
      else if x = item then some after else links.next x := by
  unfold insertBefore
  rcases hprev : links.prev after with - | prev <;> simp [hprev, hne, eq_comm]

theorem insertBefore_prev (links : Links α) (list : LList α) (after item x : α) :
    (insertBefore links list after item).1.prev x =
      if x = after then some item else if x = item then links.prev after else links.prev x := by
  unfold insertBefore
  simp only [setPrev_prev, setNext_prev]
  split <;> simp

/-- **`insert_before` inserts before its anchor**, and touches no item
but its own and those of the list. -/
theorem Represents.insertBefore (h : Represents links list (ys ++ after :: zs))
    (hitem : item ∉ ys ++ after :: zs) :
    Represents (insertBefore links list after item).1 (insertBefore links list after item).2
        (ys ++ item :: after :: zs) ∧
      ∀ x ∉ ys ++ after :: zs, x ≠ item →
        (LList.insertBefore links list after item).1.next x = links.next x ∧
          (LList.insertBefore links list after item).1.prev x = links.prev x := by
  have hne : item ≠ after := fun heq => hitem (by simp [heq])
  have hprev : links.prev after = ys.getLast? := (h.linked ys after zs rfl).2
  have hys : ys.getLast? ≠ some item := fun hcon =>
    hitem (List.mem_append_left _ (List.mem_of_mem_getLast? hcon))
  refine h.insert hitem ?_ ?_ rfl (fun x => ?_) fun x => ?_
  · unfold LList.insertBefore
    rcases ys with - | ⟨y, ys⟩
    · simp [hprev, hne]
    · rcases hlast : (y :: ys).getLast? with - | last
      · simp at hlast
      · simp [hprev, hne, hlast, h.head]
  · show list.tail = _
    rw [h.tail]
    simp [List.getLast?_append, List.getLast?_cons_cons]
  · rw [insertBefore_next links list hne, hprev]
    by_cases hx : x = item
    · rw [if_pos hx, if_pos hx, if_neg (hx ▸ hys)]
      rfl
    · rw [if_neg hx, if_neg hx]
  · rw [insertBefore_prev, hprev]
    by_cases hx : x = item
    · rw [if_pos hx, if_pos hx, if_neg (hx ▸ hne)]
    · simp [hx, eq_comm]

theorem insertAfter_next (links : Links α) (list : LList α) (before item x : α) :
    (insertAfter links list before item).1.next x =
      if x = before then some item else if x = item then links.next before else links.next x := by
  unfold insertAfter
  simp only [setNext_next, setPrev_next]
  split <;> simp

theorem insertAfter_prev (links : Links α) (list : LList α) (hne : item ≠ before) (x : α) :
    (insertAfter links list before item).1.prev x =
      if links.next before = some x then some item
      else if x = item then some before else links.prev x := by
  unfold insertAfter
  rcases hnext : links.next before with - | next <;> simp [hnext, hne, eq_comm]

/-- **`insert_after` inserts after its anchor**, and touches no item but
its own and those of the list. -/
theorem Represents.insertAfter (h : Represents links list (ys ++ before :: zs))
    (hitem : item ∉ ys ++ before :: zs) :
    Represents (insertAfter links list before item).1 (insertAfter links list before item).2
        (ys ++ before :: item :: zs) ∧
      ∀ x ∉ ys ++ before :: zs, x ≠ item →
        (LList.insertAfter links list before item).1.next x = links.next x ∧
          (LList.insertAfter links list before item).1.prev x = links.prev x := by
  have hne : item ≠ before := fun heq => hitem (by simp [heq])
  have hnext : links.next before = zs.head? := (h.linked ys before zs rfl).1
  have hzs : zs.head? ≠ some item := fun hcon =>
    hitem (List.mem_append_right _ (List.mem_cons_of_mem _ (List.mem_of_mem_head? hcon)))
  have hlast : (ys ++ [before]).getLast? = some before := List.getLast?_concat
  rw [List.append_cons ys before zs] at h hitem ⊢
  rw [List.append_cons ys before (item :: zs)]
  refine h.insert hitem ?_ ?_ rfl (fun x => ?_) fun x => ?_
  · show list.head = _
    rw [h.head]
    simp [List.head?_append]
  · unfold LList.insertAfter
    rcases zs with - | ⟨z, zs⟩
    · simp [hnext, hne]
    · simp [hnext, hne, h.tail, List.getLast?_append, List.getLast?_cons_cons]
  · rw [insertAfter_next, hnext, hlast]
    by_cases hx : x = item
    · rw [if_pos hx, if_pos hx, if_neg (hx ▸ hne)]
    · simp [hx, eq_comm]
  · rw [insertAfter_prev links list hne, hnext, hlast]
    by_cases hx : x = item
    · rw [if_pos hx, if_pos hx, if_neg (hx ▸ hzs)]
    · rw [if_neg hx, if_neg hx]

/-! ## `pop_front` -/

/-- **`pop_front` is `pop` of the head**, where there is one. -/
theorem Represents.popFront_cons (h : Represents links list (x :: xs)) :
    (popFront links list).2 = LList.pop links list x := by
  obtain ⟨hnext, hprev⟩ := h.linked [] x xs rfl
  have hhead : list.head = some x := h.head
  rcases xs with - | ⟨y, ys⟩
  · have htail : list.tail = some x := h.tail
    simp only [LList.popFront, LList.pop, hhead, hprev, hnext, htail, List.head?_nil,
      List.getLast?_nil, if_true]
  · simp only [LList.popFront, LList.pop, hhead, hprev, hnext, List.head?_cons, List.getLast?_nil]

/-- **`pop_front` takes the first item out**, and touches no item but
those of the list. -/
theorem Represents.popFront (h : Represents links list xs) :
    Represents (popFront links list).2.1 (popFront links list).2.2 xs.tail ∧
      ∀ x ∉ xs, (LList.popFront links list).2.1.next x = links.next x ∧
        (LList.popFront links list).2.1.prev x = links.prev x := by
  rcases xs with - | ⟨x, xs⟩
  · have hhead : list.head = none := h.head
    simp only [LList.popFront, hhead, List.tail_nil]
    exact ⟨h, fun _ _ => ⟨trivial, trivial⟩⟩
  · have hpop := h.pop List.mem_cons_self
    rw [List.erase_cons_head] at hpop
    rw [h.popFront_cons]
    exact hpop

/-! ## `clear` -/

/-- What the loop makes of the rest of a list: the links forwards to it
and the links backwards from it go. -/
theorem unlink_eq (turns : ℕ) (y : α) (zs : List α) (links : Links α) (hturns : zs.length ≤ turns)
    (hnodup : (y :: zs).Nodup)
    (hnext : ∀ as a bs, y :: zs = as ++ a :: bs → links.next a = bs.head?)
    (hprev : ∀ as a bs, zs = as ++ a :: bs → links.prev a = (y :: as).getLast?) :
    ∃ links', unlink turns zs.head? links = some links' ∧
      ∀ x, links'.next x = (if x ∈ y :: zs then none else links.next x) ∧
        links'.prev x = if x ∈ zs then none else links.prev x := by
  induction zs generalizing turns y links with
  | nil =>
    refine ⟨links, by cases turns <;> rfl, fun x => ⟨?_, by simp⟩⟩
    split
    · rename_i hx
      rw [List.mem_singleton] at hx
      rw [hx, hnext [] y [] rfl]
      rfl
    · rfl
  | cons z zs ih =>
    obtain ⟨turns, rfl⟩ : ∃ n, turns = n + 1 := ⟨turns - 1, by simp at hturns; omega⟩
    obtain ⟨hy, hnodup⟩ := List.nodup_cons.1 hnodup
    have hyz : z ≠ y := fun heq => hy (by simp [heq])
    have hz : z ∉ zs := (List.nodup_cons.1 hnodup).1
    have hzprev : links.prev z = some y := hprev [] z zs rfl
    -- after the turn the rest of the list, from `z` on, is as it was
    obtain ⟨links', hrun, hlinks'⟩ := ih turns z (setPrev (setNext links y none) z none)
      (by simpa using hturns) hnodup (fun as a bs heq => by
        have hay : a ≠ y := fun hcon => hy (by rw [heq, hcon]; simp)
        simp only [setPrev_next, setNext_next, if_neg hay]
        exact hnext (y :: as) a bs (by rw [heq]; rfl)) (fun as a bs heq => by
        have haz : a ≠ z := fun hcon => hz (by rw [heq, hcon]; simp)
        simp only [setPrev_prev, setNext_prev, if_neg haz]
        rw [hprev (z :: as) a bs (by rw [heq]; rfl), List.getLast?_cons_cons])
    refine ⟨links', ?_, fun x => ?_⟩
    · rw [List.head?_cons, unlink, hzprev]
      simp only [Option.bind_eq_bind, Option.bind_some, setPrev_next, setNext_next, if_neg hyz]
      rw [hnext [y] z zs rfl]
      exact hrun
    · rw [(hlinks' x).1, (hlinks' x).2]
      simp only [setPrev_next, setNext_next, setPrev_prev, setNext_prev, List.mem_cons]
      grind

/-- **`clear` returns**, having taken every item from its neighbours and
set the size, with the ends where they were. -/
theorem Represents.clear (h : Represents links list xs) {turns : ℕ} (hturns : xs.length ≤ turns) :
    ∃ links', LList.clear links list turns = some (links', { list with size := 0 }) ∧
      ∀ x, links'.next x = (if x ∈ xs then none else links.next x) ∧
        links'.prev x = if x ∈ xs then none else links.prev x := by
  rcases xs with - | ⟨y, ys⟩
  · have hhead : list.head = none := h.head
    have hsize : list.size = 0 := h.size
    have hclear : LList.clear links list turns = some (links, list) := by
      simp only [LList.clear, hhead]
    refine ⟨links, ?_, fun x => by simp⟩
    rw [hclear, ← hsize]
  · have hhead : list.head = some y := h.head
    have hrest : links.next y = ys.head? := (h.linked [] y ys rfl).1
    obtain ⟨links', hrun, hlinks'⟩ := unlink_eq turns y ys links (by simp at hturns; omega) h.nodup
      (fun as a bs heq => (h.linked as a bs heq).1)
      fun as a bs heq => (h.linked (y :: as) a bs (by rw [heq]; rfl)).2
    refine ⟨links', ?_, fun x => ⟨(hlinks' x).1, ?_⟩⟩
    · rw [LList.clear, hhead]
      simp only [hrest, hrun, Option.map_some]
    · rw [(hlinks' x).2]
      have hfirst : links.prev y = none := (h.linked [] y ys rfl).2
      by_cases hxy : x = y <;> simp [hxy, hfirst]

end LList

end Uberos
