import Uberos.PodArray
import Uberos.PodArray.Sequence
/-!
# `ListOrdered` over its buffer

The members of `common/ListOrdered.hpp`, on fields that are those of a
`PodArray`. A function returns nothing where an assertion of the source
fails or the source reads or writes beyond the buffer.
-/

namespace Uberos

namespace ListOrdered

namespace Buffer

open Library PodArray

variable {α : Type*}

/-- `resize`. -/
def resize (s : Storage α) (newSize : ℕ) : Option (Storage α) :=
  let newSize := max (max s.length 1) newSize
  if newSize = s.allocated then some s
  else
    (Storage.memcpy newSize (fun _ => none) 0 s.allocated s.data 0 s.length).map fun newData =>
      { s with allocated := newSize, data := newData }

/-- What the members that add an element do first. -/
def grow (s : Storage α) : Option (Storage α) :=
  if (s.length + 1) % 2 ^ 32 ≥ s.allocated then
    resize s ((s.length + 1 + s.length / 2) % 2 ^ 32)
  else some s

/-- `push_back`. -/
def pushBack (s : Storage α) (item : α) : Option (Storage α) := do
  let s ← grow s
  let s' ← s.write s.length item
  return { s' with length := (s.length + 1) % 2 ^ 32 }

/-- `push_front`. -/
def pushFront (s : Storage α) (item : α) : Option (Storage α) := do
  let s ← grow s
  let data ← Storage.memmove s.allocated s.data 1 0 s.length
  { s with length := (s.length + 1) % 2 ^ 32, data := data }.write 0 item

/-- `pop_back`, and the value it returns. -/
def popBack (s : Storage α) : Option (Option α × Storage α) :=
  if 0 < s.length ∧ s.length - 1 < s.allocated then
    some (s.data (s.length - 1), { s with length := s.length - 1 })
  else none

/-- `pop_front`, and the value it returns. Its `memmove` goes from the
front to the second element. -/
def popFront (s : Storage α) : Option (Option α × Storage α) :=
  if 0 < s.length ∧ 0 < s.allocated then
    (Storage.memmove s.allocated s.data 1 0 (s.length - 1)).map fun data =>
      (s.data 0, { s with length := s.length - 1, data := data })
  else none

/-- `pop`, and the value it returns. -/
def pop (s : Storage α) (index : ℕ) : Option (Option α × Storage α) :=
  if index < s.length ∧ index < s.allocated then
    -- the element is returned by the member it is passed on to
    if index = 0 then popFront s
    else if index = s.length - 1 then popBack s
    else
      (Storage.memmove s.allocated s.data index (index + 1) (s.length - 1 - index)).map fun data =>
        (s.data index, { s with length := s.length - 1, data := data })
  else none

/-- `remove`. -/
def remove (s : Storage α) (index : ℕ) : Option (Storage α) :=
  if index < s.length then
    let length := s.length - 1
    -- `memmove` is not called for the last element
    if index < length then
      (Storage.memmove s.allocated s.data index (index + 1) (length - index)).map fun data =>
        { s with length := length, data := data }
    else some { s with length := length }
  else none

/-- `insert`. The elements are moved apart, and the value is not stored. -/
def insert (s : Storage α) (index : ℕ) (_value : α) : Option (Storage α) :=
  if index ≤ s.length then
    (grow s).bind fun s =>
      (Storage.memmove s.allocated s.data (index + 1) index (s.length - index)).map fun data =>
        { s with length := (s.length + 1) % 2 ^ 32, data := data }
  else none

/-- `clear`. -/
def clear (s : Storage α) : Storage α := { s with length := 0 }

/-- What `=` leaves in a list, of another: a buffer of the other's length. -/
def copied (copy : Storage α) : Option (Storage α) :=
  if copy.length > 0 then
    (Storage.memcpy copy.length (fun _ => none) 0 copy.allocated copy.data 0 copy.length).map
      fun data => ⟨copy.length, copy.length, data⟩
  else some ⟨copy.length, copy.length, fun _ => none⟩

/-- `data[0..length)`. A cell beyond the buffer holds nothing. -/
def contents (s : Storage α) : List (Option α) :=
  (List.range s.length).map fun i => if i < s.allocated then s.data i else none

variable {s s' : Storage α} {xs ys : List α} {value : α} {index : ℕ}

/-! ## What a list's buffer holds -/

theorem getElem?_contents (s : Storage α) (i : ℕ) :
    (contents s)[i]? =
      if i < s.length then some (if i < s.allocated then s.data i else none) else none := by
  rw [contents, List.getElem?_map]
  split
  · rename_i hi
    rw [List.getElem?_range hi, Option.map_some]
  · rename_i hi
    rw [List.getElem?_eq_none (by rw [List.length_range]; omega), Option.map_none]

/-- The contents of a buffer that holds a list are the list. -/
theorem contents_eq (h : s.Holds xs) : contents s = xs.map some := by
  have hlength := h.length
  have hroom := h.room
  refine List.ext_getElem? fun i => ?_
  rw [getElem?_contents, List.getElem?_map]
  split
  · rename_i hi
    rw [if_pos (by omega), h.data i (by omega), List.getElem?_eq_getElem (by omega)]
    rfl
  · rw [List.getElem?_eq_none (by omega), Option.map_none]

/-- Of two lists they are one. -/
theorem contents_eq_iff (h : s.Holds xs) : contents s = ys.map some ↔ xs = ys := by
  rw [contents_eq h]
  exact (List.map_injective_iff.2 (Option.some_injective α)).eq_iff

/-! ## Growth -/

/-- It copies what an array's copies. -/
theorem resize_eq (s : Storage α) (newSize : ℕ) : resize s newSize = s.resize newSize := by
  have hlength : min s.length (max (max s.length 1) newSize) = s.length := by omega
  simp only [resize, Storage.resize, hlength]

theorem grow_eq (s : Storage α) : grow s = s.grow := by
  rw [grow, Storage.grow, resize_eq]

/-- The buffer has room for two more, or is one the growth is content
with. -/
def Keeps (s : Storage α) : Prop :=
  s.length + 1 < s.allocated ∨ s.length ≤ 1 ∧ s.allocated = s.length + 1

instance (s : Storage α) : Decidable (Keeps s) := inferInstanceAs (Decidable (_ ∨ _))

theorem Keeps.grows (hkeeps : Keeps s) : s.Grows := by
  rw [Keeps] at hkeeps
  rw [Storage.Grows]
  omega

/-- A buffer that is kept is as it was, -/
theorem grow_of_keeps (h : s.Holds xs) (hkeeps : Keeps s) : grow s = some s := by
  have hword := h.word
  rw [Keeps] at hkeeps
  rw [grow]
  split
  · rw [resize, Nat.mod_eq_of_lt (by omega)]
    exact if_pos (by omega)
  · rfl

/-- and a new one holds nothing beyond the elements. -/
theorem grow_of_not_keeps (h : s.Holds xs) (hgrows : s.Grows) (hkeeps : ¬ Keeps s)
    (hgrow : grow s = some s') : s'.data s.length = none := by
  have hlength := h.length
  have hroom := h.room
  have hword := h.word
  rw [Keeps, not_or] at hkeeps
  rw [Storage.Grows] at hgrows
  rw [grow, if_pos (by omega), resize, Nat.mod_eq_of_lt (by omega), if_neg (by omega),
    Storage.memcpy_eq _ _ (Or.inr ⟨by omega, by omega⟩), Option.map_some] at hgrow
  rw [← Option.some.inj hgrow]
  show Cells.moved s.data (fun _ => none) 0 0 s.length s.length = none
  rw [Cells.moved_of_le (by omega)]

/-! ## Members that add an element -/

/-- It is an array's `push_back`. -/
theorem pushBack_eq (s : Storage α) (item : α) : pushBack s item = s.pushBack item := by
  rw [pushBack, Storage.pushBack, grow_eq]

/-- **`push_back` puts the element behind the others**, where the size it
grows to fits, -/
theorem pushBack_holds (h : s.Holds xs) (hgrows : s.Grows) (item : α) :
    ∃ s', pushBack s item = some s' ∧ s'.Holds (ListOrdered.pushBack xs item) := by
  rw [pushBack_eq]
  exact h.pushBack hgrows item

/-- and where it does not, the element goes beyond the buffer. -/
theorem pushBack_none (h : s.Holds xs) (hgrows : ¬ s.Grows) (item : α) :
    pushBack s item = none := by
  rw [pushBack_eq]
  exact h.pushBack_none hgrows item

/-- **`push_front` puts it before them**, -/
theorem pushFront_holds (h : s.Holds xs) (hgrows : s.Grows) (item : α) :
    ∃ s', pushFront s item = some s' ∧ s'.Holds (ListOrdered.pushFront xs item) := by
  rw [ListOrdered.pushFront]
  obtain ⟨s₁, hs₁, hholds, hcell⟩ := h.grow hgrows
  have hlength := hholds.length
  have hword := hholds.word
  have hmove : Storage.memmove s₁.allocated s₁.data 1 0 s₁.length =
      some (Cells.moved s₁.data s₁.data 1 0 s₁.length) :=
    Storage.memmove_eq _ (Or.inr ⟨by omega, by omega⟩)
  refine ⟨{ s₁ with
      length := (s₁.length + 1) % 2 ^ 32
      data := Function.update (Cells.moved s₁.data s₁.data 1 0 s₁.length) 0 (some item) }, ?_, ?_,
    ?_, hword, ?_⟩
  · simp only [pushFront, grow_eq, hs₁, hmove, Option.bind_eq_bind, Option.bind_some,
      Storage.write]
    rw [if_pos (by omega)]
  · rw [List.length_cons, ← hlength]
    exact Nat.mod_eq_of_lt (by omega)
  · rw [List.length_cons]
    exact hcell
  · obtain ⟨hbefore, hafter⟩ := hholds.data.parted (i := 0) (fun _ _ => rfl) (Nat.zero_le _)
    rw [hlength]
    exact Storage.hold_insert (Nat.zero_le _) hbefore hafter item

/-- and where it does not, the others go beyond the buffer. -/
theorem pushFront_none (h : s.Holds xs) (hgrows : ¬ s.Grows) (item : α) :
    pushFront s item = none := by
  have hlength := h.length
  obtain ⟨s₁, hs₁, hholds, hfull⟩ := h.grow_full hgrows
  have hlength₁ := hholds.length
  have hpos : 0 < xs.length := by
    rw [Storage.Grows] at hgrows
    omega
  have hmove : Storage.memmove s₁.allocated s₁.data 1 0 s₁.length = none := by
    rw [Storage.memmove, if_neg (by omega)]
  simp only [pushFront, grow_eq, hs₁, hmove, Option.bind_eq_bind, Option.bind_some,
    Option.bind_none]

/-- What `insert` leaves: at the index, what stood there before. -/
theorem insert_eq (h : s.Holds xs) (hgrows : s.Grows) (hindex : index ≤ xs.length) (value : α) :
    ∃ s₁ s', grow s = some s₁ ∧ insert s index value = some s' ∧ s₁.Holds xs ∧
      s'.length = xs.length + 1 ∧ xs.length < s'.allocated ∧ s'.allocated < 2 ^ 32 ∧
      (∀ i < index, s'.data i = xs[i]?) ∧ s'.data index = s₁.data index ∧
      ∀ i, index < i → i ≤ xs.length → s'.data i = xs[i - 1]? := by
  obtain ⟨s₁, hs₁, hholds, hcell⟩ := h.grow hgrows
  have hlength := hholds.length
  have hword := hholds.word
  have hmove : Storage.memmove s₁.allocated s₁.data (index + 1) index (s₁.length - index) =
      some (Cells.moved s₁.data s₁.data (index + 1) index (s₁.length - index)) :=
    Storage.memmove_eq _ (Or.inr ⟨by omega, by omega⟩)
  obtain ⟨hbefore, hafter⟩ := hholds.data.parted (fun _ _ => rfl) hindex
  refine ⟨s₁, { s₁ with
      length := (s₁.length + 1) % 2 ^ 32
      data := Cells.moved s₁.data s₁.data (index + 1) index (s₁.length - index) },
    (grow_eq s).trans hs₁, ?_, hholds, ?_, hcell, hword, ?_, ?_, ?_⟩
  · have hle : index ≤ s.length := by rw [h.length]; exact hindex
    rw [insert, if_pos hle, grow_eq, hs₁, Option.bind_some, hmove, Option.map_some]
  · rw [← hlength]
    exact Nat.mod_eq_of_lt (by omega)
  · rw [hlength]
    exact hbefore
  · exact Cells.moved_of_lt (Nat.lt_succ_self index)
  · rw [hlength]
    exact hafter

/-- The value already stands where `insert` leaves the gap: it is the
element at the index, or what a kept buffer has beyond the elements. -/
def Stands (s : Storage α) (xs : List α) (index : ℕ) (value : α) : Prop :=
  if index < s.length then s.Grows ∧ xs[index]? = some value
  else Keeps s ∧ s.data s.length = some value

instance [DecidableEq α] (s : Storage α) (xs : List α) (index : ℕ) (value : α) :
    Decidable (Stands s xs index value) :=
  inferInstanceAs (Decidable (if index < s.length then s.Grows ∧ xs[index]? = some value
    else Keeps s ∧ s.data s.length = some value))

theorem Stands.grows (h : Stands s xs index value) : s.Grows := by
  rw [Stands] at h
  split at h
  · exact h.1
  · exact h.1.grows

/-- The value stands in the buffer once it has grown. -/
theorem stands_iff (h : s.Holds xs) (hgrows : s.Grows) (hindex : index ≤ xs.length)
    (hgrow : grow s = some s') (hholds : s'.Holds xs) :
    Stands s xs index value ↔ s'.data index = some value := by
  have hlength := h.length
  rw [Stands]
  split
  · rw [hholds.data index (by omega)]
    exact and_iff_right hgrows
  · obtain rfl : index = s.length := by omega
    by_cases hkeeps : Keeps s
    · rw [grow_of_keeps h hkeeps] at hgrow
      rw [← Option.some.inj hgrow]
      exact and_iff_right hkeeps
    · rw [grow_of_not_keeps h hgrows hkeeps hgrow]
      exact iff_of_false (fun hcon => hkeeps hcon.1) (by simp)

/-- **`insert` inserts the value exactly where it stands already**, -/
theorem insert_holds (h : s.Holds xs) (hindex : index ≤ xs.length)
    (hstands : Stands s xs index value) :
    ∃ s', insert s index value = some s' ∧ s'.Holds (xs.insertIdx index value) := by
  obtain ⟨s₁, s', hgrow, hinsert, hholds, hlength, hroom, hword, hbefore, hat, hafter⟩ :=
    insert_eq h hstands.grows hindex value
  rw [stands_iff h hstands.grows hindex hgrow hholds, ← hat] at hstands
  have hinserted : (xs.insertIdx index value).length = xs.length + 1 :=
    List.length_insertIdx_of_le_length hindex value
  refine ⟨s', hinsert, by rw [hlength, hinserted], by rw [hinserted]; exact hroom, hword, ?_⟩
  have hhold := Storage.hold_insert hindex hbefore hafter value
  rwa [← hstands, Function.update_eq_self, insert_eq_insertIdx hindex] at hhold

/-- and anywhere else it does not. -/
theorem insert_contents_ne (h : s.Holds xs) (hindex : index ≤ xs.length)
    (hstands : ¬ Stands s xs index value) (hinsert : insert s index value = some s') :
    contents s' ≠ (xs.insertIdx index value).map some := by
  intro hcontents
  have hat : (contents s')[index]? = some (some value) := by
    rw [hcontents, List.getElem?_map, List.getElem?_insertIdx_self, if_pos hindex]
    rfl
  have hle : index ≤ s.length := by rw [h.length]; exact hindex
  rw [getElem?_contents] at hat
  -- the cell at the index keeps what it held
  by_cases hgrows : s.Grows
  · obtain ⟨s₁, s'', hgrow, hinsert', hholds, hlength, hroom, -, -, hdata, -⟩ :=
      insert_eq h hgrows hindex value
    rw [hinsert] at hinsert'
    cases hinsert'
    rw [if_pos (by omega), if_pos (by omega), hdata, Option.some.injEq] at hat
    exact hstands ((stands_iff h hgrows hindex hgrow hholds).2 hat)
  · -- the elements from the index on would go beyond the buffer
    obtain ⟨s₁, hs₁, hholds, hfull⟩ := h.grow_full hgrows
    have hlength₁ := hholds.length
    rw [insert, if_pos hle, grow_eq, hs₁, Option.bind_some] at hinsert
    obtain ⟨data, hmove, rfl⟩ := Option.map_eq_some_iff.1 hinsert
    by_cases hlast : index = s₁.length
    · simp only at hat
      rw [if_neg (by omega : ¬ index < s₁.allocated)] at hat
      split at hat <;> cases hat
    · rw [Storage.memmove, if_neg (by omega)] at hmove
      cases hmove

/-! ## Members that take one -/

/-- **`pop_back`** returns the last element and leaves the others. -/
theorem popBack_holds (h : s.Holds xs) (hne : 0 < xs.length) :
    ∃ s', popBack s = some (xs.getLast?, s') ∧ s'.Holds (ListOrdered.popBack xs) := by
  rw [ListOrdered.popBack]
  have hlength := h.length
  have hroom := h.room
  have hlast : s.length - 1 = xs.length - 1 := by rw [hlength]
  refine ⟨{ s with length := s.length - 1 }, ?_, ?_, ?_, h.word, ?_⟩
  · rw [popBack, if_pos (by omega), hlast, h.data _ (by omega), List.getLast?_eq_getElem?]
  · rw [List.length_dropLast, ← hlength]
  · rw [List.length_dropLast]
    exact Nat.le_trans (Nat.sub_le _ _) hroom
  · rw [List.dropLast_eq_take]
    exact h.data.take _

/-- **`pop_front`** returns the front, and moves the wrong way. -/
theorem popFront_holds (h : s.Holds xs) (hne : 0 < xs.length) :
    ∃ s', popFront s = some (xs.head?, s') ∧ s'.Holds (ListOrdered.popFront xs) := by
  rw [ListOrdered.popFront]
  have hlength := h.length
  have hroom := h.room
  have hmove : Storage.memmove s.allocated s.data 1 0 (s.length - 1) =
      some (Cells.moved s.data s.data 1 0 (s.length - 1)) :=
    Storage.memmove_eq _ (by omega)
  refine ⟨{ s with
      length := s.length - 1
      data := Cells.moved s.data s.data 1 0 (s.length - 1) }, ?_, ?_, ?_, h.word, ?_⟩
  · rw [popFront, if_pos (by omega), hmove, Option.map_some, h.data 0 (by omega),
      List.head?_eq_getElem?]
  · rw [Storage.length_removeFront, ← hlength]
  · rw [Storage.length_removeFront]
    exact Nat.le_trans (Nat.sub_le _ _) hroom
  · rw [hlength]
    exact Storage.hold_removeFront h.data

/-- What is left once the elements after an index have moved down. -/
theorem holds_moved (h : s.Holds xs) (hindex : index < xs.length) :
    Storage.Holds { s with
      length := s.length - 1
      data := Cells.moved s.data s.data index (index + 1) (s.length - 1 - index) }
      (ListOrdered.remove xs index) := by
  have hlength := h.length
  have hroom := h.room
  have hcount : s.length - 1 - index = xs.length - (index + 1) := by omega
  have hremoved : (ListOrdered.remove xs index).length = xs.length - 1 := by
    rw [remove_eq_eraseIdx, List.length_eraseIdx_of_lt hindex]
  refine ⟨?_, ?_, h.word, ?_⟩
  · rw [hremoved, ← hlength]
  · rw [hremoved]
    exact Nat.le_trans (Nat.sub_le _ _) hroom
  · rw [hcount]
    exact h.data.closed (Nat.le_succ index)

/-- **`remove`** moves them down. -/
theorem remove_holds (h : s.Holds xs) (hindex : index < xs.length) :
    ∃ s', remove s index = some s' ∧ s'.Holds (ListOrdered.remove xs index) := by
  have hlength := h.length
  have hroom := h.room
  rw [remove, if_pos (by omega)]
  dsimp only
  split
  · rw [Storage.memmove_eq _ (by omega), Option.map_some]
    exact ⟨_, rfl, holds_moved h hindex⟩
  · -- the last one, with none to move down
    have hmoved := holds_moved h hindex
    rw [show s.length - 1 - index = 0 by omega, Cells.moved_zero] at hmoved
    exact ⟨_, rfl, hmoved⟩

/-- **`pop` returns any element**, and goes by `pop_front` for the first. -/
theorem pop_holds (h : s.Holds xs) (hindex : index < xs.length) :
    ∃ s', pop s index = some (xs[index]?, s') ∧ s'.Holds (ListOrdered.pop xs index) := by
  have hlength := h.length
  have hroom := h.room
  rw [pop, if_pos (by omega), ListOrdered.pop, ← hlength]
  split
  · rename_i hfront
    rw [hfront, ← List.head?_eq_getElem?]
    exact popFront_holds h (by omega)
  · split
    · rename_i hlast
      rw [hlast, hlength, ← List.getLast?_eq_getElem?]
      exact popBack_holds h (by omega)
    · rw [Storage.memmove_eq _ (by omega), Option.map_some, h.data index hindex]
      exact ⟨_, rfl, holds_moved h hindex⟩

/-! ## Copies -/

/-- **A copy holds the same list.** -/
theorem copied_holds (h : s.Holds xs) : ∃ s', copied s = some s' ∧ s'.Holds xs := by
  have hlength := h.length
  have hroom := h.room
  have hword := h.word
  rw [copied]
  split
  · rw [Storage.memcpy_eq _ _ (Or.inr ⟨by omega, by omega⟩), Option.map_some]
    exact ⟨_, rfl, hlength, by simp only; omega, by simp only; omega, h.data.front (by omega)⟩
  · have hnil : xs = [] := List.length_eq_zero_iff.1 (by omega)
    subst hnil
    exact ⟨_, rfl, hlength, Nat.zero_le _, by simp only; omega, Cells.hold_nil _⟩

end Buffer

end ListOrdered

end Uberos
