import Uberos.Library.Cells
import Uberos.PodArray
import Mathlib.Algebra.Group.Nat.Defs
/-!
# `PodArray` over its buffer

The members of `common/PodArray.hpp` on the fields of an `Array`: a
buffer of `allocated` cells, of which the first `length` are the
contents. A function returns nothing where the source reads or writes
beyond the buffer. Sizes are of 32 bits. A new buffer's cells hold
nothing, and there is always room for a new buffer.
-/

namespace Uberos

namespace PodArray

open Library

/-- The fields of an array. -/
structure Storage (α : Type*) where
  length : ℕ
  allocated : ℕ
  data : Cells α

namespace Storage

variable {α : Type*}

/-- `PodArray(reserveSize)`. -/
def new (reserveSize : ℕ) : Storage α := ⟨0, reserveSize, fun _ => none⟩

/-- `memmove` within a buffer of so many cells. -/
def memmove (allocated : ℕ) (data : Cells α) (dest src count : ℕ) : Option (Cells α) :=
  if count = 0 ∨ dest + count ≤ allocated ∧ src + count ≤ allocated then
    some (if dest ≥ src then data.moveBackwards dest src count
      else data.moveForwards dest src count)
  else none

/-- `memcpy` and `memmove` from one buffer to another. -/
def memcpy (newAllocated : ℕ) (newData : Cells α) (dest allocated : ℕ) (data : Cells α)
    (src count : ℕ) : Option (Cells α) :=
  if count = 0 ∨ dest + count ≤ newAllocated ∧ src + count ≤ allocated then
    some (Cells.copyForwards data newData dest src count)
  else none

/-- `data[index] = value`. -/
def write (s : Storage α) (index : ℕ) (value : α) : Option (Storage α) :=
  if index < s.allocated then
    some { s with data := Function.update s.data index (some value) }
  else none

/-- `resize`. -/
def resize (s : Storage α) (newSize : ℕ) : Option (Storage α) :=
  let newSize := max (max s.length 1) newSize
  if newSize = s.allocated then some s
  else
    let length := min s.length newSize
    (memcpy newSize (fun _ => none) 0 s.allocated s.data 0 length).map fun newData =>
      { length := length, allocated := newSize, data := newData }

/-- What `push_back` does first: with room for less than two more it
resizes. -/
def grow (s : Storage α) : Option (Storage α) :=
  if (s.length + 1) % 2 ^ 32 ≥ s.allocated then
    s.resize ((s.length + 1 + s.length / 2) % 2 ^ 32)
  else some s

/-- `push_back`. -/
def pushBack (s : Storage α) (value : α) : Option (Storage α) := do
  let s ← s.grow
  let s' ← s.write s.length value
  return { s' with length := (s.length + 1) % 2 ^ 32 }

/-- What `insert` does first: it moves the elements from the index on one
up, to a new buffer where there is room for less than two more. -/
def makeRoom (s : Storage α) (index : ℕ) : Option (Storage α) :=
  let count := (s.length + 2 ^ 32 - index) % 2 ^ 32
  if (s.length + 1) % 2 ^ 32 ≥ s.allocated then
    let newAllocated := (s.allocated + s.allocated / 2 + 1) % 2 ^ 32
    (memcpy newAllocated (fun _ => none) 0 s.allocated s.data 0 index).bind fun newData =>
      (memcpy newAllocated newData ((index + 1) % 2 ^ 32) s.allocated s.data index count).map
        fun newData => { s with allocated := newAllocated, data := newData }
  else
    (memmove s.allocated s.data ((index + 1) % 2 ^ 32) index count).map fun data =>
      { s with data := data }

/-- `insert`. -/
def insert (s : Storage α) (index : ℕ) (value : α) : Option (Storage α) := do
  let s ← s.makeRoom index
  { s with length := (s.length + 1) % 2 ^ 32 }.write index value

/-- `remove_front`. -/
def removeFront (s : Storage α) : Option (Storage α) :=
  if s.length < 1 then some s
  else
    let length := s.length - 1
    (memmove s.allocated s.data 1 0 length).map fun data =>
      { s with length := length, data := data }

/-- `remove_back`. -/
def removeBack (s : Storage α) : Storage α :=
  { s with length := (s.length + 2 ^ 32 - 1) % 2 ^ 32 }

/-- `remove`. -/
def remove (s : Storage α) (index : ℕ) : Option (Storage α) :=
  if index ≥ s.length then some s
  else if index = 0 then s.removeFront
  else if index = s.length - 1 then some s.removeBack
  else
    let length := s.length - 1
    (memmove s.allocated s.data index (index + 1) (length - index)).map fun data =>
      { s with length := length, data := data }

/-- `pop_front`, and the value it returns: none is the null pointer. -/
def popFront (s : Storage α) : Option (Option α × Storage α) :=
  if s.length < 1 then some (none, s)
  else if 0 < s.allocated then
    let length := s.length - 1
    (memmove s.allocated s.data 1 0 length).map fun data =>
      (s.data 0, { s with length := length, data := data })
  else none

/-- `pop_back`, and the value it returns. -/
def popBack (s : Storage α) : Option (Option α × Storage α) :=
  let length := (s.length + 2 ^ 32 - 1) % 2 ^ 32
  if length < s.allocated then some (s.data length, { s with length := length }) else none

/-- `clear`. -/
def clear (s : Storage α) : Storage α := { s with length := 0 }

/-- `shift_left`. -/
def shiftLeft (s : Storage α) (count : ℕ) : Option (Storage α) :=
  if count ≥ s.length then some s.clear
  else
    let newLength := s.length - count
    (memmove s.allocated s.data 0 count newLength).map fun data =>
      { s with length := newLength, data := data }

/-! ## What a buffer holds -/

/-- **A buffer holds a list**: the list is as long as the array, fits the
buffer, and is what its first cells hold. -/
structure Holds (s : Storage α) (xs : List α) : Prop where
  length : s.length = xs.length
  room : xs.length ≤ s.allocated
  word : s.allocated < 2 ^ 32
  data : s.data.Hold xs

variable {s s' : Storage α} {xs ys : List α} {value : α} {index count : ℕ}

theorem holds_new {reserveSize : ℕ} (hreserve : reserveSize < 2 ^ 32) :
    Holds (new reserveSize : Storage α) [] :=
  ⟨rfl, Nat.zero_le _, hreserve, Cells.hold_nil _⟩

/-- A move inside the buffer is done, and as if all at once. -/
theorem memmove_eq {allocated dest src : ℕ} (data : Cells α)
    (h : count = 0 ∨ dest + count ≤ allocated ∧ src + count ≤ allocated) :
    memmove allocated data dest src count = some (Cells.moved data data dest src count) := by
  rw [memmove, if_pos h]
  split
  · rename_i hle
    rw [Cells.moveBackwards_eq data hle]
  · rename_i hlt
    rw [Cells.moveForwards_eq data (by omega)]

theorem memcpy_eq {newAllocated dest allocated src : ℕ} (newData data : Cells α)
    (h : count = 0 ∨ dest + count ≤ newAllocated ∧ src + count ≤ allocated) :
    memcpy newAllocated newData dest allocated data src count =
      some (Cells.moved data newData dest src count) := by
  rw [memcpy, if_pos h, Cells.copyForwards_eq]

/-- A range that ends beyond the new buffer is not copied to it. -/
theorem memcpy_none {newAllocated dest allocated src : ℕ} (newData data : Cells α)
    (hcount : 0 < count) (hbeyond : newAllocated < dest + count) :
    memcpy newAllocated newData dest allocated data src count = none := by
  rw [memcpy, if_neg (by omega)]

/-- An element written after the others. -/
theorem Holds.write (h : Holds s xs) (hroom : xs.length < s.allocated) (value : α) :
    ∃ s', s.write s.length value = some s' ∧ s'.allocated = s.allocated ∧
      s'.data.Hold (xs ++ [value]) := by
  refine ⟨{ s with data := Function.update s.data s.length (some value) }, ?_, rfl, ?_⟩
  · rw [Storage.write, if_pos (by rw [h.length]; exact hroom)]
  · rw [h.length]
    exact h.data.concat value

/-! ## Growth -/

/-- The sizes `push_back` grows a buffer to fit 32 bits. -/
def Grows (s : Storage α) : Prop := s.length + 1 < s.allocated ∨ s.length + 1 + s.length / 2 < 2 ^ 32

/-- And those of `insert`. -/
def GrowsToInsert (s : Storage α) : Prop :=
  s.length + 1 < s.allocated ∨ s.allocated + s.allocated / 2 + 1 < 2 ^ 32

instance (s : Storage α) : Decidable s.Grows := inferInstanceAs (Decidable (_ ∨ _))

instance (s : Storage α) : Decidable s.GrowsToInsert := inferInstanceAs (Decidable (_ ∨ _))

/-- **A buffer that is resized holds what it held.** -/
theorem Holds.resize (h : Holds s xs) {newSize : ℕ} (hsize : newSize < 2 ^ 32) :
    ∃ s', s.resize newSize = some s' ∧ Holds s' xs ∧ s'.allocated = max (max s.length 1) newSize := by
  have hlength := h.length
  have hroom := h.room
  have hword := h.word
  rw [Storage.resize]
  split
  · rename_i hsame
    exact ⟨s, rfl, h, hsame.symm⟩
  · dsimp only
    rw [memcpy_eq _ _ (Or.inr ⟨by omega, by omega⟩)]
    refine ⟨_, rfl, ⟨?_, ?_, ?_, ?_⟩, rfl⟩
    · show min s.length (max (max s.length 1) newSize) = xs.length
      omega
    · show xs.length ≤ max (max s.length 1) newSize
      omega
    · show max (max s.length 1) newSize < 2 ^ 32
      omega
    · exact h.data.front (by omega)

/-- The buffer after a growth, or without, has a cell for one more. -/
theorem Holds.grow (h : Holds s xs) (hgrows : s.Grows) :
    ∃ s', s.grow = some s' ∧ Holds s' xs ∧ xs.length < s'.allocated := by
  have hlength := h.length
  have hroom := h.room
  have hword := h.word
  rw [Grows] at hgrows
  rw [Storage.grow]
  split
  · obtain ⟨s', hresize, hs', hallocated⟩ :=
      h.resize (Nat.mod_lt (s.length + 1 + s.length / 2) (by decide : 0 < 2 ^ 32))
    refine ⟨s', hresize, hs', ?_⟩
    rw [hallocated]
    omega
  · exact ⟨s, rfl, h, by omega⟩

/-- **`push_back` appends**, where the size it grows to fits. -/
theorem Holds.pushBack (h : Holds s xs) (hgrows : s.Grows) (value : α) :
    ∃ s', s.pushBack value = some s' ∧ Holds s' (PodArray.pushBack xs value) := by
  obtain ⟨s₁, hs₁, hholds, hcell⟩ := h.grow hgrows
  obtain ⟨s₂, hwrite, hallocated, hdata⟩ := hholds.write hcell value
  have hword := hholds.word
  refine ⟨{ s₂ with length := (s₁.length + 1) % 2 ^ 32 }, ?_, ?_, ?_, ?_, hdata⟩
  · simp only [Storage.pushBack, hs₁, hwrite, Option.bind_eq_bind, Option.bind_some,
      Option.pure_def]
  · rw [hholds.length, PodArray.pushBack, List.length_append, List.length_singleton]
    exact Nat.mod_eq_of_lt (by omega)
  · show (xs ++ [value]).length ≤ s₂.allocated
    rw [List.length_append, List.length_singleton, hallocated]
    exact hcell
  · show s₂.allocated < 2 ^ 32
    rw [hallocated]
    exact hword

/-- A size that wraps is less than what there is, and the buffer is full. -/
theorem Holds.grow_full (h : Holds s xs) (hgrows : ¬ s.Grows) :
    ∃ s', s.grow = some s' ∧ Holds s' xs ∧ s'.allocated ≤ xs.length := by
  have hlength := h.length
  have hroom := h.room
  have hword := h.word
  rw [Grows, not_or] at hgrows
  rw [Storage.grow]
  split
  · obtain ⟨s', hresize, hs', hallocated⟩ :=
      h.resize (Nat.mod_lt (s.length + 1 + s.length / 2) (by decide : 0 < 2 ^ 32))
    have hwrapped : (s.length + 1 + s.length / 2) % 2 ^ 32 < s.length := by
      have hmod := Nat.mod_eq_sub_mod (a := s.length + 1 + s.length / 2) (b := 2 ^ 32) (by omega)
      rw [hmod, Nat.mod_eq_of_lt (by omega)]
      omega
    refine ⟨s', hresize, hs', ?_⟩
    rw [hallocated]
    omega
  · exact ⟨s, rfl, h, by omega⟩

/-- **Where it does not fit, the value goes beyond the buffer.** -/
theorem Holds.pushBack_none (h : Holds s xs) (hgrows : ¬ s.Grows) (value : α) :
    s.pushBack value = none := by
  obtain ⟨s', hs', hholds, hfull⟩ := h.grow_full hgrows
  have hwrite : s'.write s'.length value = none := by
    rw [Storage.write, if_neg]
    rw [hholds.length]
    exact Nat.not_lt.2 hfull
  simp only [Storage.pushBack, hs', hwrite, Option.bind_eq_bind, Option.bind_some,
    Option.bind_none]

/-- What is held once the elements from the index on stand one further. -/
theorem hold_insert {cells : Cells α} (hindex : index ≤ xs.length)
    (hbefore : ∀ i < index, cells i = xs[i]?)
    (hafter : ∀ i, index < i → i ≤ xs.length → cells i = xs[i - 1]?) (value : α) :
    Cells.Hold (Function.update cells index (some value)) (PodArray.insert xs index value) := by
  intro i hi
  have hlength : (xs.take index).length = index := by rw [List.length_take]; omega
  simp only [PodArray.insert, List.length_append, List.length_cons, List.length_drop,
    hlength] at hi
  rw [PodArray.insert, Function.update_apply]
  rcases Nat.lt_trichotomy i index with hlt | heq | hgt
  · rw [if_neg (by omega), hbefore i hlt, List.getElem?_append_left (by omega),
      List.getElem?_take_of_lt hlt]
  · rw [if_pos heq, List.getElem?_append_right (by omega), hlength, heq, Nat.sub_self]
    rfl
  · rw [if_neg (by omega), hafter i hgt (by omega), List.getElem?_append_right (by omega), hlength]
    obtain ⟨k, rfl⟩ : ∃ k, i = index + (k + 1) := ⟨i - index - 1, by omega⟩
    rw [Nat.add_sub_cancel_left, List.getElem?_cons_succ, List.getElem?_drop]
    congr 1

/-- The elements stand apart for the one to be inserted. -/
theorem Holds.makeRoom (h : Holds s xs) (hgrows : s.GrowsToInsert) (hindex : index ≤ xs.length) :
    ∃ s', s.makeRoom index = some s' ∧ s'.length = xs.length ∧ xs.length < s'.allocated ∧
      s'.allocated < 2 ^ 32 ∧ (∀ i < index, s'.data i = xs[i]?) ∧
      ∀ i, index < i → i ≤ xs.length → s'.data i = xs[i - 1]? := by
  have hlength := h.length
  have hroom := h.room
  have hword := h.word
  rw [GrowsToInsert] at hgrows
  have hcount : (s.length + 2 ^ 32 - index) % 2 ^ 32 = s.length - index := by omega
  have hnext : (index + 1) % 2 ^ 32 = index + 1 := Nat.mod_eq_of_lt (by omega)
  simp only [Storage.makeRoom, hcount, hnext]
  split
  · -- what stands before the index is copied, then what comes from it on
    have hsize : (s.allocated + s.allocated / 2 + 1) % 2 ^ 32 = s.allocated + s.allocated / 2 + 1 :=
      Nat.mod_eq_of_lt (by omega)
    rw [hsize, memcpy_eq _ _ (Or.inr ⟨by omega, by omega⟩), Option.bind_some,
      memcpy_eq _ _ (Or.inr ⟨by omega, by omega⟩), Option.map_some]
    have hbefore : ∀ k < index, Cells.moved s.data (fun _ => none) 0 0 index k = s.data k :=
      fun k hk => Cells.moved_at (Nat.zero_le k) (by omega) rfl
    obtain ⟨hkept, hmoved⟩ := h.data.parted hbefore hindex
    rw [← hlength] at hkept hmoved
    exact ⟨_, rfl, hlength, by simp only; omega, by simp only; omega, hkept,
      fun i hi hi' => hmoved i hi (hlength ▸ hi')⟩
  · rw [memmove_eq _ (Or.inr ⟨by omega, by omega⟩), Option.map_some]
    obtain ⟨hkept, hmoved⟩ := h.data.parted (fun _ _ => rfl) hindex
    rw [← hlength] at hkept hmoved
    exact ⟨_, rfl, hlength, by simp only; omega, hword, hkept,
      fun i hi hi' => hmoved i hi (hlength ▸ hi')⟩

/-- **`insert` inserts**, where the size it grows to fits. -/
theorem Holds.insert (h : Holds s xs) (hgrows : s.GrowsToInsert) (hindex : index ≤ xs.length)
    (value : α) :
    ∃ s', s.insert index value = some s' ∧ Holds s' (PodArray.insert xs index value) := by
  obtain ⟨s₁, hs₁, hlength, hroom, hword, hbefore, hafter⟩ := h.makeRoom hgrows hindex
  have hinserted : (PodArray.insert xs index value).length = xs.length + 1 := by
    simp only [PodArray.insert, List.length_append, List.length_take, List.length_cons,
      List.length_drop]
    omega
  refine ⟨{ s₁ with
      length := (s₁.length + 1) % 2 ^ 32
      data := Function.update s₁.data index (some value) }, ?_,
    ⟨?_, ?_, hword, hold_insert hindex hbefore hafter value⟩⟩
  · simp only [Storage.insert, hs₁, Option.bind_eq_bind, Option.bind_some, Storage.write]
    rw [if_pos (by omega)]
  · rw [hinserted, ← hlength]
    exact Nat.mod_eq_of_lt (by omega)
  · rw [hinserted]
    exact hroom

/-- **Where it does not fit, the elements go beyond the buffer.** -/
theorem Holds.insert_none (h : Holds s xs) (hgrows : ¬ s.GrowsToInsert)
    (hindex : index ≤ xs.length) (value : α) : s.insert index value = none := by
  have hlength := h.length
  have hroom := h.room
  have hword := h.word
  rw [GrowsToInsert, not_or] at hgrows
  have hcount : (s.length + 2 ^ 32 - index) % 2 ^ 32 = s.length - index := by omega
  simp only [Storage.insert, Storage.makeRoom, hcount]
  split
  · -- the new buffer is smaller than what there is before the index, or from it on
    have hwrapped : (s.allocated + s.allocated / 2 + 1) % 2 ^ 32 < s.length := by
      have hmod := Nat.mod_eq_sub_mod (a := s.allocated + s.allocated / 2 + 1) (b := 2 ^ 32)
        (by omega)
      rw [hmod, Nat.mod_eq_of_lt (by omega)]
      omega
    generalize (s.allocated + s.allocated / 2 + 1) % 2 ^ 32 = newAllocated at hwrapped
    by_cases hlast : index = s.length
    · rw [memcpy_none _ _ (by omega) (by omega)]
      rfl
    · rw [Nat.mod_eq_of_lt (by omega : index + 1 < 2 ^ 32)]
      rcases memcpy newAllocated (fun _ => none) 0 s.allocated s.data 0 index with - | data
      · rfl
      · rw [Option.bind_some, memcpy_none _ _ (by omega) (by omega)]
        rfl
  · -- the last cell there can be is taken
    by_cases hlast : index = s.length
    · rcases memmove s.allocated s.data ((index + 1) % 2 ^ 32) index (s.length - index) with - | data
      · rfl
      · simp only [Option.map_some, Option.bind_eq_bind, Option.bind_some, Storage.write]
        rw [if_neg (by omega)]
    · rw [Nat.mod_eq_of_lt (by omega : index + 1 < 2 ^ 32), memmove, if_neg (by omega)]
      rfl

/-! ## Removals

Each leaves the elements `PodArray` of the same name leaves, and moves
them inside the buffer. -/

/-- The elements moved up by one, over the last. -/
theorem hold_removeFront {cells : Cells α} (h : cells.Hold xs) :
    Cells.Hold (Cells.moved cells cells 1 0 (xs.length - 1)) (PodArray.removeFront xs) := by
  rcases xs with - | ⟨x, xs⟩
  · exact Cells.hold_nil _
  · intro i hi
    rw [PodArray.removeFront, List.length_take, List.length_cons, List.length_cons] at hi
    rw [PodArray.removeFront, List.getElem?_take_of_lt (by omega), List.length_cons,
      Nat.add_sub_cancel]
    rcases i with - | i
    · rw [Cells.moved_of_lt Nat.zero_lt_one, h 0 (by simp)]
      rfl
    · rw [Cells.moved_at (j := i) (by omega) (by omega) (by omega),
        h _ (by rw [List.length_cons]; omega), List.getElem?_cons_succ]

theorem length_removeFront (xs : List α) : (PodArray.removeFront xs).length = xs.length - 1 := by
  rcases xs with - | ⟨x, xs⟩
  · rfl
  · rw [PodArray.removeFront, List.length_take, List.length_cons, List.length_cons]
    omega

/-- **`remove_front`** moves the wrong way, as its model does. -/
theorem Holds.removeFront (h : Holds s xs) :
    ∃ s', s.removeFront = some s' ∧ Holds s' (PodArray.removeFront xs) := by
  have hlength := h.length
  have hroom := h.room
  rw [Storage.removeFront]
  split
  · rename_i hempty
    have hnil : xs = [] := List.length_eq_zero_iff.1 (by omega)
    subst hnil
    exact ⟨s, rfl, h⟩
  · dsimp only
    rw [memmove_eq _ (by omega)]
    refine ⟨_, rfl, ?_, ?_, h.word, ?_⟩
    · rw [length_removeFront, ← hlength]
    · rw [length_removeFront]
      exact Nat.le_trans (Nat.sub_le _ _) hroom
    · rw [hlength]
      exact hold_removeFront h.data

/-- **`pop_front`** too, having read the front. -/
theorem Holds.popFront (h : Holds s xs) :
    ∃ s', s.popFront = some (xs.head?, s') ∧ Holds s' (PodArray.removeFront xs) := by
  obtain ⟨s', hremove, hs'⟩ := h.removeFront
  have hlength := h.length
  have hroom := h.room
  refine ⟨s', ?_, hs'⟩
  rw [Storage.removeFront] at hremove
  rw [Storage.popFront]
  split
  · rename_i hempty
    rw [if_pos hempty] at hremove
    have hnil : xs = [] := List.length_eq_zero_iff.1 (by omega)
    rw [← Option.some.inj hremove, hnil]
    rfl
  · rename_i hpos
    rw [if_neg hpos] at hremove
    rw [if_pos (by omega)]
    obtain ⟨data, hmove, rfl⟩ := Option.map_eq_some_iff.1 hremove
    simp only [hmove, Option.map_some, h.data 0 (by omega), List.head?_eq_getElem?]

theorem Holds.removeBack (h : Holds s xs) (hne : xs ≠ []) :
    Holds s.removeBack (PodArray.removeBack xs) := by
  have hpos : 0 < xs.length := List.length_pos_iff.2 hne
  have hroom := h.room
  have hword := h.word
  rw [Storage.removeBack]
  refine ⟨?_, ?_, hword, ?_⟩
  · rw [h.length, PodArray.removeBack, List.length_dropLast]
    dsimp only
    omega
  · rw [PodArray.removeBack, List.length_dropLast]
    exact Nat.le_trans (Nat.sub_le _ _) hroom
  · rw [PodArray.removeBack, List.dropLast_eq_take]
    exact h.data.take _

/-- **`pop_back`** returns the last element and leaves the others. -/
theorem Holds.popBack (h : Holds s xs) (hne : xs ≠ []) :
    ∃ s', s.popBack = some (xs.getLast?, s') ∧ Holds s' (PodArray.removeBack xs) := by
  have hpos : 0 < xs.length := List.length_pos_iff.2 hne
  have hroom := h.room
  have hword := h.word
  have hlength := h.length
  have hlast : (s.length + 2 ^ 32 - 1) % 2 ^ 32 = xs.length - 1 := by omega
  refine ⟨s.removeBack, ?_, h.removeBack hne⟩
  simp only [Storage.popBack, hlast]
  rw [if_pos (by omega), h.data _ (by omega), List.getLast?_eq_getElem?]
  simp only [Storage.removeBack, hlast]

/-- **`remove`** removes an element, where it is not the first. -/
theorem Holds.remove (h : Holds s xs) (index : ℕ) :
    ∃ s', s.remove index = some s' ∧ Holds s' (PodArray.remove xs index) := by
  have hroom := h.room
  rw [Storage.remove, PodArray.remove, ← h.length]
  split
  · exact ⟨s, rfl, h⟩
  · split
    · exact h.removeFront
    · split
      · refine ⟨s.removeBack, rfl, h.removeBack ?_⟩
        rintro rfl
        have hempty : s.length = 0 := h.length
        omega
      · have hlength := h.length
        have hcount : s.length - 1 - index = xs.length - (index + 1) := by omega
        simp only [hcount]
        rw [memmove_eq _ (by omega)]
        refine ⟨_, rfl, ?_, ?_, h.word, h.data.closed (by omega)⟩
        · simp only [List.length_append, List.length_take, List.length_drop]
          omega
        · simp only [List.length_append, List.length_take, List.length_drop]
          omega

/-- **`shift_left`** removes elements from the front. -/
theorem Holds.shiftLeft (h : Holds s xs) (count : ℕ) :
    ∃ s', s.shiftLeft count = some s' ∧ Holds s' (PodArray.shiftLeft xs count) := by
  have hroom := h.room
  rw [Storage.shiftLeft, PodArray.shiftLeft, ← h.length]
  split
  · exact ⟨s.clear, rfl, rfl, Nat.zero_le _, h.word, Cells.hold_nil _⟩
  · have hlength := h.length
    simp only [hlength]
    rw [memmove_eq _ (by omega)]
    refine ⟨_, rfl, ?_, ?_, h.word, ?_⟩
    · rw [List.length_drop]
    · rw [List.length_drop]
      exact Nat.le_trans (Nat.sub_le _ _) hroom
    · have hmoved := h.data.closed (Nat.zero_le count)
      rwa [List.take_zero, List.nil_append] at hmoved

end Storage

end PodArray

end Uberos
