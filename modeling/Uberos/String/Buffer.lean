import Uberos.String
import Uberos.PodArray.Storage
/-!
# `String8` over its buffers

The fields of `common/String.hpp` and its appends. A string of up to 15
characters stands in `localData`, a longer one where `data` points, and
which it is goes by the length. `localData` shares its memory with `data`
and `allocated`. A function returns nothing where the source reads or
writes beyond a buffer. There is always room for a new buffer, whose
cells hold nothing.
-/

namespace Uberos

namespace String8

open Library PodArray

/-- The fields of a string. -/
structure Fields where
  length : ℕ
  /-- The 16 characters, over the pointer and `allocated`. -/
  localData : Cells Char
  /-- The characters of a buffer, not including the null. -/
  allocated : ℕ
  /-- The cells where the pointer points. -/
  data : Cells Char

namespace Fields

variable (T : Target)

/-- `String()`. -/
def new : Fields := ⟨0, Function.update (fun _ => none) 0 (some '\x00'), 0, fun _ => none⟩

/-- `is_local_string()`. -/
def IsLocal (s : Fields) : Prop := (s.length + 1) % 2 ^ 32 ≤ localBufferSize

instance (s : Fields) : Decidable s.IsLocal := inferInstanceAs (Decidable (_ ≤ _))

/-- The pointer and `allocated` as they stand in memory. -/
def overlaid (pointer allocated : ℕ) : List Char := bytes pointer T.wordBytes ++ bytes allocated 4

/-- What `localData` reads once they are set. -/
def overlay (pointer allocated : ℕ) (localData : Cells Char) : Cells Char := fun i =>
  if i < T.wordBytes + 4 then (overlaid T pointer allocated)[i]? else localData i

/-- `localData` or `data`, -/
def cells (s : Fields) (isLocal : Bool) : Cells Char := if isLocal then s.localData else s.data

/-- how many there are, -/
def size (s : Fields) (isLocal : Bool) : ℕ := if isLocal then localBufferSize else s.allocated + 1

/-- and with others in their place. -/
def withCells (s : Fields) (isLocal : Bool) (cells : Cells Char) : Fields :=
  if isLocal then { s with localData := cells } else { s with data := cells }

/-- `get_data()[i]`. -/
def getData (s : Fields) (i : ℕ) : Option Char :=
  if i < s.size (decide s.IsLocal) then s.cells (decide s.IsLocal) i else none

/-- `resize`, with the address of the buffer it is given. -/
def resize (pointer : ℕ) (s : Fields) (newSize : ℕ) : Option Fields :=
  -- back to `localData`
  if (newSize + 1) % 2 ^ 32 ≤ localBufferSize then
    if s.IsLocal then some s
    else
      (Storage.memcpy localBufferSize s.localData 0 (s.allocated + 1) s.data 0 s.length).bind
        fun localData =>
          if s.length < localBufferSize then
            some { s with localData := Function.update localData s.length (some '\x00') }
          else none
  else if s.IsLocal then
    -- `data` and `allocated` are set before `localData` is copied
    let localData := overlay T pointer newSize s.localData
    (Storage.memcpy (newSize + 1) (fun _ => none) 0 localBufferSize localData 0 s.length).bind
      fun data =>
        if s.length < newSize + 1 then
          some ⟨s.length, localData, newSize, Function.update data s.length (some '\x00')⟩
        else none
  else if newSize = s.allocated then some s
  else
    let localData := overlay T pointer newSize s.localData
    (Storage.memcpy (newSize + 1) (fun _ => none) 0 (s.allocated + 1) s.data 0
      (min s.length newSize)).bind fun data =>
        if s.length < newSize + 1 then
          some ⟨s.length, localData, newSize, Function.update data s.length (some '\x00')⟩
        else none

/-- What the appends do first, for so many characters more: their test of
the capacity asks for `slack` more, and wraps at `width`. It comes with
whether they then write to `localData`. -/
def makeRoom (pointer : ℕ) (s : Fields) (count slack width : ℕ) : Option (Fields × Bool) :=
  if s.IsLocal then
    if (s.length + count + 1) % width > localBufferSize then
      (resize T pointer s ((s.length + count) % 2 ^ 32)).map fun s => (s, false)
    else some (s, true)
  else if (s.length + count + slack) % width > s.allocated then
    (resize T pointer s ((s.length + count) % 2 ^ 32)).map fun s => (s, false)
  else some (s, false)

/-- `append(c)`. -/
def appendChar (pointer : ℕ) (s : Fields) (c : Char) : Option Fields :=
  (makeRoom T pointer s 1 0 (2 ^ 32)).bind fun (s, isLocal) =>
    if s.length < s.size isLocal ∧ (s.length + 1) % 2 ^ 32 < s.size isLocal then
      let cells := Function.update (s.cells isLocal) s.length (some c)
      let length := (s.length + 1) % 2 ^ 32
      some { s.withCells isLocal (Function.update cells length (some '\x00')) with
        length := length }
    else none

/-- The end of an append: so many characters and a null of another buffer
are copied behind the string. -/
def copyBehind (s : Fields) (isLocal : Bool) (size : ℕ) (source : Cells Char) (count width : ℕ) :
    Option Fields :=
  if s.length ≤ s.size isLocal then
    (Storage.memcpy (s.size isLocal) (s.cells isLocal) s.length size source 0
      ((count + 1) % width)).map fun cells =>
        { s.withCells isLocal cells with length := (s.length + count) % 2 ^ 32 }
  else none

/-- `append(source)` of a `const char*`. -/
def appendText (pointer : ℕ) (s : Fields) (source : List Char) : Option Fields :=
  let source := cString source
  if source.length < 1 then some s
  else
    (makeRoom T pointer s source.length 1 T.wordSize).bind fun (s, isLocal) =>
      copyBehind s isLocal (source.length + 1) (fun i => (source ++ ['\x00'])[i]?) source.length
        T.wordSize

/-- `append(source)` of another string. -/
def appendString (pointer : ℕ) (s source : Fields) : Option Fields :=
  if source.length < 1 then some s
  else
    (makeRoom T pointer s source.length 1 (2 ^ 32)).bind fun (s, isLocal) =>
      copyBehind s isLocal (source.size (decide source.IsLocal))
        (source.cells (decide source.IsLocal)) source.length (2 ^ 32)

/-- `append(source)` of the string itself: `get_data()` is what it is once
there is room, and `memcpy` runs into its own copy where it is the same
buffer. -/
def appendSelf (pointer : ℕ) (s : Fields) : Option Fields :=
  if s.length < 1 then some s
  else
    (makeRoom T pointer s s.length 1 (2 ^ 32)).bind fun (s, isLocal) =>
      let count := (s.length + 1) % 2 ^ 32
      let length := (s.length + s.length) % 2 ^ 32
      -- what is read goes by the length, what is written by where room was made
      if decide s.IsLocal = isLocal then
        if s.length + count ≤ s.size isLocal then
          some { s.withCells isLocal ((s.cells isLocal).moveForwards s.length 0 count) with
            length := length }
        else none
      else copyBehind s isLocal (s.size (decide s.IsLocal)) (s.cells (decide s.IsLocal)) s.length
        (2 ^ 32)

/-! ## What a buffer reads -/

/-- **The cells read a list**, of the string's characters and one more. -/
structure Reads (s : Fields) (isLocal : Bool) (zs : List Char) : Prop where
  length : s.length + 1 = zs.length
  room : zs.length ≤ s.size isLocal
  word : isLocal = false → s.allocated + 1 < 2 ^ 32
  data : (s.cells isLocal).Hold zs

/-- The string reads it. -/
def Holds (s : Fields) (zs : List Char) : Prop := s.Reads (decide s.IsLocal) zs

end Fields

/-- A string and its null. -/
def terminated (xs : List Char) : List Char := xs ++ ['\x00']

@[simp] theorem length_terminated (xs : List Char) : (terminated xs).length = xs.length + 1 := by
  rw [terminated, List.length_append, List.length_singleton]

theorem terminated_injective {xs ys : List Char} (h : terminated xs = terminated ys) : xs = ys :=
  List.append_cancel_right h

theorem getElem?_terminated {xs : List Char} {i : ℕ} (hi : i < xs.length) :
    (terminated xs)[i]? = xs[i]? := List.getElem?_append_left hi

theorem getElem?_terminated_length (xs : List Char) :
    (terminated xs)[xs.length]? = some '\x00' := List.getElem?_concat_length

/-- What room for so many more makes of a string. -/
def roomed (T : Target) (pointer count : ℕ) (xs : List Char) : List Char :=
  if IsLocal xs ∧ xs.length + count + 1 > localBufferSize then
    resizeLocal T pointer (xs.length + count) xs
  else xs

@[simp] theorem length_bytes (number count : ℕ) : (bytes number count).length = count := by
  induction count generalizing number with
  | zero => rfl
  | succ count ih => rw [bytes, List.length_cons, ih]

@[simp] theorem Fields.length_overlaid (T : Target) (pointer allocated : ℕ) :
    (overlaid T pointer allocated).length = T.wordBytes + 4 := by
  rw [overlaid, List.length_append, length_bytes, length_bytes]

variable {T : Target} {pointer count : ℕ} {xs ys zs : List Char}

/-- The pointer and the size stand over the first characters. -/
theorem getElem?_resizeLocal {newSize i : ℕ} (hi : i < xs.length) :
    (resizeLocal T pointer newSize xs)[i]? =
      if i < T.wordBytes + 4 then (Fields.overlaid T pointer newSize)[i]? else xs[i]? := by
  have hwritten := Fields.length_overlaid T pointer newSize
  rw [resizeLocal, ← Fields.overlaid, hwritten]
  split
  · rw [List.getElem?_append_left (by rw [List.length_take]; omega),
      List.getElem?_take_of_lt hi]
  · rw [List.getElem?_append_right (by rw [List.length_take]; omega), List.getElem?_drop,
      List.length_take]
    congr 1
    omega

@[simp] theorem length_resizeLocal (newSize : ℕ) :
    (resizeLocal T pointer newSize xs).length = xs.length := by
  have hwritten := Fields.length_overlaid T pointer newSize
  rw [resizeLocal, ← Fields.overlaid, List.length_append, List.length_take, List.length_drop]
  omega

@[simp] theorem length_roomed : (roomed T pointer count xs).length = xs.length := by
  rw [roomed]
  split
  · exact length_resizeLocal _
  · rfl

/-- `append(source)` is the source behind what room for it makes. -/
theorem append_eq_roomed {source : List Char} (hsource : ¬ (cString source).length < 1) :
    append T pointer xs source =
      roomed T pointer (cString source).length xs ++ cString source := by
  rw [append, roomed, if_neg hsource]
  split <;> rfl

namespace Fields

variable {s s' : Fields} {isLocal : Bool}

/-- Whether a string is local goes by what it reads. -/
theorem Holds.isLocal_iff (h : Holds s (terminated xs)) :
    s.IsLocal ↔ String8.IsLocal xs := by
  have hlength := h.length
  have hroom := h.room
  rw [length_terminated] at hlength hroom
  rw [Fields.IsLocal, String8.IsLocal]
  by_cases hlocal : s.IsLocal
  · rw [decide_eq_true hlocal] at hroom
    simp only [size, if_true] at hroom
    rw [Nat.mod_eq_of_lt (Nat.lt_of_le_of_lt (by omega) (by decide : localBufferSize < 2 ^ 32)),
      hlength]
  · have hword := h.word (decide_eq_false hlocal)
    rw [decide_eq_false hlocal] at hroom
    simp only [size, Bool.false_eq_true, if_false] at hroom
    rw [Nat.mod_eq_of_lt (by omega), hlength]

/-- The buffer of a `resize`: so many characters of another, and a null. -/
theorem reads_resized {source : Cells Char} (localData : Cells Char) (sourceSize : ℕ)
    {newSize : ℕ} (hlength : xs.length ≤ newSize) (hsource : xs.length ≤ sourceSize)
    (hword : newSize + 1 < 2 ^ 32) (hread : source.Hold xs) :
    ∃ data, Storage.memcpy (newSize + 1) (fun _ => none) 0 sourceSize source 0 xs.length =
        some data ∧
      Reads ⟨xs.length, localData, newSize, Function.update data xs.length (some '\x00')⟩ false
        (terminated xs) := by
  refine ⟨_, Storage.memcpy_eq _ _ (Or.inr ⟨by omega, by omega⟩), ?_, ?_, fun _ => hword,
    fun i hi => ?_⟩
  · rw [length_terminated]
  · rw [length_terminated]
    exact Nat.succ_le_succ hlength
  · rw [length_terminated] at hi
    simp only [cells, Bool.false_eq_true, if_false, Function.update_apply]
    split
    · rename_i hlast
      rw [hlast, getElem?_terminated_length]
    · rw [hread.front le_rfl i (by omega), getElem?_terminated (by omega)]

variable (T pointer) in
/-- What `localData` reads then. -/
theorem hold_overlay (newSize : ℕ) {localData : Cells Char} (hdata : localData.Hold (terminated xs)) :
    (overlay T pointer newSize localData).Hold (resizeLocal T pointer newSize xs) := by
  intro i hi
  rw [length_resizeLocal] at hi
  rw [overlay, getElem?_resizeLocal hi]
  split
  · rfl
  · rw [hdata i (by rw [length_terminated]; omega), getElem?_terminated hi]

variable (T pointer) in
/-- **A string that leaves its buffer** loses the characters the pointer
and the size stand over, -/
theorem Holds.resize_local (h : Holds s (terminated xs)) (hlocal : s.IsLocal) {newSize : ℕ}
    (hsize : xs.length ≤ newSize) (hnew : localBufferSize < newSize + 1)
    (hword : newSize + 1 < 2 ^ 32) :
    ∃ s', resize T pointer s newSize = some s' ∧ s'.allocated = newSize ∧
      s'.localData = overlay T pointer newSize s.localData ∧
      s'.Reads false (terminated (resizeLocal T pointer newSize xs)) := by
  have hlength : s.length = xs.length := by simpa using h.length
  have hroom := h.room
  have hdata := h.data
  simp only [decide_eq_true hlocal, size, cells, if_true, length_terminated] at hroom hdata
  have hread := hold_overlay T pointer newSize hdata
  obtain ⟨data, hcopy, hreads⟩ := reads_resized (overlay T pointer newSize s.localData)
    localBufferSize (by rwa [length_resizeLocal])
    (by rw [length_resizeLocal]; omega) hword hread
  rw [length_resizeLocal] at hcopy hreads
  refine ⟨_, ?_, rfl, rfl, hreads⟩
  rw [resize, Nat.mod_eq_of_lt hword, if_neg (Nat.not_le.2 hnew), if_pos hlocal, hlength]
  dsimp only
  rw [hcopy, Option.bind_some, if_pos (Nat.lt_succ_of_le hsize)]

variable (T pointer) in
/-- and one that has left it loses none. -/
theorem Holds.resize_heap (h : Holds s (terminated xs)) (hlocal : ¬ s.IsLocal) {newSize : ℕ}
    (hsize : xs.length ≤ newSize) (hword : newSize + 1 < 2 ^ 32) :
    ∃ s', resize T pointer s newSize = some s' ∧ s'.allocated = newSize ∧
      s'.Reads false (terminated xs) := by
  have hlength : s.length = xs.length := by simpa using h.length
  have hlong : ¬ String8.IsLocal xs := fun hcon => hlocal (h.isLocal_iff.2 hcon)
  have hreads : s.Reads false (terminated xs) := decide_eq_false hlocal ▸ h
  have hroom := hreads.room
  have hdata := hreads.data
  simp only [size, cells, Bool.false_eq_true, if_false, length_terminated] at hroom hdata
  rw [String8.IsLocal] at hlong
  rw [resize, Nat.mod_eq_of_lt hword, if_neg (by omega), if_neg hlocal]
  split
  · rename_i hsame
    exact ⟨s, rfl, hsame.symm, hreads⟩
  · have hread : s.data.Hold xs := hdata.of_append
    obtain ⟨data, hcopy, hreads'⟩ := reads_resized (overlay T pointer newSize s.localData)
      (s.allocated + 1) hsize (by omega) hword hread
    refine ⟨_, ?_, rfl, hreads'⟩
    dsimp only
    rw [hlength, Nat.min_eq_left hsize, hcopy, Option.bind_some,
      if_pos (Nat.lt_succ_of_le hsize)]

variable (T pointer) in
/-- **Room is made in the buffer that the longer string belongs in**, and
of what stood there only what the pointer and the size stand over is
lost. -/
theorem Holds.makeRoom (h : Holds s (terminated xs)) {slack width : ℕ} (hslack : slack ≤ 1)
    (hwidth : 2 ^ 32 ≤ width) (hfits : xs.length + count + 1 < 2 ^ 32) :
    ∃ s' isLocal, makeRoom T pointer s count slack width = some (s', isLocal) ∧
      s'.Reads isLocal (terminated (roomed T pointer count xs)) ∧
      xs.length + count < s'.size isLocal ∧
      isLocal = decide (xs.length + count + 1 ≤ localBufferSize) ∧
      (s.IsLocal → isLocal = false →
        s'.localData = overlay T pointer (xs.length + count) s.localData) := by
  have hlength : s.length = xs.length := by simpa using h.length
  have hroom := h.room
  rw [length_terminated] at hroom
  have hiff := h.isLocal_iff
  rw [Fields.makeRoom, roomed, hlength,
    Nat.mod_eq_of_lt (by omega : xs.length + count + 1 < width),
    Nat.mod_eq_of_lt (by omega : xs.length + count + slack < width),
    Nat.mod_eq_of_lt (by omega : xs.length + count < 2 ^ 32)]
  -- a local string may leave its buffer, and one that has left stays out
  by_cases hlocal : s.IsLocal
  · rw [if_pos hlocal]
    split
    · rename_i hlong
      obtain ⟨s', hresize, hallocated, hlocalData, hreads⟩ :=
        h.resize_local T pointer hlocal (Nat.le_add_right xs.length count) hlong hfits
      rw [if_pos ⟨hiff.1 hlocal, hlong⟩, hresize]
      refine ⟨s', false, rfl, hreads, ?_, (decide_eq_false (Nat.not_le.2 hlong)).symm,
        fun _ _ => hlocalData⟩
      simp [size, hallocated]
    · rename_i hshort
      have hreads : s.Reads true (terminated xs) := decide_eq_true hlocal ▸ h
      rw [if_neg fun hcon => hshort hcon.2]
      refine ⟨s, true, rfl, hreads, ?_, (decide_eq_true (Nat.not_lt.1 hshort)).symm,
        fun _ hcon => absurd hcon (by decide)⟩
      simp only [size, if_true]
      omega
  · have hlong : ¬ String8.IsLocal xs := fun hcon => hlocal (hiff.2 hcon)
    have hheap : ¬ (String8.IsLocal xs ∧ xs.length + count + 1 > localBufferSize) :=
      fun hcon => hlong hcon.1
    rw [if_neg hlocal, if_neg hheap]
    rw [String8.IsLocal] at hlong
    have hstays : false = decide (xs.length + count + 1 ≤ localBufferSize) :=
      (decide_eq_false (by omega)).symm
    have hreads : s.Reads false (terminated xs) := decide_eq_false hlocal ▸ h
    split
    · obtain ⟨s', hresize, hallocated, hreads⟩ :=
        h.resize_heap T pointer hlocal (Nat.le_add_right xs.length count) hfits
      rw [hresize]
      refine ⟨s', false, rfl, hreads, ?_, hstays, fun hcon => absurd hcon hlocal⟩
      simp [size, hallocated]
    · refine ⟨s, false, rfl, hreads, ?_, hstays, fun hcon => absurd hcon hlocal⟩
      simp only [size, Bool.false_eq_true, if_false]
      omega

/-! ## What an append leaves -/

@[simp] theorem size_withCells (cells : Cells Char) :
    (s.withCells isLocal cells).size isLocal = s.size isLocal := by
  cases isLocal <;> rfl

theorem size_lt (hword : isLocal = false → s.allocated + 1 < 2 ^ 32) :
    s.size isLocal < 2 ^ 32 := by
  cases isLocal with
  | true => exact (by decide : localBufferSize < 2 ^ 32)
  | false => exact hword rfl

/-- A string that reads anything has a length of 32 bits. -/
theorem Holds.length_lt (h : Holds s zs) : s.length < 2 ^ 32 := by
  have hsize := size_lt h.word
  have hroom := h.room
  have hlength := h.length
  omega

theorem Holds.fits (h : Holds s (terminated xs)) : xs.length + 1 < 2 ^ 32 := by
  have hsize := size_lt h.word
  have hroom := h.room
  rw [length_terminated] at hroom
  omega

theorem holds_new : Holds new (terminated []) := by
  refine ⟨rfl, by decide, fun h => absurd h (by decide), fun i hi => ?_⟩
  obtain rfl : i = 0 := by simpa using hi
  rfl

/-- What is written to the buffer a string then belongs in, it reads. -/
theorem holds_withCells {cells : Cells Char} {length : ℕ} (hlength : length + 1 = zs.length)
    (hroom : zs.length ≤ s.size isLocal) (hword : isLocal = false → s.allocated + 1 < 2 ^ 32)
    (hlocal : isLocal = decide (length + 1 ≤ localBufferSize)) (hdata : cells.Hold zs) :
    Holds { s.withCells isLocal cells with length := length } zs := by
  have hlt : length + 1 < 2 ^ 32 := by
    have hsize := size_lt hword
    omega
  have hflag : decide (IsLocal { s.withCells isLocal cells with length := length }) = isLocal := by
    rw [hlocal]
    simp only [Fields.IsLocal, Nat.mod_eq_of_lt hlt]
  rw [Holds, hflag]
  refine ⟨hlength, ?_, ?_, ?_⟩
  · cases isLocal <;> exact hroom
  · intro hheap
    subst hheap
    exact hword rfl
  · cases isLocal <;> exact hdata

theorem Reads.hold_take (h : s.Reads isLocal (terminated xs)) : (s.cells isLocal).Hold xs :=
  h.data.of_append

/-- **What is copied behind a string is read behind it**, up to the cell
the null is copied from. -/
theorem Reads.copyBehind (h : s.Reads isLocal (terminated xs)) {size width : ℕ}
    {source : Cells Char} {us : List Char} (hus : us.length = count + 1)
    (hroom : xs.length + count < s.size isLocal)
    (hlocal : isLocal = decide (xs.length + count + 1 ≤ localBufferSize))
    (hsource : count < size) (hwidth : 2 ^ 32 ≤ width) (hfits : xs.length + count + 1 < 2 ^ 32)
    (hread : source.Hold us) :
    ∃ s', copyBehind s isLocal size source count width = some s' ∧ Holds s' (xs ++ us) := by
  have hlength : s.length = xs.length := by simpa using h.length
  have hzs : (xs ++ us).length = xs.length + count + 1 := by
    rw [List.length_append, hus, Nat.add_assoc]
  have hholds := holds_withCells hzs.symm (by omega) h.word hlocal (h.hold_take.behind hread)
  refine ⟨_, ?_, hholds⟩
  rw [Fields.copyBehind, hlength, if_pos (by omega), Nat.mod_eq_of_lt (by omega),
    Nat.mod_eq_of_lt (by omega), Storage.memcpy_eq _ _ (Or.inr ⟨by omega, by omega⟩),
    Option.map_some, hus]

end Fields

end String8

end Uberos
