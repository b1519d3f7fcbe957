import Uberos.AllocationMask.Search
import Uberos.Memory.Model
import Uberos.Mmu.Reading
/-!
# The bytes the mask touches

Which bytes of its storage the constructor, a claim and a release read or
write, turn by turn of their loops. Whatever the storage holds and
wherever the cursors stand, they are bytes that hold the bits of an index
below the count; and the constructor clears each of those.
-/

namespace Uberos

namespace AllocationMask

/-- `memset(data, 0, (count+7)/8)`. -/
def newTouched (count : ℕ) : List ℕ := List.range ((count + 7) / 8)

/-- What a byte loop reads. -/
def seekByteTouched (data : List (BitVec 8)) (count : ℕ) (stop : ℕ → Bool) : ℕ → ℕ → List ℕ
  | 0, _ => []
  | fuel + 1, earliestFree =>
    if earliestFree < count ∧ stop earliestFree = false then
      earliestFree / 8 ::
        if byteAt data (earliestFree / 8) = 0xff then
          seekByteTouched data count stop fuel (earliestFree + 8)
        else []
    else []

/-- What the `Reg` loop reads. -/
def seekRegTouched (T : Target) (data : List (BitVec 8)) (count : ℕ) : ℕ → ℕ → List ℕ
  | 0, _ => []
  | fuel + 1, earliestFree =>
    if earliestFree + 8 * T.wordBytes ≤ count then
      (List.range T.wordBytes).map (earliestFree / 8 / T.wordBytes * T.wordBytes + ·) ++
        if reg T data (earliestFree / 8 / T.wordBytes) ≠ 0xffffffff then []
        else seekRegTouched T data count fuel (earliestFree + 8 * T.wordBytes)
    else []

/-- What the search of a claim reads. The byte it then takes a bit of is
the last of them. -/
def searchTouched (T : Target) (m : AllocationMask) : List ℕ :=
  let aligned := fun e => e % (8 * T.wordBytes) == 0
  seekByteTouched m.data m.count aligned m.count m.earliestFree ++
    match seekByte m.data m.count aligned m.count m.earliestFree with
    -- the loop to an aligned index has found the byte
    | .found _ => []
    | .passed e =>
      seekRegTouched T m.data m.count m.count e ++
        seekByteTouched m.data m.count (fun _ => false) m.count
          (seekReg T m.data m.count m.count e)

/-- What a claim reads or writes. -/
def claimTouched (T : Target) (m : AllocationMask) : List ℕ :=
  if m.count ≤ m.earliestFree then []
  else if m.afterLastTaken < m.count then [m.afterLastTaken / 8]
  else searchTouched T m

/-- What the roll-back loop reads. -/
def rollBackTouched (data : List (BitVec 8)) (earliestFree : ℕ) : ℕ → List ℕ
  | 0 => []
  | afterLastTaken + 1 =>
    if earliestFree < afterLastTaken + 1 then
      afterLastTaken / 8 ::
        if rollBackTest data (afterLastTaken + 1) = true then
          rollBackTouched data earliestFree afterLastTaken
        else []
    else []

/-- What a release reads or writes. -/
def releaseTouched (m : AllocationMask) (index : ℕ) : List ℕ :=
  let data := clearByte m.data (index / 8) index
  index / 8 ::
    -- only the release of the last index taken rolls back
    if index + 1 = m.afterLastTaken then
      rollBackTouched data (min index m.earliestFree) (m.afterLastTaken - 1)
    else []

/-- **A byte that the mask can touch**: the constructor, a claim, or the
release of an index. -/
def Touches (T : Target) (m : AllocationMask) (byte : ℕ) : Prop :=
  byte ∈ newTouched m.count ∨ byte ∈ claimTouched T m ∨
    ∃ index < m.count, byte ∈ releaseTouched m index

variable {T : Target} {m : AllocationMask} {data : List (BitVec 8)} {count e byte index fuel : ℕ}
variable {stop : ℕ → Bool}

/-! ## Where they are -/

theorem lt_of_mem_seekByteTouched (hcount : count % 8 = 0)
    (h : byte ∈ seekByteTouched data count stop fuel e) : byte < count / 8 := by
  induction fuel generalizing e with
  | zero => exact absurd h List.not_mem_nil
  | succ fuel ih =>
    rw [seekByteTouched] at h
    split at h
    · rename_i hinside
      rcases List.mem_cons.1 h with rfl | h
      · omega
      split at h
      · exact ih h
      · exact absurd h List.not_mem_nil
    · exact absurd h List.not_mem_nil

theorem lt_of_mem_seekRegTouched (h : byte ∈ seekRegTouched T data count fuel e) :
    byte < count / 8 := by
  induction fuel generalizing e with
  | zero => exact absurd h List.not_mem_nil
  | succ fuel ih =>
    rw [seekRegTouched] at h
    split at h
    · rename_i hinside
      rcases List.mem_append.1 h with h | h
      · obtain ⟨i, hi, rfl⟩ := List.mem_map.1 h
        rw [List.mem_range] at hi
        -- the whole `Reg` lies below the count
        rcases T.wordBytes_eq with hword | hword <;> rw [hword] at hi hinside ⊢ <;> omega
      split at h
      · exact absurd h List.not_mem_nil
      · exact ih h
    · exact absurd h List.not_mem_nil

theorem lt_of_mem_claimTouched (hcount : m.count % 8 = 0) (h : byte ∈ claimTouched T m) :
    byte < m.count / 8 := by
  unfold claimTouched at h
  split at h
  · exact absurd h List.not_mem_nil
  split at h
  · rw [List.mem_singleton] at h
    omega
  rcases List.mem_append.1 h with h | h
  · exact lt_of_mem_seekByteTouched hcount h
  split at h
  · exact absurd h List.not_mem_nil
  rcases List.mem_append.1 h with h | h
  · exact lt_of_mem_seekRegTouched h
  · exact lt_of_mem_seekByteTouched hcount h

theorem le_of_mem_rollBackTouched {afterLastTaken : ℕ}
    (h : byte ∈ rollBackTouched data e afterLastTaken) : byte ≤ (afterLastTaken - 1) / 8 := by
  induction afterLastTaken with
  | zero => exact absurd h List.not_mem_nil
  | succ afterLastTaken ih =>
    rw [rollBackTouched] at h
    split at h
    · rcases List.mem_cons.1 h with rfl | h
      · exact le_refl _
      split at h
      · have hle := ih h
        omega
      · exact absurd h List.not_mem_nil
    · exact absurd h List.not_mem_nil

theorem lt_of_mem_releaseTouched (hcount : m.count % 8 = 0) (hindex : index < m.count)
    (h : byte ∈ releaseTouched m index) : byte < m.count / 8 := by
  rcases List.mem_cons.1 h with rfl | h
  · omega
  split at h
  · have hle := le_of_mem_rollBackTouched h
    omega
  · exact absurd h List.not_mem_nil

/-- **The bytes a mask touches are those of its indices**, in any state of
it. -/
theorem touches_iff (hcount : m.count % 8 = 0) : Touches T m byte ↔ byte < m.count / 8 := by
  constructor
  · rintro (hnew | hclaim | ⟨index, hindex, hrelease⟩)
    · rw [newTouched, List.mem_range] at hnew
      omega
    · exact lt_of_mem_claimTouched hcount hclaim
    · exact lt_of_mem_releaseTouched hcount hindex hrelease
  · intro hbyte
    refine Or.inl ?_
    rw [newTouched, List.mem_range]
    omega

end AllocationMask

end Uberos

/-!
## The storage of the page mask

`memory::init` of `kernel/memory.cpp`, as it is built with `KERNEL_MMU`
for x86: the first pages of the heap are set aside for the mask, mapped,
and the rest of the heap is what the mask hands out. The number of bytes
the mask needs is rounded down to 64 pages, and the number of pages set
aside is passed on for a number of bytes, which always maps one page.
The mask is sound on heaps small enough to hand out nothing, and on those
it needs one page for and is given it.
-/

namespace Uberos

open AllocationMask Mmu

/-- `AllocationMask::size_required`. -/
def AllocationMask.sizeRequired (T : Target) (count : ℕ) : ℕ :=
  count / 8 / 8 * 8 / T.wordBytes * T.wordBytes

namespace Memory

/-- The heap as `init` finds it: from the end of the image, which the
linker aligns, or of the tables. -/
structure Heap where
  address : ℕ
  size : ℕ
  aligned : address % 4096 = 0
  fits : address + size ≤ 2 ^ 32

/-- What `init` leaves: the page allocator, the size of its heap, and what
was mapped for the mask. -/
structure Started where
  memory : Memory
  heapSize : ℕ
  mapped : Mapped

/-- The pages of the heap before any is set aside. -/
def totalPageCount (heap : Heap) : ℕ := heap.size / 4096

/-- The pages that are set aside. -/
def allocationPagesNeeded (heap : Heap) : ℕ :=
  (sizeRequired .x86_32 (totalPageCount heap) + 4096 - 1) / 4096

/-- What is left of the heap lies in the address space. -/
theorem rest_fits (heap : Heap) (h : allocationPagesNeeded heap < totalPageCount heap) :
    heap.address + allocationPagesNeeded heap * 4096 +
      (totalPageCount heap - allocationPagesNeeded heap) * 4096 ≤ 2 ^ 32 := by
  have hfits := heap.fits
  unfold totalPageCount at h ⊢
  omega

/-- The heap and the mask after the pages were set aside, with what was
mapped for them. -/
def started (heap : Heap) (h : allocationPagesNeeded heap < totalPageCount heap)
    (mapped : ℕ × Mapping) : Started where
  memory := new (heap.address + allocationPagesNeeded heap * 4096)
    (totalPageCount heap - allocationPagesNeeded heap) mapped.2 (rest_fits heap h)
  heapSize := heap.size - allocationPagesNeeded heap * 4096
  mapped := ⟨mapped.1, heap.address, Mapping.pageCount (allocationPagesNeeded heap) * 4096⟩

/-- `init`, up to the mask. The number of pages is passed for the size. -/
def init (heap : Heap) (m : Mapping) : Option Started :=
  if 1 < totalPageCount heap then
    if h : allocationPagesNeeded heap < totalPageCount heap then
      -- `map_physical_high` takes its size in bytes
      (m.mapPhysicalHighRange heap.address (allocationPagesNeeded heap) {}).map (started heap h)
    else none
  else none

/-! ## What it is for -/

/-- **The mask lies in what was mapped for it, and hands out other pages of
the heap**: every byte it can touch in any state of it is mapped, and the
page of every index lies in the heap and not in the physical pages of the
mask. -/
def Sound (s : Started) : Prop :=
  (∀ m, m.count = s.memory.pageAllocations.count → ∀ byte, Touches .x86_32 m byte →
      byte < s.mapped.size) ∧
    ∀ index < s.memory.pageAllocations.count,
      (s.memory.indexToPhysical index + 4096 ≤ s.mapped.physical ∨
          s.mapped.physical + s.mapped.size ≤ s.memory.indexToPhysical index) ∧
        s.memory.heap ≤ s.memory.indexToPhysical index ∧
          s.memory.indexToPhysical index + 4096 ≤ s.memory.heap + s.heapSize

/-! ## The condition -/

/-- **The heap is too small for an index, or the mask needs one page.** -/
def OnePage (heap : Heap) : Prop :=
  totalPageCount heap < 32 ∨ 64 ≤ totalPageCount heap ∧ totalPageCount heap ≤ 32800

instance (heap : Heap) : Decidable (OnePage heap) :=
  inferInstanceAs (Decidable (_ ∨ _ ∧ _))

/-! ## What is set aside and mapped -/

variable {heap : Heap} {m : Mapping} {s : Started}

/-- The bytes needed, rounded down to 64 indices. -/
theorem sizeRequired_eq (count : ℕ) : sizeRequired .x86_32 count = count / 64 * 8 := by
  simp only [sizeRequired, Target.wordBytes]
  omega

theorem totalPageCount_le (heap : Heap) : totalPageCount heap ≤ 2 ^ 20 := by
  have hfits := heap.fits
  unfold totalPageCount
  omega

/-- **One page is mapped**, however many are set aside. -/
theorem pageCount_allocationPagesNeeded (heap : Heap) :
    Mapping.pageCount (allocationPagesNeeded heap) = 1 := by
  have htotal := totalPageCount_le heap
  rw [allocationPagesNeeded, sizeRequired_eq, Mapping.pageCount]
  omega

/-- The indices of the mask. -/
theorem count_new_x86 (count : ℕ) : (AllocationMask.new .x86_32 count).count = count / 32 * 32 := by
  simp only [AllocationMask.new, Target.wordBytes]
  omega

/-- What `init` leaves, where its assertions hold. -/
theorem eq_of_init (h : init heap m = some s) :
    s.memory.heap = heap.address + allocationPagesNeeded heap * 4096 ∧
      s.heapSize = heap.size - allocationPagesNeeded heap * 4096 ∧
      s.mapped.physical = heap.address ∧ s.mapped.size = 4096 ∧
      s.memory.pageAllocations.count =
        (totalPageCount heap - allocationPagesNeeded heap) / 32 * 32 ∧
      allocationPagesNeeded heap < totalPageCount heap := by
  unfold init at h
  split at h
  · split at h
    · rename_i hneeded
      obtain ⟨mapped, -, rfl⟩ := Option.map_eq_some_iff.1 h
      refine ⟨rfl, rfl, rfl, ?_, count_new_x86 _, hneeded⟩
      rw [started, pageCount_allocationPagesNeeded]
    · cases h
  · cases h

theorem allocationPagesNeeded_eq (heap : Heap) :
    allocationPagesNeeded heap = (totalPageCount heap / 64 * 8 + 4095) / 4096 := by
  rw [allocationPagesNeeded, sizeRequired_eq]
  rfl

/-- **A heap of two pages is accepted** where there is a page to map, and
what was mapped for the mask is translated to the start of the heap. -/
theorem exists_init {t : Library.TwoLevel TableEntry} (hpaged : m.Paged t) (hroom : m.HighRoom 1)
    (hkept : m.HighKept 1) (htotal : 1 < totalPageCount heap) :
    ∃ s, init heap m = some s ∧ Translated s.memory.kernelMapping s.mapped := by
  have hone := pageCount_allocationPagesNeeded heap
  have hneeded : allocationPagesNeeded heap < totalPageCount heap := by
    rw [allocationPagesNeeded_eq]
    omega
  rw [← hone] at hroom hkept
  obtain ⟨m', t', hcall, hextended, -, hhigh, hframes⟩ :=
    hpaged.mapPhysicalHighRange hroom hkept heap.address {}
  have hlast := hpaged.last
  have hnext := hkept.1
  have haligned := heap.aligned
  refine ⟨started heap hneeded ((m.highPage + 1 - Mapping.pageCount (allocationPagesNeeded heap)) *
    4096 + heap.address % 4096, m'), ?_,
    Held.translated ⟨rfl, ?_, hframes, fun i hi => ?_⟩ hextended.paged⟩
  · rw [init, if_pos htotal, dif_pos hneeded, hcall, Option.map_some]
  · dsimp only [started]
    omega
  · have htaken : m'.highPage < m.highPage + 1 - Mapping.pageCount (allocationPagesNeeded heap) + i ∧
        m.highPage + 1 - Mapping.pageCount (allocationPagesNeeded heap) + i < 2 ^ 20 - 1 := by
      omega
    exact Or.inr htaken

/-! ## The result -/

/-- The page of an index lies in the rest of the heap, where the index is
below the count. -/
theorem indexToPhysical_of_init (h : init heap m = some s) {index : ℕ}
    (hindex : index < s.memory.pageAllocations.count) :
    s.memory.indexToPhysical index =
        heap.address + allocationPagesNeeded heap * 4096 + index * 4096 ∧
      s.memory.heap ≤ s.memory.indexToPhysical index ∧
      s.memory.indexToPhysical index + 4096 ≤ s.memory.heap + s.heapSize := by
  obtain ⟨hheap, hsize, -, -, hcount, hneeded⟩ := eq_of_init h
  have hfits := s.memory.fits
  have hinside : index + 1 ≤ totalPageCount heap - allocationPagesNeeded heap := by omega
  have hphysical : s.memory.indexToPhysical index = s.memory.heap + index * 4096 := by
    rw [indexToPhysical, Nat.mod_eq_of_lt (by omega)]
  unfold totalPageCount at hinside
  rw [hphysical, hheap, hsize]
  refine ⟨rfl, Nat.le_add_right _ _, ?_⟩
  omega

/-- The mask's storage is sound exactly under the condition. -/
theorem Started.sound_iff (h : init heap m = some s) : Sound s ↔ OnePage heap := by
  obtain ⟨hheap, hsize, hphysical, hmapped, hcount, hneeded⟩ := eq_of_init h
  have htotal := totalPageCount_le heap
  have hpages := allocationPagesNeeded_eq heap
  have hcount8 : s.memory.pageAllocations.count % 8 = 0 := by omega
  constructor
  · rintro ⟨htouches, hpage⟩
    unfold OnePage
    by_contra hcon
    rcases Nat.lt_or_ge (totalPageCount heap) 64 with hsmall | hlarge
    · -- no page is set aside, and the first index is of the mapped one
      have hzero : 0 < s.memory.pageAllocations.count := by omega
      obtain ⟨hphysical₀, -, -⟩ := indexToPhysical_of_init h hzero
      have hapart := (hpage 0 hzero).1
      omega
    · -- the byte after the page is cleared
      have hbyte : 4096 < s.memory.pageAllocations.count / 8 := by omega
      have hinside := htouches _ rfl 4096 ((touches_iff hcount8).2 hbyte)
      omega
  · intro hone
    unfold OnePage at hone
    refine ⟨fun m' hm' byte htouches => ?_, fun index hindex => ?_⟩
    -- 32768 indices at most, or none
    · rw [touches_iff (by rw [hm', hcount8]), hm'] at htouches
      omega
    · obtain ⟨hphysical', hheap', hsize'⟩ := indexToPhysical_of_init h hindex
      refine ⟨Or.inr ?_, hheap', hsize'⟩
      omega

/-- **The mask's storage is sound exactly where it needs one page**, or the
heap is too small for an index, of all heaps that are accepted. -/
theorem sound_iff_onePage (heap : Heap) (m : Mapping) (s : Started) (h : init heap m = some s) :
    Sound s ↔ OnePage heap := Started.sound_iff h

/-- So many bytes of heap after an image of 2 MiB. -/
def heapOf (size : ℕ) (h : 0x400000 + size ≤ 2 ^ 32) : Heap := ⟨0x400000, size, by decide, h⟩

theorem oneTable_aligned : 0x300000 % 4096 = 0 := by decide

/-- The kernel's mapping, with tables for it. -/
def oneTable : Mapping := .new ⟨0x300000, 1, oneTable_aligned, by decide⟩ fun _ _ => default

/-- Any heap of two pages is accepted there. -/
theorem exists_init_oneTable (htotal : 1 < totalPageCount heap) :
    ∃ s, init heap oneTable = some s := by
  have hpaged : oneTable.Paged ⟨fun _ => none, fun _ _ => default⟩ := Mapping.paged_new _ _
  obtain ⟨s, hinit, -⟩ := exists_init hpaged (by decide) (by decide) htotal
  exact ⟨s, hinit⟩

/-- On 64 MiB the mask is sound. -/
theorem sound_iff_onePage_large :
    ∃ s, init (heapOf 0x4000000 (by decide)) oneTable = some s ∧
      (Sound s ↔ OnePage (heapOf 0x4000000 (by decide))) := by
  have htotal : 1 < totalPageCount (heapOf 0x4000000 (by decide)) := by decide
  obtain ⟨s, hinit⟩ := exists_init_oneTable htotal
  exact ⟨s, hinit, sound_iff_onePage _ _ s hinit⟩

/-- **On 256 MiB the mask runs over** what was mapped for it; and on 128
KiB it hands out the page it lies in. -/
theorem not_sound_init :
    (∃ s, init (heapOf 0x10000000 (by decide)) oneTable = some s ∧ ¬ Sound s) ∧
      ∃ s, init (heapOf 0x20000 (by decide)) oneTable = some s ∧ ¬ Sound s := by
  have hlarge : 1 < totalPageCount (heapOf 0x10000000 (by decide)) := by decide
  have hsmall : 1 < totalPageCount (heapOf 0x20000 (by decide)) := by decide
  obtain ⟨s, hinit⟩ := exists_init_oneTable hlarge
  obtain ⟨s', hinit'⟩ := exists_init_oneTable hsmall
  refine ⟨⟨s, hinit, ?_⟩, s', hinit', ?_⟩
  · rw [Started.sound_iff hinit]
    decide
  · rw [Started.sound_iff hinit']
    decide

end Memory

end Uberos
