import Uberos.AllocationMask.Claimed
import Uberos.Mmu.Model
/-!
# The page allocator

`_allocate_pages` and `_free_pages` of `kernel/memory.cpp`, as they are
built with `KERNEL_MMU` for x86: a page is an index of the mask
`pageAllocations`, at `heap` plus as many pages, and a page of the
kernel's mapping from its high cursor. What does not return is `none`: an
assertion that fails, and a cursor that has left the directory or its
table, which the array accesses do not check. What the caller keeps in
its pages is left out, but for the two fields of `Page` that are written
here.
-/

namespace Uberos

open AllocationMask Mmu

/-- What the page allocator works on. The heap lies in the address space. -/
structure Memory where
  heap : ℕ
  pageAllocations : AllocationMask
  kernelMapping : Mapping
  sized : Sized pageAllocations
  fits : heap + pageAllocations.count * 4096 ≤ 2 ^ 32

namespace Memory

/-- Before any page is allocated: a mask of so many pages. -/
def new (heap totalPageCount : ℕ) (kernelMapping : Mapping)
    (fits : heap + totalPageCount * 4096 ≤ 2 ^ 32) : Memory where
  heap := heap
  pageAllocations := .new .x86_32 totalPageCount
  kernelMapping := kernelMapping
  sized := sized_new _ _
  fits :=
    (Nat.add_le_add_left (Nat.mul_le_mul_right _ (count_new_le _ _)) _).trans fits

/-- `Page`: where it is in the mapping, and what is written to it. -/
structure Page where
  address : ℕ
  physical : ℕ
  count : ℕ
  deriving DecidableEq, Repr

/-- `physical_to_index`. -/
def physicalToIndex (s : Memory) (physical : ℕ) : ℕ := (physical + 2 ^ 32 - s.heap) % 2 ^ 32 / 4096

/-- `index_to_physical`. -/
def indexToPhysical (s : Memory) (index : ℕ) : ℕ := (s.heap + index * 4096) % 2 ^ 32

/-- The mask after `pageAllocations.claim()`. -/
def claimed (s : Memory) : Memory :=
  { s with
    pageAllocations := (claim .x86_32 s.pageAllocations).2
    sized := s.sized.claim _
    fits := by
      rw [(claim_size _).1]
      exact s.fits }

/-- `kernelTransaction.map_physical_high(physical, {})`, from a cursor in
the directory. -/
def mapHigh (m : Mapping) (physical : ℕ) : Option (ℕ × Mapping) :=
  if m.nextHighDirectoryIndex < 1024 ∧ m.nextHighTableIndex < 1024 then
    m.mapPhysicalHigh physical {}
  else none

/-- A page is claimed and mapped: its address and its physical one, or
neither if the claim is refused. -/
def claimPage (s : Memory) : Option (Option (ℕ × ℕ) × Memory) :=
  match (claim .x86_32 s.pageAllocations).1 with
  | .error _ => some (none, s.claimed)
  | .ok index => do
    let physical := s.indexToPhysical index
    let (virtualAddress, m) ← mapHigh s.kernelMapping physical
    some (some (virtualAddress, physical), { s.claimed with kernelMapping := m })

/-- The loop of `_allocate_pages`, over the pages before the last, and
whether it ran to its end. -/
def claimPages : ℕ → Memory → Option (Bool × Memory)
  | 0, s => some (true, s)
  | remaining + 1, s => do
    match ← claimPage s with
    | (some _, s') => claimPages remaining s'
    | (none, s') => some (false, s')

/-- `_allocate_pages`: a page, or `nullptr`. -/
def allocatePages (s : Memory) (count : ℕ) : Option (Option Page × Memory) :=
  if count < 1 then some (none, s)
  else do
    match ← claimPages (count - 1) s with
    | (false, s') => some (none, s')
    | (true, s') =>
      match ← claimPage s' with
      | (some (virtualAddress, physical), s'') => some (some ⟨virtualAddress, physical, count⟩, s'')
      | (none, s'') => some (none, s'')

/-- The mask after `pageAllocations.release(index)`. -/
def released (s : Memory) (index : ℕ) : Memory :=
  { s with
    pageAllocations := s.pageAllocations.release index
    sized := s.sized.release index
    fits := s.fits }

/-- `_free_pages`, which does not read its count. -/
def freePages (s : Memory) (page : Page) (_count : ℕ) : Option (Page × Memory) := do
  let physical ← s.kernelMapping.getPhysical page.address
  some ({ page with physical := physical }, s.released (s.physicalToIndex physical))

/-! ## Runs -/

/-- The pages that were allocated and not freed since, and how many were
claimed altogether. -/
structure Usage where
  memory : Memory
  live : List Page
  claimedCount : ℕ

/-- Nothing was allocated yet. -/
def Usage.new (memory : Memory) : Usage := ⟨memory, [], 0⟩

/-- What the allocator is asked for. -/
inductive Op
  | allocate (count : ℕ)
  | free (page : Page) (count : ℕ)
  deriving DecidableEq, Repr

/-- How many of so many claims in a row are met. -/
def claimable : ℕ → AllocationMask → ℕ
  | 0, _ => 0
  | count + 1, m =>
    match claim .x86_32 m with
    | (.ok _, m') => claimable count m' + 1
    | (.error _, _) => 0

/-- One call, unless it does not return. -/
def step (u : Usage) : Op → Usage
  | .allocate count =>
    match u.memory.allocatePages count with
    | some (page, s) =>
      ⟨s, page.toList ++ u.live, u.claimedCount + claimable count u.memory.pageAllocations⟩
    | none => u
  | .free page count =>
    match u.memory.freePages page count with
    | some (_, s) => { u with memory := s, live := u.live.erase page }
    | none => u

end Memory

end Uberos
