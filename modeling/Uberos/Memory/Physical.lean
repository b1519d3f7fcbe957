import Uberos.Mmu.Options
/-!
# Access to physical memory

`read_physical` and `write_physical` of `kernel/memory.cpp`, as they are
built with `KERNEL_MMU` for x86: one page of the kernel's mapping is
pointed at the physical pages of the range one after the other, and what
of the range lies in each is copied through it. The two functions differ
in the direction of the copying and in how much of the first page they
take to lie in the range. The caller's buffer is storage of its own, as
`memcpy` asks of its arguments; it goes on beyond the bytes that are the
caller's, and the ranges of it that were touched are recorded.
-/

namespace Uberos

namespace Memory

open Mmu

/-- `virtualScratchRecord`: a page of the kernel's mapping below the last
one of the address space. -/
structure Scratch where
  kernelMapping : Mapping
  virtualScratchRecord : ℕ
  aligned : virtualScratchRecord % 4096 = 0
  below : virtualScratchRecord + 4096 < 2 ^ 32
  hasTable : kernelMapping.HasTable virtualScratchRecord

/-- What an access works on. -/
structure Access where
  kernelMapping : Mapping
  virtualScratchRecord : ℕ
  /-- The physical bytes. -/
  bytes : ℕ → BitVec 8
  /-- The caller's, from its address on. -/
  buffer : ℕ → BitVec 8
  /-- The ranges of it that were read or written: offset and length. -/
  touched : List (ℕ × ℕ)

/-- Whether the physical bytes go to the buffer or come from it. -/
inductive Direction
  | read
  | write
  deriving DecidableEq, Repr

/-- **The page that `init` maps is one**: the high cursor never comes to the
last page of the address space. -/
theorem exists_scratch {m m' : Mapping} {virtualAddress : ℕ} {options : MapOptions}
    (hd : m.nextHighDirectoryIndex < 1024) (hi : m.nextHighTableIndex < 1024)
    (hlast : m.nextHighDirectoryIndex = 1023 → m.nextHighTableIndex ≠ 1023)
    (hcall : m.mapPhysicalHigh 0 options = some (virtualAddress, m')) :
    ∃ scratch : Scratch,
      scratch.kernelMapping = m' ∧ scratch.virtualScratchRecord = virtualAddress := by
  have htranslated := Mapping.getPhysical_of_mapPhysicalHigh hd hi (by decide) hcall
  obtain ⟨⟨address, m₁⟩, hmap, hcall⟩ := Option.bind_eq_some_iff.1 hcall
  cases hcall
  obtain ⟨m₂, table, -, -, hvirtual, -⟩ := Mapping.eq_of_mapPage hmap
  rw [Mapping.address_eq _ hi (by decide)] at hvirtual
  refine ⟨⟨_, virtualAddress, by omega, by omega, ?_⟩, rfl, rfl⟩
  obtain ⟨table', htable, -⟩ := Option.bind_eq_some_iff.1 htranslated
  exact Option.isSome_iff_exists.2 ⟨table', htable⟩

namespace Access

/-- An access begins. -/
def new (scratch : Scratch) (bytes buffer : ℕ → BitVec 8) : Access :=
  ⟨scratch.kernelMapping, scratch.virtualScratchRecord, bytes, buffer, []⟩

/-! ## Copying through the page -/

/-- One byte of a `memcpy`. -/
def copyByte (direction : Direction) (s : Access) (virtualAddress index : ℕ) : Option Access := do
  let physical ← s.kernelMapping.getPhysical virtualAddress
  match direction with
  | .read => some { s with buffer := Function.update s.buffer index (s.bytes physical) }
  | .write => some { s with bytes := Function.update s.bytes physical (s.buffer index) }

/-- The bytes of one. -/
def copyBytes (direction : Direction) (virtualAddress bufferOffset : ℕ) : ℕ → Access → Option Access
  | 0, s => some s
  | length + 1, s => do
    let s ← copyBytes direction virtualAddress bufferOffset length s
    copyByte direction s ((virtualAddress + length) % 2 ^ 32) (bufferOffset + length)

/-- `memcpy` between the page from `offset` on and the buffer from
`bufferOffset` on. -/
def memcpy (direction : Direction) (s : Access) (offset bufferOffset length : ℕ) : Option Access :=
  copyBytes direction (s.virtualScratchRecord + offset) bufferOffset length
    { s with touched := (bufferOffset, length) :: s.touched }

/-- `transaction.set_virtual_target(virtualScratchRecord, {pageAddress}, pageSize)`. -/
def retarget (s : Access) (pageAddress turns : ℕ) : Option Access := do
  let m ← s.kernelMapping.setVirtualTargetRange s.virtualScratchRecord pageAddress 4096 turns
  some { s with kernelMapping := m }

/-- The loop over the pages after the first, for so many turns. -/
def copyPages (direction : Direction) (stop size : ℕ) : ℕ → ℕ → ℕ → Access → Option Access
  | 0, pageAddress, _, s => if pageAddress < stop then none else some s
  | turns + 1, pageAddress, bufferOffset, s =>
    if pageAddress < stop then do
      let s ← s.retarget pageAddress (turns + 1)
      -- `size - bufferOffset` in 32 bits
      let s ← memcpy direction s 0 bufferOffset (min 4096 ((size + 2 ^ 32 - bufferOffset) % 2 ^ 32))
      copyPages direction stop size turns ((pageAddress + 4096) % 2 ^ 32)
        ((bufferOffset + 4096) % 2 ^ 32) s
    else some s

/-- Where the first page is, and where in it the range begins. -/
def pageAddress (physicalAddress : ℕ) : ℕ := physicalAddress / 4096 * 4096

def offset (physicalAddress : ℕ) : ℕ := physicalAddress - pageAddress physicalAddress

/-- What the two have in common: `length` of the bytes are in the first
page. -/
def transfer (direction : Direction) (s : Access) (physicalAddress size length turns : ℕ) :
    Option Access := do
  let pageAddress := pageAddress physicalAddress
  let s ← s.retarget pageAddress (turns + 1)
  let s ← memcpy direction s (offset physicalAddress) 0 length
  copyPages direction ((physicalAddress + size) % 2 ^ 32) size turns
    ((pageAddress + 4096) % 2 ^ 32) length s

/-- `read_physical`, to a buffer of `size` bytes. -/
def readPhysical (s : Access) (physicalAddress size turns : ℕ) : Option Access :=
  transfer .read s physicalAddress size (min size (4096 - offset physicalAddress)) turns

/-- `write_physical`, from a buffer of `size` bytes. The first page is
written to its end. -/
def writePhysical (s : Access) (physicalAddress size turns : ℕ) : Option Access :=
  transfer .write s physicalAddress size (4096 - offset physicalAddress) turns

/-! ## What it is for -/

/-- Of the buffer only its first bytes were touched. -/
def Within (size : ℕ) (s : Access) : Prop := ∀ range ∈ s.touched, range.1 + range.2 ≤ size

/-- **Reading is exact**: it returns the bytes of the range, and writes no
others of the buffer and none of the memory. -/
def ReadExact (s : Access) (physicalAddress size : ℕ) : Prop :=
  ∃ turns s', s.readPhysical physicalAddress size turns = some s' ∧
    (∀ i, s'.buffer i = if i < size then s.bytes (physicalAddress + i) else s.buffer i) ∧
    s'.bytes = s.bytes ∧ Within size s'

/-- **Writing is exact**: it returns with the bytes of the range written,
and no others, and has read no others of the buffer. -/
def WriteExact (s : Access) (physicalAddress size : ℕ) : Prop :=
  ∃ turns s', s.writePhysical physicalAddress size turns = some s' ∧
    (∀ a, s'.bytes a =
      if physicalAddress ≤ a ∧ a < physicalAddress + size then s.buffer (a - physicalAddress)
      else s.bytes a) ∧
    s'.buffer = s.buffer ∧ Within size s'

/-! ## Copying -/

variable {direction : Direction} {s s' : Access} {p n size length start stop virtualAddress : ℕ}
variable {bufferOffset turns : ℕ}

/-- The memory and the buffer after the first bytes of the range were
copied. -/
def contents (direction : Direction) (s : Access) (p n : ℕ) :
    (ℕ → BitVec 8) × (ℕ → BitVec 8) :=
  match direction with
  | .read => (s.bytes, fun i => if i < n then s.bytes (p + i) else s.buffer i)
  | .write => (fun a => if p ≤ a ∧ a < p + n then s.buffer (a - p) else s.bytes a, s.buffer)

theorem contents_zero (direction : Direction) (s : Access) (p : ℕ) :
    contents direction s p 0 = (s.bytes, s.buffer) := by
  cases direction with
  | read => simp [contents]
  | write =>
    have hnone : ∀ a, ¬ (p ≤ a ∧ a < p + 0) := fun a => by omega
    simp only [contents, if_neg (hnone _)]

/-- What a copy leaves alone. -/
def SamePage (s s' : Access) : Prop :=
  s'.kernelMapping = s.kernelMapping ∧ s'.virtualScratchRecord = s.virtualScratchRecord ∧
    s'.touched = s.touched

/-- Where the byte's address is translated to is where it is copied from
or to. -/
theorem copyByte_of_translated {index physical : ℕ}
    (htranslated : s.kernelMapping.getPhysical virtualAddress = some physical) :
    copyByte .read s virtualAddress index =
        some { s with buffer := Function.update s.buffer index (s.bytes physical) } ∧
      copyByte .write s virtualAddress index =
        some { s with bytes := Function.update s.bytes physical (s.buffer index) } := by
  constructor <;> rw [copyByte, htranslated] <;> rfl

/-- **The next byte of the range is copied.** -/
theorem copyByte_eq (hcontents : (s'.bytes, s'.buffer) = contents direction s p n)
    (htranslated : s'.kernelMapping.getPhysical virtualAddress = some (p + n)) :
    ∃ s'', copyByte direction s' virtualAddress n = some s'' ∧ SamePage s' s'' ∧
      (s''.bytes, s''.buffer) = contents direction s p (n + 1) := by
  cases direction with
  | read =>
    rw [contents, Prod.mk.injEq] at hcontents
    refine ⟨_, (copyByte_of_translated htranslated).1, ⟨rfl, rfl, rfl⟩, ?_⟩
    rw [contents, Prod.mk.injEq]
    refine ⟨hcontents.1, ?_⟩
    funext i
    simp only [hcontents.1, hcontents.2, Function.update_apply]
    by_cases hi : i = n
    · rw [if_pos hi, if_pos (by omega), hi]
    · rw [if_neg hi]
      exact if_congr (by omega) rfl rfl
  | write =>
    rw [contents, Prod.mk.injEq] at hcontents
    refine ⟨_, (copyByte_of_translated htranslated).2, ⟨rfl, rfl, rfl⟩, ?_⟩
    rw [contents, Prod.mk.injEq]
    refine ⟨?_, hcontents.2⟩
    funext a
    simp only [hcontents.1, hcontents.2, Function.update_apply]
    by_cases ha : a = p + n
    · rw [if_pos ha, if_pos (by omega), ha, Nat.add_sub_cancel_left]
    · rw [if_neg ha]
      exact if_congr (by omega) rfl rfl

/-- **The bytes of a page that are next** are copied one after the other. -/
theorem copyBytes_eq (hcontents : (s'.bytes, s'.buffer) = contents direction s p n)
    (htranslated : ∀ i < length,
      s'.kernelMapping.getPhysical ((virtualAddress + i) % 2 ^ 32) = some (p + n + i)) :
    ∃ s'', copyBytes direction virtualAddress n length s' = some s'' ∧ SamePage s' s'' ∧
      (s''.bytes, s''.buffer) = contents direction s p (n + length) := by
  induction length with
  | zero => exact ⟨s', rfl, ⟨rfl, rfl, rfl⟩, hcontents⟩
  | succ length ih =>
    obtain ⟨s₁, hbytes, hsame, hcontents₁⟩ := ih fun i hi => htranslated i (by omega)
    have hnext : s₁.kernelMapping.getPhysical ((virtualAddress + length) % 2 ^ 32) =
        some (p + (n + length)) := by
      rw [hsame.1, htranslated length (by omega), Nat.add_assoc]
    obtain ⟨s₂, hbyte, hsame', hcontents₂⟩ := copyByte_eq hcontents₁ hnext
    refine ⟨s₂, ?_, ⟨hsame'.1.trans hsame.1, hsame'.2.1.trans hsame.2.1,
      hsame'.2.2.trans hsame.2.2⟩, hcontents₂⟩
    rw [copyBytes, hbytes]
    exact hbyte

/-! ## Pages -/

/-- **The first bytes of the range have been copied** in an access that
began here. -/
structure Copied (direction : Direction) (s : Access) (p n : ℕ) (s' : Access) : Prop where
  contents : (s'.bytes, s'.buffer) = contents direction s p n
  within : Within n s'
  aligned : s'.virtualScratchRecord % 4096 = 0
  below : s'.virtualScratchRecord + 4096 < 2 ^ 32
  hasTable : s'.kernelMapping.HasTable s'.virtualScratchRecord

theorem Copied.new (scratch : Scratch) (bytes buffer : ℕ → BitVec 8) :
    Copied direction (new scratch bytes buffer) p 0 (new scratch bytes buffer) where
  contents := (contents_zero _ _ _).symm
  within := fun _ h => absurd h List.not_mem_nil
  aligned := scratch.aligned
  below := scratch.below
  hasTable := scratch.hasTable

/-- **The page is pointed at a physical one and its bytes of the range are
copied.** -/
theorem Copied.page (h : Copied direction s p n s') (hstart : start % 4096 = 0)
    (hfits : start < 2 ^ 32) {offset : ℕ} (hoffset : start + offset = p + n)
    (hlength : offset + length ≤ 4096) (turns : ℕ) :
    ∃ s₁ s₂, s'.retarget start (turns + 1) = some s₁ ∧
      memcpy direction s₁ offset n length = some s₂ ∧ Copied direction s p (n + length) s₂ := by
  obtain ⟨m, hm, htable, htranslated⟩ := h.hasTable.setVirtualTarget h.aligned hstart hfits
  have hretarget : s'.retarget start (turns + 1) = some { s' with kernelMapping := m } := by
    rw [retarget, Mapping.setVirtualTargetRange_page h.aligned h.below, hm]
    rfl
  have hbelow := h.below
  have hbytes : ∀ i < length,
      m.getPhysical ((s'.virtualScratchRecord + offset + i) % 2 ^ 32) = some (p + n + i) := by
    intro i hi
    have hsum : (s'.virtualScratchRecord + offset + i) % 2 ^ 32 =
        s'.virtualScratchRecord + (offset + i) := by omega
    rw [hsum, htranslated _ (by omega), ← hoffset, Nat.add_assoc]
  have hrecorded : (({ s' with kernelMapping := m, touched := (n, length) :: s'.touched } :
      Access).bytes, s'.buffer) = Access.contents direction s p n := h.contents
  obtain ⟨s₂, hcopy, hsame, hcontents⟩ := copyBytes_eq hrecorded hbytes
  refine ⟨_, s₂, hretarget, hcopy, hcontents, ?_, ?_, ?_, ?_⟩
  · intro range hrange
    rw [hsame.2.2] at hrange
    rcases List.mem_cons.1 hrange with rfl | hold
    · exact le_refl _
    · exact (h.within range hold).trans (Nat.le_add_right ..)
  · rw [hsame.2.1]
    exact h.aligned
  · rw [hsame.2.1]
    exact h.below
  · rw [hsame.1, hsame.2.1]
    exact htable

/-! ## The loop -/

theorem copyPages_of_le (hstop : stop ≤ start) :
    copyPages direction stop size turns start bufferOffset s = some s := by
  cases turns <;> rw [copyPages, if_neg (by omega)]

/-- **The loop copies the rest of the range**, which ends before the last
page of the address space, page by page. -/
theorem Copied.copyPages (h : Copied direction s p n s') (hn : n ≤ size)
    (hend : p + size ≤ 2 ^ 32 - 4096) (hstart : (p + n) % 4096 = 0)
    (hturns : size ≤ n + turns * 4096) :
    ∃ s'', copyPages direction (p + size) size turns (p + n) n s' = some s'' ∧
      Copied direction s p size s'' := by
  -- by induction on the turns, each of which copies a page or the last chunk
  induction turns generalizing n s' with
  | zero =>
    obtain rfl : n = size := by omega
    exact ⟨s', copyPages_of_le (le_refl _), h⟩
  | succ turns ih =>
    rcases Nat.eq_or_lt_of_le hn with rfl | hlt
    · exact ⟨s', copyPages_of_le (le_refl _), h⟩
    have hrest : (size + 2 ^ 32 - n) % 2 ^ 32 = size - n := by omega
    have hnext : (p + n + 4096) % 2 ^ 32 = p + n + 4096 := by omega
    have hlength : 0 + min 4096 (size - n) ≤ 4096 := by omega
    obtain ⟨s₁, s₂, hretarget, hcopy, hcopied⟩ :=
      h.page hstart (by omega) (Nat.add_zero _) hlength turns
    rw [Access.copyPages, if_pos (by omega), hretarget, Option.bind_eq_bind, Option.bind_some, hrest,
      hcopy, Option.bind_some, hnext]
    rcases Nat.lt_or_ge (n + 4096) size with hmore | hlast
    · have hmin : min 4096 (size - n) = 4096 := by omega
      rw [hmin] at hcopied
      have hsecond : p + n + 4096 = p + (n + 4096) := Nat.add_assoc ..
      have hoffset : (n + 4096) % 2 ^ 32 = n + 4096 := by omega
      have hstart' : (p + (n + 4096)) % 4096 = 0 := by
        rw [← hsecond, Nat.add_mod_right]
        exact hstart
      rw [hoffset, hsecond]
      exact ih hcopied (by omega) hstart' (by omega)
    · -- the last chunk ends the range, though its page may go on
      have hmin : n + min 4096 (size - n) = size := by omega
      rw [hmin] at hcopied
      exact ⟨s₂, copyPages_of_le (by omega), hcopied⟩

/-- **A range that ends before the last page** is transferred, where the
first chunk is what of it lies in the first page. -/
theorem Copied.transfer (h : Copied direction s p 0 s') (hp : p < 2 ^ 32 - 4096)
    (hend : p + size ≤ 2 ^ 32 - 4096) :
    ∃ turns s'', transfer direction s' p size (min size (4096 - offset p)) turns = some s'' ∧
      Copied direction s p size s'' := by
  have hoffset : pageAddress p + offset p = p + 0 := by
    simp only [offset, pageAddress]
    omega
  have hpage : pageAddress p % 4096 = 0 ∧ offset p < 4096 := by
    simp only [offset, pageAddress]
    omega
  -- there is no more than a page for each byte
  refine ⟨size, ?_⟩
  have hlength : offset p + min size (4096 - offset p) ≤ 4096 := by omega
  obtain ⟨s₁, s₂, hretarget, hcopy, hcopied⟩ :=
    h.page hpage.1 (by omega) hoffset hlength size
  have hstop : (p + size) % 2 ^ 32 = p + size := by omega
  have hnext : (pageAddress p + 4096) % 2 ^ 32 = pageAddress p + 4096 := by omega
  rw [Access.transfer, hretarget, Option.bind_eq_bind, Option.bind_some, hcopy, Option.bind_some,
    hstop, hnext]
  rw [Nat.zero_add] at hcopied
  rcases Nat.lt_or_ge (4096 - offset p) size with hmore | hlast
  · have hmin : min size (4096 - offset p) = 4096 - offset p := by omega
    have hsecond : pageAddress p + 4096 = p + (4096 - offset p) := by omega
    rw [hmin] at hcopied
    rw [hmin, hsecond]
    exact hcopied.copyPages (by omega) hend (by omega) (by omega)
  · have hmin : min size (4096 - offset p) = size := by omega
    rw [hmin] at hcopied
    exact ⟨s₂, copyPages_of_le (by omega), hcopied⟩

/-! ## Where the loop goes wrong -/

/-- **Past the start of the last page the loop never ends**: the address of
the next page wraps before it gets to the end of the range. -/
theorem copyPages_eq_none (hstop : 2 ^ 32 - 4096 < stop) (hstart : start % 4096 = 0)
    (hfits : start < 2 ^ 32) :
    copyPages direction stop size turns start bufferOffset s = none := by
  induction turns generalizing start bufferOffset s with
  | zero => rw [copyPages, if_pos (by omega)]
  | succ turns ih =>
    rw [copyPages, if_pos (by omega)]
    rcases s.retarget start (turns + 1) with - | s₁
    · rfl
    rw [Option.bind_eq_bind, Option.bind_some]
    rcases memcpy direction s₁ 0 bufferOffset
      (min 4096 ((size + 2 ^ 32 - bufferOffset) % 2 ^ 32)) with - | s₂
    · rfl
    · exact ih (by omega) (by omega)

theorem copyBytes_touched (h : copyBytes direction virtualAddress bufferOffset length s = some s') :
    s'.touched = s.touched := by
  induction length generalizing s' with
  | zero =>
    cases h
    rfl
  | succ length ih =>
    obtain ⟨s₁, hbytes, hbyte⟩ := Option.bind_eq_some_iff.1 h
    obtain ⟨physical, -, hbyte⟩ := Option.bind_eq_some_iff.1 hbyte
    rw [← ih hbytes]
    cases direction <;> cases hbyte <;> rfl

/-- A copy is recorded. -/
theorem memcpy_touched {offset : ℕ}
    (h : memcpy direction s offset bufferOffset length = some s') :
    s'.touched = (bufferOffset, length) :: s.touched := copyBytes_touched h

theorem retarget_touched {pageAddress : ℕ} (h : s.retarget pageAddress turns = some s') :
    s'.touched = s.touched := by
  rw [retarget] at h
  obtain ⟨m, -, hm⟩ := Option.bind_eq_some_iff.1 h
  cases hm
  rfl

/-- What the loop does where it has a page to go. -/
theorem copyPages_step (hstart : start < stop)
    (h : copyPages direction stop size turns start bufferOffset s = some s') :
    ∃ turns' s₁, copyPages direction stop size turns' ((start + 4096) % 2 ^ 32)
        ((bufferOffset + 4096) % 2 ^ 32) s₁ = some s' ∧
      s₁.touched =
        (bufferOffset, min 4096 ((size + 2 ^ 32 - bufferOffset) % 2 ^ 32)) :: s.touched := by
  cases turns with
  | zero =>
    rw [copyPages, if_pos hstart] at h
    contradiction
  | succ turns =>
    rw [copyPages, if_pos hstart] at h
    obtain ⟨s₁, hretarget, h⟩ := Option.bind_eq_some_iff.1 h
    obtain ⟨s₂, hcopy, h⟩ := Option.bind_eq_some_iff.1 h
    refine ⟨turns, s₂, h, ?_⟩
    rw [memcpy_touched hcopy, retarget_touched hretarget]

/-- What was touched stays recorded. -/
theorem copyPages_touched {range : ℕ × ℕ} (hrange : range ∈ s.touched)
    (h : copyPages direction stop size turns start bufferOffset s = some s') :
    range ∈ s'.touched := by
  induction turns generalizing start bufferOffset s with
  | zero =>
    rw [copyPages] at h
    split at h
    · contradiction
    · exact Option.some.inj h ▸ hrange
  | succ turns ih =>
    rw [copyPages] at h
    split at h
    · obtain ⟨s₁, hretarget, h⟩ := Option.bind_eq_some_iff.1 h
      obtain ⟨s₂, hcopy, h⟩ := Option.bind_eq_some_iff.1 h
      refine ih ?_ h
      rw [memcpy_touched hcopy, retarget_touched hretarget]
      exact List.mem_cons_of_mem _ hrange
    · exact Option.some.inj h ▸ hrange

/-- **A transfer that returns** is of a range that ends before the last
page, and touched as much of the buffer as it took to be in the first. -/
theorem eq_of_transfer (hwrap : p + size < 2 ^ 32)
    (h : transfer direction s p size length turns = some s') :
    p + size ≤ 2 ^ 32 - 4096 ∧ (0, length) ∈ s'.touched ∧
      ∃ s₂, copyPages direction (p + size) size turns ((pageAddress p + 4096) % 2 ^ 32) length s₂ =
        some s' := by
  rw [transfer] at h
  obtain ⟨s₁, hretarget, h⟩ := Option.bind_eq_some_iff.1 h
  obtain ⟨s₂, hcopy, h⟩ := Option.bind_eq_some_iff.1 h
  rw [Nat.mod_eq_of_lt hwrap] at h
  have hfirst : (0, length) ∈ s₂.touched := by
    rw [memcpy_touched hcopy]
    exact List.mem_cons_self
  refine ⟨?_, copyPages_touched hfirst h, s₂, h⟩
  by_contra hcon
  -- a range that ends later would keep the loop going
  have haligned : (pageAddress p + 4096) % 2 ^ 32 % 4096 = 0 := by
    rw [pageAddress]
    omega
  have hstop : 2 ^ 32 - 4096 < p + size := by omega
  rw [copyPages_eq_none hstop haligned (Nat.mod_lt _ (by decide))] at h
  cases h

/-! ## The results -/

variable {scratch : Scratch} {bytes buffer : ℕ → BitVec 8}

/-- **Reading is exact where the range begins and ends before the last page
of the address space.** -/
theorem readExact_iff (hwrap : p + size < 2 ^ 32) :
    ReadExact (new scratch bytes buffer) p size ↔
      p < 2 ^ 32 - 4096 ∧ p + size ≤ 2 ^ 32 - 4096 := by
  constructor
  · rintro ⟨turns, s', hread, -, -, hwithin⟩
    obtain ⟨hend, -, s₂, hloop⟩ := eq_of_transfer hwrap hread
    refine ⟨?_, hend⟩
    by_contra hcon
    -- the empty range at the last page: the loop begins again at the first
    obtain rfl : size = 0 := by omega
    have hstart : (pageAddress p + 4096) % 2 ^ 32 = 0 := by
      rw [pageAddress]
      omega
    rw [hstart, Nat.zero_min] at hloop
    obtain ⟨turns₁, s₃, hloop₁, -⟩ := copyPages_step (by omega) hloop
    obtain ⟨turns₂, s₄, hloop₂, htouched⟩ := copyPages_step (by omega) hloop₁
    have hrange := copyPages_touched (by rw [htouched]; exact List.mem_cons_self) hloop₂
    exact absurd (hwithin _ hrange) (by omega)
  · rintro ⟨hp, hend⟩
    have hnew : Copied .read (new scratch bytes buffer) p 0 (new scratch bytes buffer) :=
      Copied.new scratch bytes buffer
    obtain ⟨turns, s', hread, hcopied⟩ := hnew.transfer hp hend
    have hcontents := hcopied.contents
    rw [contents, Prod.mk.injEq] at hcontents
    exact ⟨turns, s', hread, congrFun hcontents.2, hcontents.1, hcopied.within⟩

/-- **Writing is exact where moreover the range reaches the end of its
first page.** -/
theorem writeExact_iff (hwrap : p + size < 2 ^ 32) :
    WriteExact (new scratch bytes buffer) p size ↔
      p + size ≤ 2 ^ 32 - 4096 ∧ 4096 ≤ p % 4096 + size := by
  have hoffset : offset p = p % 4096 := by
    rw [offset, pageAddress]
    omega
  constructor
  · rintro ⟨turns, s', hwrite, -, -, hwithin⟩
    obtain ⟨hend, hfirst, -⟩ := eq_of_transfer hwrap hwrite
    have htouched := hwithin _ hfirst
    dsimp only at htouched
    exact ⟨hend, by omega⟩
  · rintro ⟨hend, hreaches⟩
    have hnew : Copied .write (new scratch bytes buffer) p 0 (new scratch bytes buffer) :=
      Copied.new scratch bytes buffer
    obtain ⟨turns, s', hwrite, hcopied⟩ := hnew.transfer (by omega) hend
    have hfirst : min size (4096 - offset p) = 4096 - offset p := by omega
    rw [hfirst] at hwrite
    have hcontents := hcopied.contents
    rw [contents, Prod.mk.injEq] at hcontents
    exact ⟨turns, s', hwrite, congrFun hcontents.1, hcontents.2, hcopied.within⟩

/-- **Access to a physical range is exact**, reading and writing, under
these conditions only. -/
theorem exact_access_iff (scratch : Scratch) (bytes buffer : ℕ → BitVec 8) (p size : ℕ)
    (hwrap : p + size < 2 ^ 32) :
    (WriteExact (new scratch bytes buffer) p size ↔
        p + size ≤ 2 ^ 32 - 4096 ∧ 4096 ≤ p % 4096 + size) ∧
      (ReadExact (new scratch bytes buffer) p size ↔
        p < 2 ^ 32 - 4096 ∧ p + size ≤ 2 ^ 32 - 4096) :=
  ⟨writeExact_iff hwrap, readExact_iff hwrap⟩

theorem firstTables_aligned : 0x200000 % 4096 = 0 := by decide

/-- The first page of the high cursor, with one table begun. -/
def firstScratch : Scratch where
  kernelMapping :=
    (Mapping.new ⟨0x200000, 4, firstTables_aligned, by decide⟩ fun _ _ => default).startTable 1023
  virtualScratchRecord := 0xffffe000
  aligned := by decide
  below := by decide
  hasTable := by
    unfold Mapping.HasTable
    decide

/-- A range of three pages is written and read. -/
theorem exact_access_iff_pages :
    (WriteExact (new firstScratch (fun _ => 0) fun _ => 1) 0x1800 8192 ↔
        0x1800 + 8192 ≤ 2 ^ 32 - 4096 ∧ 4096 ≤ 0x1800 % 4096 + 8192) ∧
      (ReadExact (new firstScratch (fun _ => 0) fun _ => 1) 0x1800 8192 ↔
        0x1800 < 2 ^ 32 - 4096 ∧ 0x1800 + 8192 ≤ 2 ^ 32 - 4096) :=
  exact_access_iff firstScratch (fun _ => 0) (fun _ => 1) 0x1800 8192 (by decide)

/-- **Two bytes in one page are written with all that follows them in it**,
and a range that reaches into the last page is never done. -/
theorem not_exact_access :
    ¬ WriteExact (new firstScratch (fun _ => 0) fun _ => 1) 0x1000 2 ∧
      ¬ ReadExact (new firstScratch (fun _ => 0) fun _ => 1) 0xfffff000 1 := by
  rw [writeExact_iff (by decide), readExact_iff (by decide)]
  decide

end Access

end Memory

end Uberos
