import Uberos.MemoryPool.Extents
/-!
# What a request comes to

`malloc` rounds the size up to the alignment and keeps it in an
`unsigned`. A block is found, or pages are added, for what is left of it:
the block is never smaller than that, and where it is not split it is
larger by less than a header. Whether it holds the size is decided by the
rounding alone. On either width of word a size is whole up to the last
multiple of the alignment below 4 GiB.
-/

namespace Uberos

open Library

namespace Target

variable {T : Target} {size : ℕ}

theorem wordSize_eq (T : Target) :
    T.wordSize = 2 ^ 32 ∧ T.alignment = 4 ∨ T.wordSize = 2 ^ 64 ∧ T.alignment = 8 := by
  cases T <;> simp [wordSize, alignment, wordBytes]

theorem unsigned_le_wordSize (T : Target) : 2 ^ 32 ≤ T.wordSize := by
  rcases T.wordSize_eq with ⟨h, -⟩ | ⟨h, -⟩
  · omega
  · omega

theorem pageSize_eq (T : Target) : T.pageSize = 4096 ∨ T.pageSize = 16384 := by
  cases T <;> simp [pageSize]

theorem pageSize_lt_wordSize (T : Target) : T.pageSize < T.wordSize := by
  have hword := T.unsigned_le_wordSize
  rcases T.pageSize_eq with h | h
  · omega
  · omega

theorem alignment_le_headerSize (T : Target) : T.alignment ≤ T.headerSize := by
  unfold headerSize alignment
  omega

theorem requiredSize_lt (T : Target) (size : ℕ) : T.requiredSize size < 2 ^ 32 :=
  Nat.mod_lt _ (by omega)

/-- **A whole size**: rounded up to the alignment it is less than 4 GiB. -/
def Whole (T : Target) (size : ℕ) : Prop := size + T.alignment ≤ 2 ^ 32

instance (T : Target) (size : ℕ) : Decidable (T.Whole size) := inferInstanceAs (Decidable (_ ≤ _))

/-- A whole size is not cut. -/
theorem Whole.le_requiredSize (h : T.Whole size) : size ≤ T.requiredSize size := by
  obtain ⟨rounded, hle, hlt, -, hrequired⟩ := T.requiredSize_spec size
  unfold Whole at h
  rw [hrequired, Nat.mod_eq_of_lt (by omega)]
  exact hle

/-- **Any other loses at least 4 GiB**, its rounding apart. -/
theorem requiredSize_of_not_whole (h : ¬ T.Whole size) :
    T.requiredSize size + 2 ^ 32 < size + T.alignment := by
  obtain ⟨rounded, hle, hlt, hdvd, hrequired⟩ := T.requiredSize_spec size
  have hpos := T.alignment_pos
  unfold Whole at h
  -- both are multiples of the alignment
  have hwrap : 2 ^ 32 ≤ rounded := by
    by_contra hcon
    obtain ⟨q, hq⟩ := T.alignment_dvd_unsigned
    obtain ⟨p, hp⟩ := hdvd
    have hnext : T.alignment * (p + 1) ≤ T.alignment * q :=
      Nat.mul_le_mul_left _ (Nat.lt_of_mul_lt_mul_left (a := T.alignment) (by omega))
    rw [Nat.mul_succ] at hnext
    omega
  -- what is left is less than 4 GiB, and 4 GiB at least are gone
  have hmod := Nat.mod_lt rounded (by omega : 0 < 2 ^ 32)
  have hdiv := Nat.div_add_mod rounded (2 ^ 32)
  have hone : 1 ≤ rounded / 2 ^ 32 := (Nat.one_le_div_iff (by omega)).2 hwrap
  omega

/-- What is left of a word leaves room for a header and two pages. -/
theorem fits_of_not_whole (hsize : size < T.wordSize) (h : ¬ T.Whole size) :
    T.headerSize + T.requiredSize size + 2 * T.pageSize < T.wordSize := by
  have hleft := requiredSize_of_not_whole h
  have hlt := T.requiredSize_lt size
  have hpage := T.headerSize_lt_pageSize
  rcases T.wordSize_eq with ⟨hword, halign⟩ | ⟨hword, halign⟩
  · rcases T.pageSize_eq with hpages | hpages <;> omega
  · rcases T.pageSize_eq with hpages | hpages <;> omega

/-- What is asked for again is not rounded again. -/
theorem requiredSize_requiredSize (T : Target) (size : ℕ) :
    T.requiredSize (T.requiredSize size) = T.requiredSize size := by
  have hlt := T.requiredSize_lt size
  have hword := T.unsigned_le_wordSize
  have hzero := Nat.mod_eq_zero_of_dvd (T.alignment_dvd_requiredSize size)
  have halign : T.align (T.requiredSize size) = T.requiredSize size := by
    rw [align, if_neg (not_not_intro hzero), Nat.add_zero, Nat.mod_eq_of_lt (by omega)]
  rw [requiredSize, halign, Nat.mod_eq_of_lt hlt]

end Target

/-- **No short block**: what is returned holds the size. -/
def NoShort (size : ℕ) (result : Option Block) : Prop := ∀ block ∈ result, size ≤ block.size

instance (size : ℕ) (result : Option Block) : Decidable (NoShort size result) :=
  inferInstanceAs (Decidable (∀ block ∈ result, _))

namespace MemoryPool

variable {T : Target} {pool : MemoryPool} {b : Block} {others : List Block}
variable {size requiredSize : ℕ}

/-- A block that is taken holds what is left of the request. -/
theorem le_takeBlock (hle : requiredSize ≤ b.size) :
    requiredSize ≤ (takeBlock T pool requiredSize b others).1.size := by
  unfold takeBlock
  dsimp only
  split
  · exact le_rfl
  · exact hle

/-- **And little more**: what would be a block is split off. -/
theorem takeBlock_le (hlt : b.size < requiredSize + 2 ^ 32) :
    (takeBlock T pool requiredSize b others).1.size ≤ requiredSize + T.headerSize := by
  have halign := T.alignment_le_headerSize
  unfold takeBlock
  dsimp only
  split
  · exact Nat.le_add_right _ _
  · rename_i hsplit
    unfold Splits remainingSize at hsplit
    rw [Nat.mod_eq_of_lt (by omega)] at hsplit
    dsimp only
    omega

/-- **`MemoryPool::malloc` holds what it searched for**, in any state. -/
theorem noShort_malloc (pool : MemoryPool) (size : ℕ) :
    NoShort (T.requiredSize size) (pool.malloc T size).1 := by
  intro block hblock
  rcases malloc_cases (T := T) pool size with ⟨b, others, hsearch, hmalloc⟩ | ⟨-, hmalloc⟩
  · rw [hmalloc] at hblock
    obtain rfl := Option.some.inj hblock
    exact le_takeBlock (search_some hsearch).1
  · rw [hmalloc] at hblock
    cases hblock

/-- **It returns a block wherever one holds that.** -/
theorem malloc_ne_none (hmem : b ∈ pool.availableBlocks) (hle : T.requiredSize size ≤ b.size) :
    (pool.malloc T size).1 ≠ none := by
  intro hnone
  rcases malloc_cases (T := T) pool size with ⟨b', others, -, hmalloc⟩ | ⟨hsearch, -⟩
  · rw [hmalloc] at hnone
    cases hnone
  · exact absurd hle (Nat.not_le.2 (search_none hsearch b hmem))

end MemoryPool

namespace Heap

open MemoryPool

variable {T : Target} {s s' : Heap} {size requiredSize : ℕ} {grants : List ℕ}

/-! ## In every state -/

theorem superMalloc_fst (T : Target) (s : Heap) (size : ℕ) :
    (superMalloc T s size).1 = (s.pool.malloc T size).1 := by
  unfold superMalloc
  rcases s.pool.malloc T size with ⟨_ | block, pool⟩
  · rfl
  · rfl

theorem noShort_superMalloc (s : Heap) (size : ℕ) :
    NoShort (T.requiredSize size) (superMalloc T s size).1 := by
  rw [superMalloc_fst]
  exact noShort_malloc s.pool size

/-- The loop returns what one of its calls does. -/
theorem noShort_mallocLoop (requiredSize : ℕ) (grants : List ℕ) (s : Heap) :
    NoShort (T.requiredSize requiredSize) (mallocLoop T requiredSize grants s).1 := by
  -- by induction on the runs that are granted, one for each turn
  induction grants generalizing s with
  | nil => exact noShort_superMalloc s requiredSize
  | cons address grants ih =>
    have hfirst := noShort_superMalloc (T := T) s requiredSize
    rw [mallocLoop]
    split
    · rename_i block s' hcall
      rwa [hcall] at hfirst
    · split
      · exact ih _
      · intro block hblock
        cases hblock

/-- **`PagedPool::malloc` holds what is left of the request**, whatever the
heap and the page allocator. -/
theorem noShort_heapMalloc (s : Heap) (size : ℕ) (grants : List ℕ) :
    NoShort (T.requiredSize size) (malloc T s size grants).1 := by
  have hloop := fun grants s => noShort_mallocLoop (T := T) (T.requiredSize size) grants s
  rw [T.requiredSize_requiredSize] at hloop
  have hnone : NoShort (T.requiredSize size) none := by
    intro block hblock
    cases hblock
  unfold malloc
  dsimp only
  split
  · split
    · exact hnone
    · split
      · exact hloop _ _
      · exact hnone
  · exact hloop _ _

/-! ## Pages for a request -/

/-- The number of pages of a request is an `unsigned`. -/
theorem pageCount_lt (hlt : requiredSize < 2 ^ 32) : pageCount T requiredSize < 2 ^ 32 := by
  have hpage := T.headerSize_lt_pageSize
  unfold pageCount
  split
  · have hle := Nat.mod_le (T.headerSize + requiredSize + T.pageSize - 1) T.wordSize
    have hdiv := Nat.div_le_div_right (c := T.pageSize) hle
    rcases T.pageSize_eq with h | h <;> rw [h] at hpage hle hdiv ⊢ <;> omega
  · omega

/-- **The pages that are added hold the request**, where the request and a
header do not wrap. -/
theorem pageCount_spec (hfit : T.headerSize + requiredSize < T.wordSize)
    (hlt : requiredSize < 2 ^ 32) (hsome : 1 ≤ pageCount T requiredSize % 2 ^ 32) :
    T.headerSize + requiredSize ≤ T.pageSize * (pageCount T requiredSize % 2 ^ 32) ∧
      T.pageSize * (pageCount T requiredSize % 2 ^ 32) < T.wordSize ∧
      T.pageSize * (pageCount T requiredSize % 2 ^ 32) <
        T.headerSize + requiredSize + T.pageSize := by
  have hpage := T.headerSize_lt_pageSize
  have hword := T.pageSize_lt_wordSize
  rw [Nat.mod_eq_of_lt (pageCount_lt hlt)] at hsome ⊢
  unfold pageCount at hsome ⊢
  rw [Nat.mod_eq_of_lt hfit] at hsome ⊢
  split at hsome
  · rename_i hlarge
    rw [if_pos hlarge]
    have hsum : T.headerSize + requiredSize + T.pageSize - 1 < T.wordSize := by
      -- a sum that wraps is no page
      by_contra hwraps
      have hwrapped : (T.headerSize + requiredSize + T.pageSize - 1) % T.wordSize < T.pageSize := by
        rw [Nat.mod_eq_sub_mod (Nat.not_lt.1 hwraps), Nat.mod_eq_of_lt (by omega)]
        omega
      rw [Nat.div_eq_of_lt hwrapped] at hsome
      exact absurd hsome (by decide)
    rw [Nat.mod_eq_of_lt hsum]
    have hdiv := Nat.div_add_mod (T.headerSize + requiredSize + T.pageSize - 1) T.pageSize
    have hmod := Nat.mod_lt (T.headerSize + requiredSize + T.pageSize - 1)
      (by omega : 0 < T.pageSize)
    omega
  · rename_i hsmall
    have hpos := T.headerSize_pos
    rw [if_neg hsmall, Nat.mul_one]
    omega

/-- **A run added for a request is a free block that holds it**, and less
than a page more. -/
theorem addPages_spec (hfit : T.headerSize + requiredSize < T.wordSize)
    (hlt : requiredSize < 2 ^ 32) {address : ℕ}
    (hadd : addPages T s (pageCount T requiredSize) address = some s') :
    ∃ b : Block, s'.pool.availableBlocks.Perm (b :: s.pool.availableBlocks) ∧
      requiredSize ≤ b.size ∧ b.size < requiredSize + T.pageSize := by
  unfold addPages at hadd
  split at hadd
  · cases hadd
  · rename_i hsome
    obtain ⟨hle, hword, hmore⟩ := pageCount_spec hfit hlt (Nat.not_lt.1 hsome)
    obtain rfl := Option.some.inj hadd
    refine ⟨_, claimBlock_perm _ _, ?_⟩
    have hsize : (T.pageSize * (pageCount T requiredSize % 2 ^ 32) + T.wordSize - T.headerSize) %
        T.wordSize = T.pageSize * (pageCount T requiredSize % 2 ^ 32) - T.headerSize :=
      T.sub_wordSize (by omega) (by omega)
    simp only [Block.place, Nat.mod_eq_of_lt hword, hsize]
    omega

/-- **The retry after pages were added succeeds.** -/
theorem superMalloc_of_addPages (hfit : T.headerSize + T.requiredSize size < T.wordSize)
    {address : ℕ} (hadd : addPages T s (pageCount T (T.requiredSize size)) address = some s') :
    (superMalloc T s' (T.requiredSize size)).1 ≠ none := by
  obtain ⟨b, hperm, hle, -⟩ := addPages_spec hfit (T.requiredSize_lt size) hadd
  rw [superMalloc_fst]
  refine malloc_ne_none (hperm.mem_iff.2 List.mem_cons_self) ?_
  rwa [T.requiredSize_requiredSize]

/-! ## A size that is cut -/

/-- A state that the users and the page allocator can bring the heap to,
those between the calls of an operation included. -/
def Reached (T : Target) (s : Heap) : Prop :=
  ∃ calls, Along (call T) (Legal T) empty calls ∧ run (call T) empty calls = s

theorem Reached.sound (h : Reached T s) : Sound T s := by
  obtain ⟨calls, hlegal, rfl⟩ := h
  exact run_invariant hlegal (sound_empty T) fun _ _ hs hc => hs.call hc

/-- **A run of pages for what is left of a size**, added to an empty heap. -/
def stocked (T : Target) (size : ℕ) : Heap :=
  call T empty (.addPages (pageCount T (T.requiredSize size)) T.pageSize)

theorem one_le_pageCount (hfit : T.headerSize + requiredSize + T.pageSize < T.wordSize)
    (hlt : requiredSize < 2 ^ 32) : 1 ≤ pageCount T requiredSize % 2 ^ 32 := by
  have hpage := T.headerSize_lt_pageSize
  rw [Nat.mod_eq_of_lt (pageCount_lt hlt)]
  unfold pageCount
  split
  · rename_i hlarge
    rw [Nat.mod_eq_of_lt (by omega)] at hlarge
    rw [Nat.mod_eq_of_lt (by omega)]
    exact (Nat.one_le_div_iff (by omega)).2 (by omega)
  · exact le_rfl

/-- The run is all that is free. -/
theorem stocked_spec (hsize : size < T.wordSize) (h : ¬ T.Whole size) :
    addPages T empty (pageCount T (T.requiredSize size)) T.pageSize = some (stocked T size) ∧
      Legal T empty (.addPages (pageCount T (T.requiredSize size)) T.pageSize) ∧
      ∃ b : Block, (stocked T size).pool.availableBlocks = [b] ∧ T.requiredSize size ≤ b.size ∧
        b.size < T.requiredSize size + T.pageSize := by
  have hfit := Target.fits_of_not_whole hsize h
  have hlt := T.requiredSize_lt size
  have hpage := T.headerSize_lt_pageSize
  have hsome : 1 ≤ pageCount T (T.requiredSize size) % 2 ^ 32 :=
    one_le_pageCount (by omega) hlt
  obtain ⟨s, hadd⟩ : ∃ s, addPages T empty (pageCount T (T.requiredSize size)) T.pageSize =
      some s := by
    rw [addPages, if_neg (Nat.not_lt.2 hsome)]
    exact ⟨_, rfl⟩
  obtain rfl : stocked T size = s := by rw [stocked, call, hadd, Option.getD_some]
  obtain ⟨b, hperm, hle, hmore⟩ := addPages_spec (by omega) hlt hadd
  refine ⟨hadd, fun _ => ?_, b, List.perm_singleton.1 hperm, hle, hmore⟩
  obtain ⟨-, -, hrun⟩ := pageCount_spec (by omega) hlt hsome
  refine ⟨by dsimp only; omega, Nat.mod_self _, ?_, fun before hbefore => ?_⟩
  · dsimp only [Extent.stop]
    omega
  · cases hbefore

/-- **It is handed out for the size, and does not hold it.** -/
theorem short_of_stocked (hsize : size < T.wordSize) (h : ¬ T.Whole size) {request : ℕ}
    (hrequest : T.requiredSize request = T.requiredSize size) :
    ¬ NoShort size ((stocked T size).pool.malloc T request).1 := by
  obtain ⟨-, -, b, hfree, hle, hmore⟩ := stocked_spec hsize h
  have hleft := Target.requiredSize_of_not_whole h
  have hheader := T.alignment_le_headerSize
  have hpage := T.headerSize_lt_pageSize
  have hsmall : T.headerSize + T.alignment < 2 ^ 32 := by
    rcases T.pageSize_eq with hpages | hpages <;> omega
  -- the run is found, since it holds what is left of the size
  rcases malloc_cases (T := T) (stocked T size).pool request with
    ⟨block, others, hsearch, hmalloc⟩ | ⟨hsearch, -⟩
  · obtain ⟨hheld, hperm⟩ := search_some hsearch
    obtain rfl : block = b := by
      have hmem := hperm.mem_iff.2 List.mem_cons_self
      rwa [hfree, List.mem_singleton] at hmem
    rw [hmalloc, hrequest]
    intro hnoShort
    have htaken := hnoShort _ rfl
    have hbound : (takeBlock T (stocked T size).pool (T.requiredSize size) block others).1.size ≤
        T.requiredSize size + T.headerSize :=
      takeBlock_le (by rcases T.pageSize_eq with hpages | hpages <;> omega)
    omega
  · have hnone := search_none hsearch b (by rw [hfree]; exact List.mem_singleton_self b)
    omega

/-- A heap without blocks has none to hand out. -/
theorem superMalloc_empty (T : Target) (size : ℕ) : superMalloc T empty size = (none, empty) := by
  rcases malloc_cases (T := T) empty.pool size with ⟨block, others, hsearch, -⟩ | ⟨-, hmalloc⟩
  · obtain ⟨-, hperm⟩ := search_some hsearch
    exact absurd (hperm.mem_iff.2 List.mem_cons_self) List.not_mem_nil
  · rw [superMalloc, hmalloc]
    rfl

/-- **`PagedPool::malloc` adds the run and asks for it.** -/
theorem malloc_empty (hsize : size < T.wordSize) (h : ¬ T.Whole size) :
    malloc T empty size [T.pageSize] = superMalloc T (stocked T size) (T.requiredSize size) := by
  obtain ⟨hadd, -, -⟩ := stocked_spec hsize h
  unfold malloc
  dsimp only
  split
  · rw [hadd]
    rfl
  · rw [mallocLoop, superMalloc_empty]
    dsimp only
    rw [hadd]
    rfl

/-- Its calls are legal. -/
theorem legal_malloc_empty (hsize : size < T.wordSize) (h : ¬ T.Whole size) :
    Each T (Legal T) empty (.malloc size [T.pageSize]) := by
  obtain ⟨hadd, hlegal, -⟩ := stocked_spec hsize h
  rw [Each, calls]
  split
  · rw [hadd]
    exact ⟨hlegal, trivial, trivial⟩
  · rw [loopCalls, superMalloc_empty]
    dsimp only
    rw [hadd]
    refine ⟨trivial, ?_⟩
    rw [call, superMalloc_empty]
    exact ⟨hlegal, trivial, trivial⟩

/-- **No block is short of a size exactly when the size is whole**, of
either `malloc`: one that is whole is held in every state of the heap, and
for any other word there is a state in which it is not. -/
theorem noShort_iff_whole (T : Target) (hsize : size < T.wordSize) :
    ((∀ s, Reached T s → NoShort size (s.pool.malloc T size).1) ↔ T.Whole size) ∧
      ((∀ s grants, Reached T s → Each T (Legal T) s (.malloc size grants) →
        NoShort size (malloc T s size grants).1) ↔ T.Whole size) ∧
      (T.Whole size → ∀ s grants,
        NoShort size (s.pool.malloc T size).1 ∧ NoShort size (malloc T s size grants).1) := by
  have hwhole : T.Whole size → ∀ s grants,
      NoShort size (s.pool.malloc T size).1 ∧ NoShort size (malloc T s size grants).1 := by
    intro h s grants
    have hle := h.le_requiredSize
    exact ⟨fun block hblock => hle.trans (noShort_malloc s.pool size block hblock),
      fun block hblock => hle.trans (noShort_heapMalloc s size grants block hblock)⟩
  refine ⟨⟨fun hall => ?_, fun h s _ => (hwhole h s []).1⟩,
    ⟨fun hall => ?_, fun h s grants _ _ => (hwhole h s grants).2⟩, hwhole⟩
  -- a single call of `add_pages` leads to the state
  · by_contra h
    obtain ⟨-, hlegal, -⟩ := stocked_spec hsize h
    exact short_of_stocked hsize h rfl (hall _ ⟨[_], ⟨hlegal, trivial⟩, rfl⟩)
  · by_contra h
    have hheld := hall empty [T.pageSize] ⟨[], trivial, rfl⟩ (legal_malloc_empty hsize h)
    rw [malloc_empty hsize h, superMalloc_fst] at hheld
    exact short_of_stocked hsize h (T.requiredSize_requiredSize size) hheld

/-- The last whole size of a 32-bit target. -/
theorem noShort_iff_whole_last :
    ((∀ s, Reached .x86_32 s → NoShort 0xfffffffc (s.pool.malloc .x86_32 0xfffffffc).1) ↔
        Target.x86_32.Whole 0xfffffffc) ∧
      ((∀ s grants, Reached .x86_32 s → Each .x86_32 (Legal .x86_32) s (.malloc 0xfffffffc grants) →
        NoShort 0xfffffffc (malloc .x86_32 s 0xfffffffc grants).1) ↔
        Target.x86_32.Whole 0xfffffffc) ∧
      (Target.x86_32.Whole 0xfffffffc → ∀ s grants,
        NoShort 0xfffffffc (s.pool.malloc .x86_32 0xfffffffc).1 ∧
          NoShort 0xfffffffc (malloc .x86_32 s 0xfffffffc grants).1) :=
  noShort_iff_whole .x86_32 (by decide)

/-- **A byte more is given none**, and 4 GiB and 8 bytes are given 8. -/
theorem not_noShort :
    Each .x86_32 (Legal .x86_32) empty (.malloc 0xfffffffd [0x1000]) ∧
      (malloc .x86_32 empty 0xfffffffd [0x1000]).1 = some ⟨0x1000, 0⟩ ∧
      ¬ NoShort 0xfffffffd (malloc .x86_32 empty 0xfffffffd [0x1000]).1 ∧
      Each .x86_64 (Legal .x86_64) empty (.malloc 0x100000008 [0x1000]) ∧
      (malloc .x86_64 empty 0x100000008 [0x1000]).1 = some ⟨0x1000, 8⟩ ∧
      ¬ NoShort 0x100000008 (malloc .x86_64 empty 0x100000008 [0x1000]).1 := by
  decide +kernel

end Heap

end Uberos
