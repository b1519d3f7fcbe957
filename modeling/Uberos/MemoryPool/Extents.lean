import Uberos.MemoryPool.Calls
/-!
# The blocks partition the pages

Every byte of the pages added to the heap belongs to one block. A call
moves, splits, merges and adds extents, none of which loses a byte, with
one exception: the remainder of a split is an `unsigned`, so on a 64-bit
target a tail of 4 GiB or more is cut to its size modulo 4 GiB and the
rest of it belongs to no block. The blocks are disjoint in any case.
-/

namespace Uberos

open Library

namespace Target

variable (T : Target)

theorem headerSize_eq : T.headerSize = 12 ∨ T.headerSize = 24 := by
  cases T <;> simp [headerSize, wordBytes]

theorem headerSize_pos : 0 < T.headerSize := by rcases T.headerSize_eq with h | h <;> omega

theorem headerSize_lt_wordSize : T.headerSize < T.wordSize := by
  cases T <;> simp [headerSize, wordBytes, wordSize]

theorem headerSize_lt_pageSize : T.headerSize < T.pageSize := by
  cases T <;> simp [headerSize, wordBytes, pageSize]

theorem alignment_dvd_headerSize : T.alignment ∣ T.headerSize := Dvd.intro_left 3 rfl

theorem alignment_dvd_pageSize : T.alignment ∣ T.pageSize := by
  cases T <;> decide

theorem alignment_pos : 0 < T.alignment := by
  cases T <;> decide

theorem alignment_dvd_unsigned : T.alignment ∣ 2 ^ 32 := by cases T <;> decide

theorem unsigned_dvd_wordSize : 2 ^ 32 ∣ T.wordSize := by cases T <;> decide

/-- **The rounded size, and what an `unsigned` leaves of it.** -/
theorem requiredSize_spec (T : Target) (size : ℕ) :
    ∃ rounded, size ≤ rounded ∧ rounded < size + T.alignment ∧ T.alignment ∣ rounded ∧
      T.requiredSize size = rounded % 2 ^ 32 := by
  have hlt := Nat.mod_lt size T.alignment_pos
  refine ⟨_, ?_, ?_, ?_, Nat.mod_mod_of_dvd _ T.unsigned_dvd_wordSize⟩
  · omega
  · split <;> omega
  · rw [Nat.dvd_iff_mod_eq_zero]
    split
    · have hdiv := Nat.div_add_mod size T.alignment
      rw [show size + (T.alignment - size % T.alignment) =
        T.alignment * (size / T.alignment + 1) by rw [Nat.mul_add]; omega]
      exact Nat.mul_mod_right _ _
    · rename_i hzero
      simpa using hzero

/-- Alignment survives a word's and an `unsigned`'s wrap. -/
theorem alignment_dvd_requiredSize (size : ℕ) : T.alignment ∣ T.requiredSize size := by
  obtain ⟨rounded, -, -, hdvd, hrequired⟩ := T.requiredSize_spec size
  rw [hrequired]
  exact (Nat.dvd_mod_iff T.alignment_dvd_unsigned).2 hdvd

/-- A word's subtraction where it does not wrap. -/
theorem sub_wordSize {a b : ℕ} (hle : b ≤ a) (hlt : a < T.wordSize + b) :
    (a + T.wordSize - b) % T.wordSize = a - b := by
  rw [show a + T.wordSize - b = a - b + T.wordSize by omega, Nat.add_mod_right,
    Nat.mod_eq_of_lt (by omega)]

end Target

namespace Heap

open MemoryPool

variable {T : Target} {s : Heap} {c : Call} {op : Op} {bs bs' : List Block} {b other : Block} {x : ℕ}

/-- The extents of the blocks in use and free. -/
def extents (T : Target) (s : Heap) : List Extent := (blocks s).map (Block.extent T)

/-- **What is asked of a state**: the blocks are disjoint, cover
the pages and nothing else, and are aligned. -/
def Partitioned (T : Target) (s : Heap) : Prop :=
  (extents T s).Pairwise Extent.Apart ∧
    (∀ x, (∃ e ∈ extents T s, x ∈ e) ↔ ∃ p ∈ s.pages, x ∈ p) ∧
    ∀ b ∈ blocks s, b.addr % T.alignment = 0

/-- **The remainder of a split fits an `unsigned`.** -/
def Fits (T : Target) (s : Heap) : Call → Prop
  | .superMalloc size =>
    match search T (T.requiredSize size) s.pool.availableBlocks with
    | some (block, _) =>
      Splits T (T.requiredSize size) block → block.size - T.requiredSize size < 2 ^ 32
    | none => True
  | .addPages _ _ | .free _ | .compact => True

instance (s : Heap) : ∀ c, Decidable (Fits T s c)
  | .superMalloc size => by
    unfold Fits
    dsimp only
    split <;> infer_instance
  | .addPages _ _ | .free _ | .compact => inferInstanceAs (Decidable True)

/-- What every run keeps, whatever its splits: disjoint blocks in
disjoint pages, all of them in the address space. -/
structure Sound (T : Target) (s : Heap) : Prop where
  once : ∀ x, cover s.pages x ≤ 1
  within : ∀ p ∈ s.pages, 0 < p.start ∧ p.stop ≤ T.wordSize
  covered : ∀ x, cover (extents T s) x ≤ cover s.pages x
  aligned : ∀ b ∈ blocks s, T.alignment ∣ b.addr

theorem sound_empty (T : Target) : Sound T empty where
  once := fun _ => Nat.zero_le _
  within := fun _ hp => absurd hp List.not_mem_nil
  covered := fun _ => le_rfl
  aligned := fun _ hb => absurd hb List.not_mem_nil

/-! ## Blocks in the address space -/

/-- The points covered are addresses, and none is null. -/
def InSpace (T : Target) (es : List Extent) : Prop :=
  ∀ x, 0 < cover es x → 0 < x ∧ x < T.wordSize

theorem Sound.inSpace (h : Sound T s) : InSpace T (extents T s) := by
  intro x hx
  obtain ⟨p, hp, hmem⟩ := cover_pos_iff.1 (lt_of_lt_of_le hx (h.covered x))
  obtain ⟨hpos, hstop⟩ := h.within p hp
  rw [Extent.mem_def] at hmem
  rw [Extent.stop] at hstop
  omega

/-- A block of blocks in the address space does not wrap. -/
theorem InSpace.block (h : InSpace T (bs.map (Block.extent T))) (hb : b ∈ bs) :
    0 < b.addr ∧ b.addr + T.headerSize + b.size ≤ T.wordSize := by
  have hpos := T.headerSize_pos
  have hmem := List.mem_map_of_mem (f := Block.extent T) hb
  have hfirst := h b.addr (cover_pos hmem ⟨le_rfl, by simp only [Block.extent, Extent.stop]; omega⟩)
  have hlast := h (b.addr + T.headerSize + b.size - 1)
    (cover_pos hmem ⟨by simp only [Block.extent]; omega,
      by simp only [Block.extent, Extent.stop]; omega⟩)
  omega

theorem Sound.block (h : Sound T s) (hb : b ∈ blocks s) :
    0 < b.addr ∧ b.addr + T.headerSize + b.size ≤ T.wordSize := h.inSpace.block hb

/-! ## Merging and splitting -/

/-- **Merging a block into the one it follows moves no byte.** -/
theorem cover_merge {rest : List Block} (hnext : other.addr = b.next T)
    (h : InSpace T ((b :: other :: rest).map (Block.extent T))) :
    cover ((b.merge T other :: rest).map (Block.extent T)) x =
      cover ((b :: other :: rest).map (Block.extent T)) x := by
  have hb := h.block (b := b) (by simp)
  have hother := h.block (b := other) (by simp)
  have haddr : other.addr = b.addr + (T.headerSize + b.size) := by
    simp only [Block.next, Block.data, Nat.mod_add_mod] at hnext
    rcases Nat.lt_or_ge (b.addr + T.headerSize + b.size) T.wordSize with hlt | hge
    · rw [Nat.mod_eq_of_lt hlt] at hnext
      omega
    · rw [show b.addr + T.headerSize + b.size = T.wordSize by omega, Nat.mod_self] at hnext
      omega
  have hsize : (b.size + (T.headerSize + other.size)) % T.wordSize =
      b.size + (T.headerSize + other.size) := Nat.mod_eq_of_lt (by omega)
  simp only [List.map_cons, Block.merge, Block.extent, hsize, haddr]
  rw [← cover_split, Nat.add_assoc]

/-- **A merged list covers what the list did.** -/
theorem cover_merged (h : Merged T bs bs') (hspace : InSpace T (bs.map (Block.extent T))) :
    ∀ x, cover (bs'.map (Block.extent T)) x = cover (bs.map (Block.extent T)) x := by
  induction h with
  | perm hperm => exact fun x => cover_perm (hperm.map _).symm
  | merge hperm hnext _ ih =>
    have heq : ∀ x, _ = _ := fun x => cover_perm (x := x) (hperm.map (Block.extent T))
    have hspace' : InSpace T (_ : List Extent) := fun x hx => hspace x (by rw [heq]; exact hx)
    have hmerge := fun x => cover_merge (x := x) hnext hspace'
    intro x
    rw [ih (fun x hx => hspace' x (by rw [← hmerge]; exact hx)), hmerge, heq]

/-- And its blocks stand where blocks stood. -/
theorem Merged.addr (h : Merged T bs bs') (hb : b ∈ bs') : ∃ a ∈ bs, a.addr = b.addr := by
  induction h with
  | perm hperm => exact ⟨b, hperm.mem_iff.2 hb, rfl⟩
  | merge hperm hnext _ ih =>
    obtain ⟨a, ha, haddr⟩ := ih hb
    rcases List.mem_cons.1 ha with rfl | ha
    · exact ⟨_, hperm.mem_iff.2 (List.mem_cons_self ..), haddr⟩
    · exact ⟨a, hperm.mem_iff.2 (List.mem_cons_of_mem _ (List.mem_cons_of_mem _ ha)), haddr⟩

/-- The bytes a split leaves to no block. -/
def lost (T : Target) (requiredSize : ℕ) (b : Block) : Extent :=
  ⟨b.addr + (T.headerSize + requiredSize) + remainingSize requiredSize b,
    b.size - requiredSize - remainingSize requiredSize b⟩

/-- The tail of a split block starts after the block and is what remains
of it. -/
theorem remainingSlot_eq {requiredSize : ℕ} (hsplit : Splits T requiredSize b)
    (hle : requiredSize ≤ b.size) (hstop : b.addr + T.headerSize + b.size ≤ T.wordSize) :
    remainingSlot T requiredSize b = ⟨b.addr + T.headerSize + requiredSize,
      remainingSize requiredSize b - T.headerSize⟩ := by
  have hrem : remainingSize requiredSize b ≤ b.size - requiredSize := Nat.mod_le _ _
  have hpos := T.headerSize_pos
  have hheader := hsplit.1
  have haddr : ((b.addr + T.headerSize) % T.wordSize + requiredSize) % T.wordSize =
      b.addr + T.headerSize + requiredSize := by
    rw [Nat.mod_add_mod, Nat.mod_eq_of_lt (by omega)]
  rw [remainingSlot, Block.place, Block.data, haddr, T.sub_wordSize (by omega) (by omega)]

/-- **A block covers what its parts do and the bytes lost between them.** -/
theorem cover_take {requiredSize : ℕ} (hsplit : Splits T requiredSize b)
    (hle : requiredSize ≤ b.size) (hstop : b.addr + T.headerSize + b.size ≤ T.wordSize)
    (es : List Extent) :
    cover (Block.extent T b :: es) x =
      cover (Block.extent T ⟨b.addr, requiredSize⟩ ::
        Block.extent T (remainingSlot T requiredSize b) :: lost T requiredSize b :: es) x := by
  have hrem : remainingSize requiredSize b ≤ b.size - requiredSize := Nat.mod_le _ _
  have hheader := hsplit.1
  have hwhole : Block.extent T b =
      ⟨b.addr, T.headerSize + requiredSize + (b.size - requiredSize)⟩ := by
    simp only [Block.extent, Extent.mk.injEq, true_and]
    omega
  have htail : Block.extent T (remainingSlot T requiredSize b) =
      ⟨b.addr + (T.headerSize + requiredSize), remainingSize requiredSize b⟩ := by
    rw [remainingSlot_eq hsplit hle hstop]
    simp only [Block.extent, Extent.mk.injEq]
    omega
  have hrest : b.size - requiredSize =
      remainingSize requiredSize b + (b.size - requiredSize - remainingSize requiredSize b) := by
    omega
  rw [hwhole, htail, cover_split, cover_cons, hrest, cover_split, ← cover_cons]
  rfl

/-! ## The calls -/

/-- The blocks of a heap whose free list has a block's place taken by
what `malloc` makes of it. -/
theorem extents_take (requiredSize : ℕ) {others : List Block}
    (hperm : s.pool.availableBlocks.Perm (b :: others)) :
    ∃ es, (extents T s).Perm (b.extent T :: es) ∧
      (extents T { s with
        pool := (takeBlock T s.pool requiredSize b others).2
        live := (takeBlock T s.pool requiredSize b others).1 :: s.live }).Perm
        (if Splits T requiredSize b then
          Block.extent T ⟨b.addr, requiredSize⟩ ::
            Block.extent T (remainingSlot T requiredSize b) :: es
        else b.extent T :: es) := by
  refine ⟨(s.live ++ others).map (Block.extent T), ?_, ?_⟩
  · exact ((hperm.append_left s.live).trans List.perm_middle).map (Block.extent T)
  · unfold takeBlock
    split
    · refine (((claimBlock_perm _ _).append_left s.live).trans List.perm_middle).cons _ |>.map _
    · exact List.Perm.refl _

/-- A block constructed on a run of pages is the run. -/
theorem place_extent {address pages : ℕ} (hpages : 1 ≤ pages)
    (hgranted : Granted T s ⟨address, T.pageSize * pages⟩) :
    Block.extent T (Block.place T address ((T.pageSize * pages) % T.wordSize)) =
      ⟨address, T.pageSize * pages⟩ := by
  obtain ⟨hpos, -, hstop, -⟩ := hgranted
  simp only [Extent.stop] at hpos hstop
  have hheader := T.headerSize_lt_pageSize
  have hlarge : T.pageSize ≤ T.pageSize * pages := Nat.le_mul_of_pos_right _ hpages
  rw [Nat.mod_eq_of_lt (by omega), Block.place, T.sub_wordSize (by omega) (by omega)]
  simp only [Block.extent, Extent.mk.injEq, true_and]
  omega

/-- A compaction moves no byte. -/
theorem compact_cover (h : Sound T s) :
    cover (extents T (compact T s)) x = cover (extents T s) x := by
  have hspace : InSpace T (s.pool.availableBlocks.map (Block.extent T)) := fun x hx =>
    h.inSpace x (by rw [extents, blocks, List.map_append, cover_append]; omega)
  simp only [extents, blocks, List.map_append, cover_append, compact]
  rw [cover_merged (compact_merged s.pool) hspace]

/-- **What a call does to the bytes.** Those the pages gain the blocks
gain, and those the blocks lose are of a remainder that does not fit. -/
theorem call_cover (h : Sound T s) (hlegal : Legal T s c) :
    ∃ lost : List Extent, (Fits T s c → ∀ x, cover lost x = 0) ∧
      ∀ x, cover (extents T (call T s c)) x + cover lost x + cover s.pages x =
        cover (extents T s) x + cover (call T s c).pages x := by
  cases c with
  | addPages count address =>
    refine ⟨[], fun _ _ => rfl, fun x => ?_⟩
    by_cases hcount : 1 ≤ count % 2 ^ 32
    · rw [addPages_eq hcount]
      have hperm : (extents T { s with
          pool := s.pool.claimBlock T (Block.place T address
            ((T.pageSize * (count % 2 ^ 32)) % T.wordSize))
          pages := ⟨address, T.pageSize * (count % 2 ^ 32)⟩ :: s.pages }).Perm
          (⟨address, T.pageSize * (count % 2 ^ 32)⟩ :: extents T s) := by
        rw [← place_extent hcount (hlegal hcount), extents, extents, ← List.map_cons]
        exact (((claimBlock_perm _ _).append_left s.live).trans List.perm_middle).map _
      rw [cover_perm hperm, cover_cons, cover_cons, cover_nil]
      omega
    · rw [addPages_none hcount, cover_nil, Nat.add_zero]
  | superMalloc size =>
    rcases superMalloc_cases (T := T) s size with
      ⟨block, others, hle, hsearch, hperm, hcall⟩ | ⟨-, hcall⟩
    · rw [hcall]
      obtain ⟨es, hbefore, hafter⟩ := extents_take (T := T) (T.requiredSize size) hperm
      have hblock := h.block (b := block)
        (List.mem_append_right _ (hperm.mem_iff.2 (List.mem_cons_self ..)))
      by_cases hsplit : Splits T (T.requiredSize size) block
      · rw [if_pos hsplit] at hafter
        refine ⟨[lost T (T.requiredSize size) block], fun hfits x => ?_, fun x => ?_⟩
        · simp only [Fits, hsearch] at hfits
          have hrem := Nat.mod_eq_of_lt (hfits hsplit)
          rw [lost, remainingSize, hrem, Nat.sub_self]
          simp [cover_cons, Extent.mem_def]
        · rw [cover_perm hafter, cover_perm hbefore, cover_take hsplit hle hblock.2]
          simp only [cover_cons, cover_nil]
          omega
      · rw [if_neg hsplit] at hafter
        refine ⟨[], fun _ _ => rfl, fun x => ?_⟩
        rw [cover_perm hafter, cover_perm hbefore, cover_nil, Nat.add_zero]
    · refine ⟨[], fun _ _ => rfl, fun x => ?_⟩
      rw [hcall, cover_nil]
      split
      · rw [compact_cover h]
        rfl
      · rfl
  | free address =>
    obtain ⟨block, hmem, -, hcall⟩ := free_eq hlegal
    refine ⟨[], fun _ _ => rfl, fun x => ?_⟩
    have hperm : (blocks (call T s (.free address))).Perm (blocks s) := by
      rw [hcall]
      refine ((claimBlock_perm _ block).append_left _).trans (List.perm_middle.trans ?_)
      rw [← List.cons_append]
      exact (List.perm_cons_erase hmem).symm.append_right _
    rw [extents, cover_perm (hperm.map _), cover_nil, hcall]
    rfl
  | compact =>
    refine ⟨[], fun _ _ => rfl, fun x => ?_⟩
    rw [call, compact_cover h, cover_nil]
    rfl

/-- The pages after a call are those before it, or have a promised run
more. -/
theorem call_pages (hlegal : Legal T s c) :
    (call T s c).pages = s.pages ∨
      ∃ pages, Granted T s pages ∧ (call T s c).pages = pages :: s.pages := by
  cases c with
  | addPages count address =>
    by_cases hcount : 1 ≤ count % 2 ^ 32
    · exact Or.inr ⟨_, hlegal hcount, by rw [addPages_eq hcount]⟩
    · exact Or.inl (by rw [addPages_none hcount])
  | superMalloc size =>
    left
    rcases superMalloc_cases (T := T) s size with ⟨block, others, -, -, -, hcall⟩ | ⟨-, hcall⟩
    · rw [hcall]
    · rw [hcall]
      split <;> rfl
  | free address =>
    obtain ⟨block, -, -, hcall⟩ := free_eq hlegal
    exact Or.inl (by rw [hcall])
  | compact => exact Or.inl rfl

/-- The blocks after a call are aligned where those before it were. -/
theorem call_aligned (h : Sound T s) (hlegal : Legal T s c) :
    ∀ b ∈ blocks (call T s c), T.alignment ∣ b.addr := by
  have hold : ∀ b, b ∈ s.live ∨ b ∈ s.pool.availableBlocks → T.alignment ∣ b.addr := fun b hb =>
    h.aligned b (List.mem_append.2 hb)
  have hcompact : ∀ b ∈ blocks (compact T s), T.alignment ∣ b.addr := by
    intro b hb
    rcases List.mem_append.1 hb with hb | hb
    · exact hold b (Or.inl hb)
    · obtain ⟨a, ha, haddr⟩ := Merged.addr (compact_merged s.pool) hb
      rw [← haddr]
      exact hold a (Or.inr ha)
  intro b hb
  cases c with
  | addPages count address =>
    by_cases hcount : 1 ≤ count % 2 ^ 32
    · rw [addPages_eq hcount] at hb
      rcases List.mem_append.1 hb with hb | hb
      · exact hold b (Or.inl hb)
      rcases List.mem_cons.1 ((claimBlock_perm _ _).mem_iff.1 hb) with rfl | hb
      · exact T.alignment_dvd_pageSize.trans (Nat.dvd_of_mod_eq_zero (hlegal hcount).2.1)
      · exact hold b (Or.inr hb)
    · rw [addPages_none hcount] at hb
      exact h.aligned b hb
  | superMalloc size =>
    rcases superMalloc_cases (T := T) s size with
      ⟨block, others, hle, -, hperm, hcall⟩ | ⟨-, hcall⟩
    · rw [hcall] at hb
      have hblock := hperm.mem_iff.2 (List.mem_cons_self ..)
      have hothers := fun b hb => hold b (Or.inr (hperm.mem_iff.2 (List.mem_cons_of_mem _ hb)))
      by_cases hsplit : Splits T (T.requiredSize size) block
      · simp only [blocks, takeBlock, if_pos hsplit] at hb
        rcases List.mem_append.1 hb with hb | hb
        · rcases List.mem_cons.1 hb with rfl | hb
          · exact hold block (Or.inr hblock)
          · exact hold b (Or.inl hb)
        rcases List.mem_cons.1 ((claimBlock_perm _ _).mem_iff.1 hb) with rfl | hb
        · rw [remainingSlot_eq hsplit hle (h.block (List.mem_append_right _ hblock)).2]
          exact Nat.dvd_add (Nat.dvd_add (hold block (Or.inr hblock)) T.alignment_dvd_headerSize)
            (T.alignment_dvd_requiredSize size)
        · exact hothers b hb
      · simp only [blocks, takeBlock, if_neg hsplit] at hb
        rcases List.mem_append.1 hb with hb | hb
        · rcases List.mem_cons.1 hb with rfl | hb
          · exact hold b (Or.inr hblock)
          · exact hold b (Or.inl hb)
        · exact hothers b hb
    · rw [hcall] at hb
      split at hb
      · exact hcompact b hb
      · exact h.aligned b hb
  | free address =>
    obtain ⟨block, hmem, -, hcall⟩ := free_eq hlegal
    rw [hcall] at hb
    rcases List.mem_append.1 hb with hb | hb
    · exact hold b (Or.inl (List.mem_of_mem_erase hb))
    rcases List.mem_cons.1 ((claimBlock_perm _ _).mem_iff.1 hb) with rfl | hb
    · exact hold b (Or.inl hmem)
    · exact hold b (Or.inr hb)
  | compact => exact hcompact b hb

/-- **The call lemma**: disjointness survives every legal call. -/
theorem Sound.call (h : Sound T s) (hlegal : Legal T s c) : Sound T (call T s c) := by
  obtain ⟨lost, -, hcover⟩ := call_cover h hlegal
  refine ⟨?_, ?_, fun x => ?_, call_aligned h hlegal⟩
  · rcases call_pages hlegal with heq | ⟨pages, hgranted, heq⟩
    · rw [heq]
      exact h.once
    · rw [heq]
      refine pairwise_apart_iff.1 (List.pairwise_cons.2 ⟨fun p hp x hx hx' => ?_,
        pairwise_apart_iff.2 h.once⟩)
      exact hgranted.2.2.2 p hp x hx' hx
  · rcases call_pages hlegal with heq | ⟨pages, hgranted, heq⟩
    · rw [heq]
      exact h.within
    · rw [heq]
      intro p hp
      rcases List.mem_cons.1 hp with rfl | hp
      · exact ⟨hgranted.1, hgranted.2.2.1⟩
      · exact h.within p hp
  · have := hcover x
    have := h.covered x
    omega

/-! ## The runs -/

/-- No byte of the pages is lost. -/
def Exact (T : Target) (s : Heap) : Prop := ∀ x, cover (extents T s) x = cover s.pages x

/-- **Every byte keeps its block** while the remainders fit. -/
theorem Exact.call (hexact : Exact T s) (h : Sound T s) (hlegal : Legal T s c) (hfits : Fits T s c) :
    Exact T (call T s c) := by
  intro x
  obtain ⟨lost, hlost, hcover⟩ := call_cover h hlegal
  have := hcover x
  rw [hlost hfits, hexact x] at this
  omega

theorem Exact.partitioned (hexact : Exact T s) (h : Sound T s) : Partitioned T s := by
  refine ⟨pairwise_apart_iff.2 fun x => le_trans (h.covered x) (h.once x), fun x => ?_, fun b hb => ?_⟩
  · rw [← cover_pos_iff, ← cover_pos_iff, hexact]
  · exact Nat.mod_eq_zero_of_dvd (h.aligned b hb)

/-- On a 32-bit target a block is no larger than an `unsigned`. -/
theorem fits_of_word32 (hT : T.wordBytes = 4) (h : Sound T s) (c : Call) : Fits T s c := by
  cases c with
  | superMalloc size =>
    simp only [Fits]
    split
    · rename_i block others hsearch
      intro _
      have hmem := (search_some hsearch).2.mem_iff.2 (List.mem_cons_self ..)
      have hblock := h.block (List.mem_append_right _ hmem)
      have hword : T.wordSize = 2 ^ 32 := by rw [Target.wordSize, hT]
      omega
    · trivial
  | addPages _ _ | free _ | compact => trivial

/-- **A run partitions its pages** while the remainders of its splits
fit. -/
theorem partitioned_run (T : Target) (ops : List Op)
    (hlegal : Along (step T) (Each T (Legal T)) empty ops)
    (hfits : Along (step T) (Each T (Fits T)) empty ops) :
    Throughout (step T) (Partitioned T) empty ops := by
  refine throughout_of_invariant (I := fun s => Sound T s ∧ Exact T s) (hlegal.and hfits)
    ⟨sound_empty T, fun _ => rfl⟩ (fun s op hs heach => ?_) fun _ hs => hs.2.partitioned hs.1
  exact step_invariant (I := fun s => Sound T s ∧ Exact T s) hs (heach.1.and heach.2)
    fun s c hs hc => ⟨hs.1.call hc.1, hs.2.call hs.1 hc.1 hc.2⟩

/-- A request split from a page, freed, and split again. -/
theorem partitioned_run_split :
    Throughout (step .x86_64) (Partitioned .x86_64) empty
      [.malloc 40 [0x10000], .malloc 0 [], .free 0x10018, .compact, .malloc 5000 [0x20000]] :=
  partitioned_run .x86_64 _ (by decide +kernel) (by decide +kernel)

/-- **A 4 GiB remainder is lost**: a block of more than 4 GiB is split at
8 bytes and all but 4 KiB of it belongs to no block. -/
theorem partitioned_run_broken :
    Along (step .x86_64) (Each .x86_64 (Legal .x86_64)) empty
        [.malloc (2 ^ 32 - 8) [0x10000], .free 0x10018, .compact, .malloc 8 []] ∧
      ¬ Throughout (step .x86_64) (Partitioned .x86_64) empty
        [.malloc (2 ^ 32 - 8) [0x10000], .free 0x10018, .compact, .malloc 8 []] := by
  refine ⟨by decide +kernel, fun h => ?_⟩
  have hbyte := (h.last.2.1 0x100000).2 (by decide +kernel)
  exact absurd hbyte (by decide +kernel)

/-- **On a 32-bit target the remainders always fit**, so that every run
partitions its pages. -/
theorem fits_run_word32 (hT : T.wordBytes = 4) (ops : List Op)
    (hlegal : Along (step T) (Each T (Legal T)) empty ops) :
    Along (step T) (Each T (Fits T)) empty ops :=
  along_of_invariant hlegal (sound_empty T)
    (fun _ _ hs heach => step_invariant hs heach fun _ _ hs hc => hs.call hc)
    fun _ _ hs heach => along_of_invariant heach hs (fun _ _ hs hc => hs.call hc)
      fun _ c hs _ => fits_of_word32 hT hs c

end Heap

end Uberos
