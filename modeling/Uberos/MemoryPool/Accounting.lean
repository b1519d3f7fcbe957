import Uberos.MemoryPool.Extents
/-!
# What the counters count

`available` and `used` follow the sizes of the free blocks and of those
in use through every split, claim and free. A merge is where they part:
the block grows by the header of the block merged into it as well, and
`available` does not. Until a compaction merges something the counters
are the sums.
-/

namespace Uberos

open Library

namespace Heap

open MemoryPool

variable {T : Target} {s : Heap} {c : Call} {op : Op} {bs bs' : List Block} {b : Block}

/-- The sizes of the blocks. -/
def total (bs : List Block) : ℕ := (bs.map Block.size).sum

@[simp] theorem total_nil : total [] = 0 := rfl

@[simp] theorem total_cons : total (b :: bs) = b.size + total bs := by
  simp only [total, List.map_cons, List.sum_cons]

@[simp] theorem total_append : total (bs ++ bs') = total bs + total bs' := by
  simp only [total, List.map_append, List.sum_append]

theorem total_perm (h : bs.Perm bs') : total bs = total bs' := (h.map Block.size).sum_nat

theorem size_le_total (hb : b ∈ bs) : b.size ≤ total bs :=
  List.le_sum_of_mem (List.mem_map_of_mem hb)

/-- **What is asked of a state**: the counters are the sums, so that
no block of either kind is larger than its counter and a request is only
found to exceed `available` where it exceeds what is free. -/
def Accounted (T : Target) (s : Heap) : Prop :=
  s.pool.available = total s.pool.availableBlocks ∧ s.pool.used = total s.live ∧
    (∀ b ∈ s.pool.availableBlocks, b.size ≤ s.pool.available) ∧
    (∀ b ∈ s.live, b.size ≤ s.pool.used) ∧
    ∀ size, T.requiredSize size > s.pool.available →
      total s.pool.availableBlocks < T.requiredSize size

/-- **No compaction finds adjacent blocks to merge**: neither one asked
for nor one that a failed search asks for. -/
def MergesNothing (T : Target) (s : Heap) : Call → Prop
  | .compact => NoneAdjacent T s.pool.availableBlocks
  | .superMalloc size =>
    search T (T.requiredSize size) s.pool.availableBlocks = none →
      s.pool.needsCompacting = true → s.pool.available ≥ T.requiredSize size →
        NoneAdjacent T s.pool.availableBlocks
  | .addPages _ _ | .free _ => True

instance (s : Heap) : ∀ c, Decidable (MergesNothing T s c)
  | .compact => inferInstanceAs (Decidable (NoneAdjacent T _))
  | .superMalloc _ => inferInstanceAs (Decidable (_ → _ → _ → _))
  | .addPages _ _ | .free _ => inferInstanceAs (Decidable True)

/-- The counters are the sums. -/
structure Balanced (s : Heap) : Prop where
  available : s.pool.available = total s.pool.availableBlocks
  used : s.pool.used = total s.live

/-- **The sums are words**: the blocks are disjoint, and each has a header
besides. -/
theorem Sound.total_lt (h : Sound T s) : total (blocks s) < T.wordSize := by
  have hstop : ∀ e ∈ extents T s, e.stop ≤ T.wordSize := by
    intro e he
    obtain ⟨b, hb, rfl⟩ := List.mem_map.1 he
    have := h.block hb
    simp only [Block.extent, Extent.stop]
    omega
  have hsum := sum_length_le hstop fun x => le_trans (h.covered x) (h.once x)
  have hlengths : ∀ bs : List Block, ((bs.map (Block.extent T)).map Extent.length).sum =
      T.headerSize * bs.length + total bs := by
    intro bs
    induction bs with
    | nil => rfl
    | cons b bs ih =>
      rw [List.map_cons, List.map_cons, List.sum_cons, ih, List.length_cons, total_cons, Nat.mul_succ]
      simp only [Block.extent]
      omega
  rw [extents, hlengths] at hsum
  have hword := T.headerSize_lt_wordSize
  have hheader := T.headerSize_pos
  rcases hblocks : blocks s with - | ⟨b, bs⟩
  · rw [total_nil]
    omega
  · have := Nat.le_mul_of_pos_right T.headerSize
      (List.length_pos_of_mem (List.mem_cons_self (a := b) (l := bs)))
    rw [hblocks] at hsum
    omega

/-- Claiming a block adds its size to both sides. -/
theorem claimBlock_available {pool : MemoryPool} (h : pool.available = total pool.availableBlocks)
    (hlt : b.size + total pool.availableBlocks < T.wordSize) :
    (claimBlock T pool b).available = total (claimBlock T pool b).availableBlocks := by
  rw [total_perm (claimBlock_perm pool b), total_cons]
  simp only [claimBlock, h]
  rw [Nat.mod_eq_of_lt (by omega), Nat.add_comm]

/-- A compaction that merges nothing leaves the sum. -/
theorem Balanced.compact (h : Balanced s) (hnone : NoneAdjacent T s.pool.availableBlocks) :
    Balanced (compact T s) where
  available := by
    have hperm := (compact_merged (T := T) s.pool).perm_of_noneAdjacent hnone
    exact h.available.trans (total_perm hperm)
  used := h.used

/-- Taking a block moves its size, or the part of it that is taken, from
one sum to the other. -/
theorem Balanced.take (h : Balanced s) {requiredSize : ℕ} {others : List Block}
    (hperm : s.pool.availableBlocks.Perm (b :: others))
    (hlt : total (blocks s) < T.wordSize)
    (hlt' : total (blocks { s with
      pool := (takeBlock T s.pool requiredSize b others).2
      live := (takeBlock T s.pool requiredSize b others).1 :: s.live }) < T.wordSize) :
    Balanced { s with
      pool := (takeBlock T s.pool requiredSize b others).2
      live := (takeBlock T s.pool requiredSize b others).1 :: s.live } := by
  have havailable := h.available
  rw [total_perm hperm, total_cons] at havailable
  rw [blocks, total_append, total_perm hperm, total_cons] at hlt
  have hrest : (s.pool.available + T.wordSize - b.size) % T.wordSize = total others := by
    rw [T.sub_wordSize (by omega) (by omega), havailable, Nat.add_sub_cancel_left]
  unfold takeBlock at hlt' ⊢
  simp only [hrest] at hlt' ⊢
  split at hlt' <;> rename_i hsplit
  · rw [if_pos hsplit]
    simp only [blocks, total_append, total_cons] at hlt'
    rw [total_perm (claimBlock_perm _ _), total_cons] at hlt'
    dsimp only at hlt'
    refine ⟨claimBlock_available rfl (by dsimp only; omega), ?_⟩
    simp only [claimBlock, total_cons, h.used]
    rw [Nat.mod_eq_of_lt (by omega), Nat.add_comm]
  · rw [if_neg hsplit]
    simp only [blocks, total_append, total_cons] at hlt'
    refine ⟨rfl, ?_⟩
    simp only [total_cons, h.used]
    rw [Nat.mod_eq_of_lt (by omega), Nat.add_comm]

/-- **The call lemma.** -/
theorem Balanced.call (h : Balanced s) (hsound : Sound T s) (hlegal : Legal T s c)
    (hmerges : MergesNothing T s c) : Balanced (call T s c) := by
  have hlt := hsound.total_lt
  have hlt' := (hsound.call hlegal).total_lt
  cases c with
  | addPages count address =>
    by_cases hcount : 1 ≤ count % 2 ^ 32
    · rw [addPages_eq hcount] at hlt' ⊢
      rw [blocks, total_append, total_perm (claimBlock_perm _ _), total_cons] at hlt'
      exact ⟨claimBlock_available h.available (by omega), h.used⟩
    · rw [addPages_none hcount]
      exact h
  | superMalloc size =>
    rcases superMalloc_cases (T := T) s size with
      ⟨block, others, -, -, hperm, hcall⟩ | ⟨hnone, hcall⟩
    · rw [hcall] at hlt' ⊢
      exact h.take hperm hlt hlt'
    · rw [hcall]
      split
      · rename_i hcompacts
        refine h.compact (hmerges ?_ hcompacts.1 hcompacts.2)
        rcases hsearch : search T (T.requiredSize size) s.pool.availableBlocks with - | ⟨block, others⟩
        · rfl
        · obtain ⟨hle, hperm⟩ := search_some hsearch
          exact absurd (hnone block (hperm.mem_iff.2 (List.mem_cons_self ..))) (not_lt.2 hle)
      · exact h
  | free address =>
    obtain ⟨block, hmem, -, hcall⟩ := free_eq hlegal
    rw [hcall] at hlt' ⊢
    have hlive := total_perm (List.perm_cons_erase hmem)
    rw [total_cons] at hlive
    rw [blocks, total_append] at hlt
    refine ⟨claimBlock_available h.available (by omega), ?_⟩
    simp only [MemoryPool.free, claimBlock, h.used]
    rw [T.sub_wordSize (by omega) (by omega)]
    omega
  | compact => exact h.compact hmerges

/-- What the sums say of single blocks and of a request. -/
theorem Balanced.accounted (h : Balanced s) : Accounted T s := by
  refine ⟨h.available, h.used, fun b hb => ?_, fun b hb => ?_, fun size hsize => ?_⟩
  · rw [h.available]
    exact size_le_total hb
  · rw [h.used]
    exact size_le_total hb
  · rw [← h.available]
    exact hsize

/-- **The counters are the sums in every state of a run**, those between
the calls of an operation included, while no compaction has anything to
merge. -/
theorem accounted_run (T : Target) (ops : List Op)
    (hlegal : Along (step T) (Each T (Legal T)) empty ops)
    (hmerges : Along (step T) (Each T (MergesNothing T)) empty ops) :
    Throughout (step T) (Accounted T) empty ops ∧
      Along (step T) (Each T fun s _ => Accounted T s) empty ops := by
  have hstart : Sound T empty ∧ Balanced empty := ⟨sound_empty T, rfl, rfl⟩
  have hcall : ∀ s c, Sound T s ∧ Balanced s → Legal T s c ∧ MergesNothing T s c →
      Sound T (call T s c) ∧ Balanced (call T s c) := fun s c hs hc =>
    ⟨hs.1.call hc.1, hs.2.call hs.1 hc.1 hc.2⟩
  have hstep : ∀ s op, Sound T s ∧ Balanced s →
      Each T (Legal T) s op ∧ Each T (MergesNothing T) s op →
      Sound T (step T s op) ∧ Balanced (step T s op) := fun s op hs heach =>
    step_invariant (I := fun s => Sound T s ∧ Balanced s) hs (heach.1.and heach.2) hcall
  refine ⟨throughout_of_invariant (hlegal.and hmerges) hstart hstep fun s hs => hs.2.accounted,
    along_of_invariant (hlegal.and hmerges) hstart hstep fun s op hs heach => ?_⟩
  exact along_of_invariant (I := fun s => Sound T s ∧ Balanced s) (heach.1.and heach.2) hs hcall
    fun s c hs _ => hs.2.accounted

/-- Two requests, one of them freed and claimed again. -/
theorem accounted_run_free :
    Throughout (step .x86_32) (Accounted .x86_32) empty
        [.malloc 4 [0x1000], .malloc 40 [], .free 0x100c, .malloc 1 []] ∧
      Along (step .x86_32) (Each .x86_32 fun s _ => Accounted .x86_32 s) empty
        [.malloc 4 [0x1000], .malloc 40 [], .free 0x100c, .malloc 1 []] :=
  accounted_run .x86_32 _ (by decide +kernel) (by decide +kernel)

/-- **A merge is not accounted for**: with a page's only block freed and
compacted, the free block holds 4084 bytes and `available` says 4072. -/
theorem accounted_run_broken :
    Along (step .x86_32) (Each .x86_32 (Legal .x86_32)) empty
        [.malloc 4 [0x1000], .free 0x100c, .compact] ∧
      ¬ Throughout (step .x86_32) (Accounted .x86_32) empty
        [.malloc 4 [0x1000], .free 0x100c, .compact] :=
  ⟨by decide +kernel, fun h => absurd h.last.1 (by decide +kernel)⟩

end Heap

end Uberos
