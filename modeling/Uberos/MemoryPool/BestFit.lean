import Uberos.MemoryPool.Extents
/-!
# The smallest block that holds the request

The free list is sorted by size after every call: both directions of
insertion put a block where it belongs, a search takes one away, and a
compaction sorts what it merged. In a sorted list the first block found
from the front and the last one found from the back are the smallest that
hold the request. The request they hold is `requiredSize`, an `unsigned`;
a size that does not fit one is searched for modulo 4 GiB.
-/

namespace Uberos

open Library

namespace MemoryPool

variable {T : Target} {pool : MemoryPool} {b c : Block} {bs others : List Block} {requiredSize : ℕ}

/-- Sizes do not fall from head to tail. -/
def SortedBySize (bs : List Block) : Prop := bs.Pairwise fun a b => a.size ≤ b.size

instance (bs : List Block) : Decidable (SortedBySize bs) :=
  inferInstanceAs (Decidable (bs.Pairwise _))

instance : Std.Total fun a b : Block => a.size ≤ b.size := ⟨fun a b => le_total a.size b.size⟩

instance : IsTrans Block fun a b => a.size ≤ b.size := ⟨fun _ _ _ => le_trans⟩

instance : Std.Total fun a b : Block => b.size ≤ a.size := ⟨fun a b => le_total b.size a.size⟩

instance : IsTrans Block fun a b => b.size ≤ a.size := ⟨fun _ _ _ h h' => le_trans h' h⟩

/-! ## Insertions and removals -/

theorem insertForwards_sorted (h : SortedBySize bs) (b : Block) :
    SortedBySize (insertForwards b bs) := List.Pairwise.orderedInsert b bs h

/-- Backwards, the list is sorted the other way. -/
theorem insertBackwards_sorted (h : SortedBySize bs) (b : Block) :
    SortedBySize (insertBackwards b bs) := by
  have hreverse : bs.reverse.Pairwise fun a b => b.size ≤ a.size := List.pairwise_reverse.2 h
  exact List.pairwise_reverse.2 (List.Pairwise.orderedInsert b _ hreverse)

theorem claimBlock_sorted (h : SortedBySize pool.availableBlocks) (b : Block) :
    SortedBySize (claimBlock T pool b).availableBlocks := by
  unfold claimBlock
  dsimp only
  split
  · exact insertBackwards_sorted h b
  · exact insertForwards_sorted h b

theorem sortBySize_sorted (bs : List Block) : SortedBySize (sortBySize bs) := by
  have h : ∀ bs sorted : List Block, SortedBySize sorted →
      SortedBySize (bs.foldl (fun sorted block => insertForwards block sorted) sorted) := by
    intro bs
    induction bs with
    | nil => exact fun _ hsorted => hsorted
    | cons b bs ih => exact fun sorted hsorted => ih _ (insertForwards_sorted hsorted b)
  exact h bs [] List.Pairwise.nil

/-- A search takes its block out and moves no other. -/
theorem search_sublist (h : search T requiredSize bs = some (b, others)) : others.Sublist bs := by
  obtain ⟨before, after, rfl, rfl, -⟩ := search_split h
  exact (List.sublist_cons_self b after).append_left before

/-- **The search takes a smallest block that holds the request**: in a
sorted list those after it are no smaller, and as its `prev` does not
hold the request, none before it does. -/
theorem search_least (hsorted : SortedBySize bs) (h : search T requiredSize bs = some (b, others)) :
    ∀ c ∈ bs, requiredSize ≤ c.size → b.size ≤ c.size := by
  obtain ⟨before, after, rfl, -, -, hprev⟩ := search_split h
  obtain ⟨hbefore, hafter, -⟩ := List.pairwise_append.1 hsorted
  intro c hc hle
  rcases List.mem_append.1 hc with hc | hc
  · obtain ⟨init, prev, rfl⟩ := (List.eq_nil_or_concat' before).resolve_left (List.ne_nil_of_mem hc)
    have hsmall := hprev prev List.getLast?_concat
    rcases List.mem_append.1 hc with hc | hc
    · have := (List.pairwise_append.1 hbefore).2.2 c hc prev List.mem_cons_self
      omega
    · rw [List.mem_singleton.1 hc] at hle
      omega
  · rcases List.mem_cons.1 hc with rfl | hc
    · exact le_rfl
    · exact (List.pairwise_cons.1 hafter).1 c hc

end MemoryPool

namespace Heap

open MemoryPool

variable {T : Target} {s : Heap} {c : Call} {op : Op} {size : ℕ}

/-- **The call lemma**: every call leaves the free list sorted. -/
theorem call_sorted (h : SortedBySize s.pool.availableBlocks) (hlegal : Legal T s c) :
    SortedBySize (call T s c).pool.availableBlocks := by
  cases c with
  | addPages count address =>
    by_cases hcount : 1 ≤ count % 2 ^ 32
    · rw [addPages_eq hcount]
      exact claimBlock_sorted h _
    · rw [addPages_none hcount]
      exact h
  | superMalloc size =>
    rcases superMalloc_cases (T := T) s size with
      ⟨block, others, -, hsearch, -, hcall⟩ | ⟨-, hcall⟩
    · have hothers : SortedBySize others := List.Pairwise.sublist (search_sublist hsearch) h
      rw [hcall]
      unfold takeBlock
      dsimp only
      split
      · exact claimBlock_sorted hothers _
      · exact hothers
    · rw [hcall]
      split
      · exact sortBySize_sorted _
      · exact h
  | free address =>
    obtain ⟨block, -, -, hcall⟩ := free_eq hlegal
    rw [hcall]
    exact claimBlock_sorted h block
  | compact => exact sortBySize_sorted _

/-- **What is asked of a request**: the block `malloc` takes is a
free one of the smallest size that is at least the aligned one, and it
finds none only where every free block is smaller than that. -/
def BestFit (T : Target) (s : Heap) (size : ℕ) : Prop :=
  (∀ block pool, s.pool.malloc T size = (some block, pool) →
    ∃ taken ∈ s.pool.availableBlocks, taken.addr = block.addr ∧ T.align size ≤ taken.size ∧
      ∀ b ∈ s.pool.availableBlocks, T.align size ≤ b.size → taken.size ≤ b.size) ∧
  ∀ pool, s.pool.malloc T size = (none, pool) →
    ∀ b ∈ s.pool.availableBlocks, b.size < T.align size

/-- **A free block that holds the size modulo 4 GiB holds the size.** -/
def Untruncated (T : Target) (s : Heap) (size : ℕ) : Prop :=
  ∀ b ∈ s.pool.availableBlocks, T.requiredSize size ≤ b.size → T.align size ≤ b.size

instance (s : Heap) (size : ℕ) : Decidable (Untruncated T s size) :=
  inferInstanceAs (Decidable (∀ b ∈ s.pool.availableBlocks, _))

/-- A size that fits an `unsigned` is not cut. -/
theorem untruncated_of_lt (h : T.align size < 2 ^ 32) : Untruncated T s size := by
  intro _ _ hle
  rwa [Target.requiredSize, Nat.mod_eq_of_lt h] at hle

/-- No two blocks stand at one address. -/
theorem Sound.addr_inj (h : Sound T s) {a b : Block} (ha : a ∈ s.pool.availableBlocks)
    (hb : b ∈ s.pool.availableBlocks) (haddr : a.addr = b.addr) : a = b := by
  by_contra hne
  have hpos := T.headerSize_pos
  have hapart : (extents T s).Pairwise Extent.Apart :=
    pairwise_apart_iff.2 fun x => le_trans (h.covered x) (h.once x)
  have hblocks := List.pairwise_map.1 hapart
  have : Std.Symm fun a b : Block => Extent.Apart (a.extent T) (b.extent T) :=
    ⟨fun _ _ hab x hx hx' => hab x hx' hx⟩
  refine hblocks.forall (List.mem_append_right _ ha) (List.mem_append_right _ hb) hne a.addr ?_ ?_
  · exact ⟨le_rfl, by simp only [Block.extent, Extent.stop]; omega⟩
  · exact ⟨haddr.ge, by simp only [Block.extent, Extent.stop]; omega⟩

/-- What `takeBlock` returns stands where the block it took stood. -/
theorem takeBlock_addr (pool : MemoryPool) (requiredSize : ℕ) (b : Block) (others : List Block) :
    (takeBlock T pool requiredSize b others).1.addr = b.addr := by
  unfold takeBlock
  dsimp only
  split <;> rfl

/-- **A request is served best exactly when it is not cut.** -/
theorem bestFit_iff (h : Sound T s) (hsorted : SortedBySize s.pool.availableBlocks) (size : ℕ) :
    BestFit T s size ↔ Untruncated T s size := by
  have hcut : T.requiredSize size ≤ T.align size := Nat.mod_le _ _
  rcases malloc_cases (T := T) s.pool size with
    ⟨block, others, hsearch, hmalloc⟩ | ⟨hsearch, hmalloc⟩
  · obtain ⟨hle, hperm⟩ := search_some hsearch
    have hmem := hperm.mem_iff.2 (List.mem_cons_self ..)
    have hleast := search_least hsorted hsearch
    constructor
    · rintro ⟨hsome, -⟩ b hb hreq
      obtain ⟨taken, htaken, haddr, halign, -⟩ := hsome _ _ hmalloc
      rw [takeBlock_addr] at haddr
      rw [h.addr_inj htaken hmem haddr] at halign
      exact le_trans halign (hleast b hb hreq)
    · intro huncut
      refine ⟨fun block' pool hres => ?_, fun pool hres => ?_⟩
      · rw [hmalloc] at hres
        injection hres with hblock _
        injection hblock with hblock
        refine ⟨block, hmem, by rw [← hblock, takeBlock_addr], huncut block hmem hle, fun b hb hb' => ?_⟩
        exact hleast b hb (le_trans hcut hb')
      · rw [hmalloc] at hres
        injection hres with hnone _
        cases hnone
  · have hnone := search_none hsearch
    refine iff_of_true ⟨fun block pool hres => ?_, fun pool _ b hb => ?_⟩ fun b hb hle => ?_
    · rw [hmalloc] at hres
      injection hres with hsome _
      cases hsome
    · exact lt_of_lt_of_le (hnone b hb) hcut
    · exact absurd hle (not_le.2 (hnone b hb))

/-- **In every state of a run**, those between the calls of an operation
included, the free list is sorted, and a size is served best exactly when
no free block holds it modulo 4 GiB only. -/
theorem bestFit_run (T : Target) (ops : List Op)
    (hlegal : Along (step T) (Each T (Legal T)) empty ops) :
    Throughout (step T) (fun s => SortedBySize s.pool.availableBlocks ∧
        ∀ size, BestFit T s size ↔ Untruncated T s size) empty ops ∧
      Along (step T) (Each T fun s _ => SortedBySize s.pool.availableBlocks ∧
        ∀ size, BestFit T s size ↔ Untruncated T s size) empty ops := by
  have hstart : Sound T empty ∧ SortedBySize empty.pool.availableBlocks :=
    ⟨sound_empty T, List.Pairwise.nil⟩
  have hcall : ∀ s c, Sound T s ∧ SortedBySize s.pool.availableBlocks → Legal T s c →
      Sound T (call T s c) ∧ SortedBySize (call T s c).pool.availableBlocks := fun s c hs hc =>
    ⟨hs.1.call hc, call_sorted hs.2 hc⟩
  have hstep : ∀ s op, Sound T s ∧ SortedBySize s.pool.availableBlocks → Each T (Legal T) s op →
      Sound T (step T s op) ∧ SortedBySize (step T s op).pool.availableBlocks := fun s op hs heach =>
    step_invariant (I := fun s => Sound T s ∧ SortedBySize s.pool.availableBlocks) hs heach hcall
  refine ⟨throughout_of_invariant hlegal hstart hstep fun s hs => ⟨hs.2, bestFit_iff hs.1 hs.2⟩,
    along_of_invariant hlegal hstart hstep fun s op hs heach => ?_⟩
  exact along_of_invariant (I := fun s => Sound T s ∧ SortedBySize s.pool.availableBlocks) heach hs
    hcall fun s c hs _ => ⟨hs.2, bestFit_iff hs.1 hs.2⟩

/-- A request after a free and a compaction. -/
theorem bestFit_run_free :
    BestFit .x86_64 (run (step .x86_64) empty
      [.malloc 8 [0x10000], .malloc 40 [], .free 0x10018, .compact]) 24 :=
  ((bestFit_run .x86_64 _ (by decide +kernel)).1.last.2 24).2 (by decide +kernel)

/-- **A size of 4 GiB and 8 bytes is served 8 bytes**, from a block of
less than 4 KiB. -/
theorem bestFit_run_broken :
    Along (step .x86_64) (Each .x86_64 (Legal .x86_64)) empty [.malloc 8 [0x10000]] ∧
      ¬ BestFit .x86_64 (run (step .x86_64) empty [.malloc 8 [0x10000]]) (2 ^ 32 + 8) := by
  refine ⟨by decide +kernel, fun h => ?_⟩
  obtain ⟨taken, hmem, -, halign, -⟩ := h.1 ⟨0x10020, 8⟩
    (((run (step .x86_64) empty [.malloc 8 [0x10000]]).pool.malloc .x86_64 (2 ^ 32 + 8)).2)
    (by decide +kernel)
  have hsmall : ∀ b ∈ (run (step .x86_64) empty [.malloc 8 [0x10000]]).pool.availableBlocks,
      b.size < Target.x86_64.align (2 ^ 32 + 8) := by decide +kernel
  exact absurd halign (not_le.2 (hsmall taken hmem))

end Heap

end Uberos
