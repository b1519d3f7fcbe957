import Mathlib.Algebra.Group.Nat.Defs
import Uberos.MemoryPool.BestFit
/-!
# What a compaction does, and what `malloc` makes of it

The loop of `compact` merges into each block what starts where it ends. A
merge moves no header and takes one out, so that a block the loop has
passed is followed by none for good, and in the end no two are adjacent.
`compact` answers `false` all the same, so that `malloc`, which would look
again, gives up on a request the merged blocks hold.
-/

namespace Uberos

open Library

namespace MemoryPool

variable {T : Target} {b other : Block} {bs before after : List Block} {fuel : ℕ}

/-! ## The loop -/

/-- **The search of one block ends where none starts at its end**: with
fuel for every block there is, it merges until it finds none. -/
theorem searchForNext_spec (before after : List Block) (b : Block)
    (hfuel : before.length + after.length ≤ fuel) :
    (searchForNext T fuel before b after).2.1.addr = b.addr ∧
      (searchForNext T fuel before b after).1 ⊆ before ∧
      (searchForNext T fuel before b after).2.2 ⊆ after ∧
      (searchForNext T fuel before b after).2.2.length ≤ after.length ∧
      ∀ other ∈ (searchForNext T fuel before b after).1 ++
        (searchForNext T fuel before b after).2.2,
        other.addr ≠ (searchForNext T fuel before b after).2.1.next T := by
  induction fuel generalizing before b after with
  | zero =>
    have hbefore : before = [] := List.length_eq_zero_iff.1 (by omega)
    have hafter : after = [] := List.length_eq_zero_iff.1 (by omega)
    subst hbefore hafter
    exact ⟨rfl, List.Subset.refl _, List.Subset.refl _, le_rfl,
      fun other hother => absurd hother List.not_mem_nil⟩
  | succ fuel ih =>
    rw [searchForNext]
    split
    · rename_i found rest hpop
      have hperm := (popFirst_some hpop).2
      have hlength := hperm.length_eq
      rw [List.length_cons] at hlength
      obtain ⟨haddr, hbefore, hafter, hle, hnone⟩ :=
        ih rest after (b.merge T found) (by omega)
      exact ⟨haddr, fun c hc => hperm.mem_iff.2 (List.mem_cons_of_mem _ (hbefore hc)), hafter, hle,
        hnone⟩
    · rename_i hpop
      split
      · rename_i found rest hpop'
        have hperm := (popFirst_some hpop').2
        have hlength := hperm.length_eq
        rw [List.length_cons] at hlength
        obtain ⟨haddr, hbefore, hafter, hle, hnone⟩ :=
          ih before rest (b.merge T found) (by omega)
        exact ⟨haddr, hbefore, fun c hc => hperm.mem_iff.2 (List.mem_cons_of_mem _ (hafter hc)),
          by omega, hnone⟩
      · rename_i hpop'
        refine ⟨rfl, List.Subset.refl _, List.Subset.refl _, le_rfl, fun other hother => ?_⟩
        rcases List.mem_append.1 hother with hother | hother
        · simpa using popFirst_none hpop other hother
        · simpa using popFirst_none hpop' other hother

/-- What starts where one of the blocks passed ends is the block itself. -/
def Passed (T : Target) (before bs : List Block) : Prop :=
  ∀ b ∈ before, ∀ other ∈ bs, other.addr = b.next T → other.addr = b.addr

/-- **The blocks the outer loop has passed stay passed**: a merge takes a
header out and puts none in. -/
theorem mergeAdjacent_passed (before after : List Block) (hfuel : after.length ≤ fuel)
    (h : Passed T before (before ++ after)) :
    Passed T (mergeAdjacent T fuel before after) (mergeAdjacent T fuel before after) := by
  induction fuel generalizing before after with
  | zero =>
    have hafter : after = [] := List.length_eq_zero_iff.1 (by omega)
    subst hafter
    rw [List.append_nil] at h
    rw [mergeAdjacent, List.append_nil]
    exact h
  | succ fuel ih =>
    cases after with
    | nil =>
      rw [List.append_nil] at h
      exact h
    | cons b after =>
      rw [List.length_cons] at hfuel
      obtain ⟨haddr, hbefore, hafter, hle, hnone⟩ :=
        searchForNext_spec (T := T) before after b (Nat.le_refl _)
      rw [mergeAdjacent]
      generalize searchForNext T (before.length + after.length) before b after = found at *
      obtain ⟨before', b', after'⟩ := found
      dsimp only at haddr hbefore hafter hle hnone ⊢
      refine ih (before' ++ [b']) after' (by omega) fun c hc other hother hnext => ?_
      have hrest : other ∈ before' ++ after' ∨ other = b' := by
        simp only [List.mem_append, List.mem_singleton] at hother ⊢
        exact hother.elim (fun hother => hother.imp_left Or.inl) fun hother => Or.inl (Or.inr hother)
      rcases List.mem_append.1 hc with hc | hc
      · -- a block passed before, against the headers there were
        rcases hrest with hother | heq
        · refine h c (hbefore hc) other ?_ hnext
          rcases List.mem_append.1 hother with hother | hother
          · exact List.mem_append_left _ (hbefore hother)
          · exact List.mem_append_right _ (List.mem_cons_of_mem _ (hafter hother))
        · rw [heq, haddr] at hnext ⊢
          exact h c (hbefore hc) b (List.mem_append_right _ List.mem_cons_self) hnext
      · rw [List.mem_singleton.1 hc] at hnext ⊢
        rcases hrest with hother | heq
        · exact absurd hnext (hnone other hother)
        · rw [heq]

end MemoryPool

namespace Heap

open MemoryPool

variable {T : Target} {s : Heap} {bs bs' : List Block} {b : Block} {x size : ℕ}

/-! ## What it is for -/

/-- **`compact` leaves no two free blocks adjacent**, the same bytes and a
sorted list. -/
def CompactsFully (T : Target) (s : Heap) : Prop :=
  NoneAdjacent T (compact T s).pool.availableBlocks ∧
    (∀ x, (∃ b ∈ (compact T s).pool.availableBlocks, x ∈ b.extent T) ↔
      ∃ b ∈ s.pool.availableBlocks, x ∈ b.extent T) ∧
    SortedBySize (compact T s).pool.availableBlocks

/-- **`malloc` gives up only where no free block would hold the request**
after all merges, whichever way they are made. -/
def GivesUpLast (T : Target) (s : Heap) (size : ℕ) : Prop :=
  (s.pool.malloc T size).1 = none → ∀ bs, Merged T s.pool.availableBlocks bs → NoneAdjacent T bs →
    ∀ b ∈ bs, b.size < T.align size

/-- So many bytes in a row are free. -/
def FreeRow (T : Target) (s : Heap) (length : ℕ) : Prop :=
  ∃ a, ∀ x, a ≤ x → x < a + length → ∃ b ∈ s.pool.availableBlocks, x ∈ b.extent T

/-- **A free block holds the request as it is, or no row of free bytes
holds it and a header.** -/
def Decided (T : Target) (s : Heap) (size : ℕ) : Prop :=
  (∃ b ∈ s.pool.availableBlocks, T.requiredSize size ≤ b.size) ∨
    ¬FreeRow T s (T.headerSize + T.align size)

/-! ## Merged blocks -/

/-- A block that ends in the address space does not start where it ends. -/
theorem InSpace.next_ne (h : InSpace T (bs.map (Block.extent T))) (hb : b ∈ bs) :
    b.addr ≠ b.next T := by
  have hpos := T.headerSize_pos
  obtain ⟨haddr, hstop⟩ := h.block hb
  rw [Block.next, Block.data, Nat.mod_add_mod]
  rcases Nat.lt_or_ge (b.addr + T.headerSize + b.size) T.wordSize with hlt | hge
  · rw [Nat.mod_eq_of_lt hlt]
    omega
  · rw [show b.addr + T.headerSize + b.size = T.wordSize by omega, Nat.mod_self]
    omega

/-- The header after a block in the address space is where it ends, if
there is one. -/
theorem InSpace.addr_ne_stop (h : InSpace T (bs.map (Block.extent T))) (hnone : NoneAdjacent T bs)
    (hb : b ∈ bs) {other : Block} (hother : other ∈ bs) : other.addr ≠ (b.extent T).stop := by
  intro heq
  refine hnone b hb other hother ?_
  have hpos := T.headerSize_pos
  have hblock := h.block hother
  simp only [Block.extent, Extent.stop] at heq
  rw [Block.next, Block.data, Nat.mod_add_mod, Nat.mod_eq_of_lt (by omega)]
  omega

/-- The free blocks are in the address space. -/
theorem Sound.free_inSpace (h : Sound T s) :
    InSpace T (s.pool.availableBlocks.map (Block.extent T)) := fun x hx =>
  h.inSpace x (by rw [extents, blocks, List.map_append, cover_append]; omega)

/-- And disjoint. -/
theorem Sound.free_once (h : Sound T s) (x : ℕ) :
    cover (s.pool.availableBlocks.map (Block.extent T)) x ≤ 1 := by
  have hall := le_trans (h.covered x) (h.once x)
  rw [extents, blocks, List.map_append, cover_append] at hall
  omega

theorem cover_pos_blocks :
    0 < cover (bs.map (Block.extent T)) x ↔ ∃ b ∈ bs, x ∈ b.extent T := by
  rw [cover_pos_iff]
  simp only [List.mem_map, exists_exists_and_eq_and]

/-- **A compaction is complete.** -/
theorem Sound.compactsFully (h : Sound T s) : CompactsFully T s := by
  have hmerged := compact_merged (T := T) s.pool
  have hcover := cover_merged hmerged h.free_inSpace
  refine ⟨?_, fun x => ?_, sortBySize_sorted _⟩
  · have hspace : InSpace T ((compact T s).pool.availableBlocks.map (Block.extent T)) := fun x hx =>
      h.free_inSpace x (by rw [← hcover]; exact hx)
    intro b hb other hother hnext
    have hpassed := mergeAdjacent_passed (T := T) [] s.pool.availableBlocks (Nat.le_refl _)
      (fun b hb => absurd hb List.not_mem_nil)
    have hperm := sortBySize_perm
      (mergeAdjacent T s.pool.availableBlocks.length [] s.pool.availableBlocks)
    have haddr := hpassed b (hperm.mem_iff.1 hb) other (hperm.mem_iff.1 hother) hnext
    exact hspace.next_ne hb (haddr.symm.trans hnext)
  · rw [← cover_pos_blocks, ← cover_pos_blocks]
    exact iff_of_eq (congrArg (0 < ·) (hcover x))

/-- **The merged blocks hold a request just where a row of free bytes
does**, with a header. -/
theorem Sound.freeRow_iff (h : Sound T s) (hmerged : Merged T s.pool.availableBlocks bs)
    (hnone : NoneAdjacent T bs) :
    FreeRow T s (T.headerSize + size) ↔ ∃ b ∈ bs, size ≤ b.size := by
  have hpos := T.headerSize_pos
  have hcover := cover_merged hmerged h.free_inSpace
  have hspace : InSpace T (bs.map (Block.extent T)) := fun x hx =>
    h.free_inSpace x (by rw [← hcover]; exact hx)
  simp only [FreeRow, ← cover_pos_blocks, ← hcover]
  constructor
  · rintro ⟨a, hrow⟩
    obtain ⟨b, hb, ha⟩ := cover_pos_blocks.1 (hrow a (Nat.le_refl a) (by omega))
    refine ⟨b, hb, ?_⟩
    -- the block the row begins in holds all of it
    have hstop := stop_le_of_covered (fun x => by rw [hcover]; exact h.free_once x)
      (List.mem_map_of_mem hb) ha ?_ hrow
    · rw [Extent.mem_def] at ha
      simp only [Block.extent, Extent.stop] at ha hstop
      omega
    · intro e he
      obtain ⟨other, hother, rfl⟩ := List.mem_map.1 he
      exact hspace.addr_ne_stop hnone hb hother
  · rintro ⟨b, hb, hle⟩
    refine ⟨b.addr, fun x hx hlt => cover_pos (List.mem_map_of_mem hb) ⟨hx, ?_⟩⟩
    simp only [Block.extent, Extent.stop]
    omega

/-! ## The request -/

/-- **`malloc` gives up last exactly where a compaction decides nothing.** -/
theorem Sound.givesUpLast_iff (h : Sound T s) : GivesUpLast T s size ↔ Decided T s size := by
  obtain ⟨hadjacent, -, -⟩ := h.compactsFully
  have hmerged := compact_merged (T := T) s.pool
  rcases malloc_cases (T := T) s.pool size with
    ⟨block, others, hsearch, hmalloc⟩ | ⟨hsearch, hmalloc⟩
  · obtain ⟨hle, hperm⟩ := search_some hsearch
    refine iff_of_true (fun hnone => ?_) (Or.inl ⟨block, ?_, hle⟩)
    · rw [hmalloc] at hnone
      cases hnone
    · exact hperm.mem_iff.2 List.mem_cons_self
  · have hsmall : ¬∃ b ∈ s.pool.availableBlocks, T.requiredSize size ≤ b.size := by
      rintro ⟨b, hb, hle⟩
      exact absurd hle (Nat.not_le.2 (search_none hsearch b hb))
    rw [Decided, or_iff_right hsmall]
    constructor
    · intro hlast hrow
      obtain ⟨b, hb, hle⟩ := (h.freeRow_iff hmerged hadjacent).1 hrow
      exact absurd hle (Nat.not_le.2 (hlast (by rw [hmalloc]) _ hmerged hadjacent b hb))
    · intro hrow _ bs hbs hnone b hb
      by_contra hge
      exact hrow ((h.freeRow_iff hbs hnone).2 ⟨b, hb, Nat.not_lt.1 hge⟩)

/-- **In every state of a run of calls, a compaction is complete, and a
request gives up last exactly where a compaction decides nothing.** -/
theorem givesUpLast_run_iff (T : Target) (calls : List Call)
    (hlegal : Along (call T) (Legal T) empty calls) :
    Throughout (call T) (fun s => ∀ size, GivesUpLast T s size ∧ CompactsFully T s ↔
      Decided T s size) empty calls :=
  throughout_of_invariant hlegal (sound_empty T) (fun _ _ hs hc => hs.call hc) fun _ hs _ =>
    (and_iff_left hs.compactsFully).trans hs.givesUpLast_iff

/-- Two blocks of a page, one of them freed, and a compaction. -/
theorem givesUpLast_run_iff_free :
    Throughout (call .x86_32) (fun s => ∀ size, GivesUpLast .x86_32 s size ∧
      CompactsFully .x86_32 s ↔ Decided .x86_32 s size) empty
        [.addPages 1 0x10000, .superMalloc 2000, .superMalloc 40, .free 0x1000c, .compact] :=
  givesUpLast_run_iff .x86_32 _ (by decide +kernel)

/-- **Two adjacent free blocks of a page hold neither 4000 bytes**, which
they would merged, and the request is refused. -/
theorem givesUpLast_run_broken :
    let calls : List Call := [.addPages 1 0x10000, .superMalloc 2000, .free 0x1000c]
    Along (call .x86_32) (Legal .x86_32) empty calls ∧
      ¬GivesUpLast .x86_32 (run (call .x86_32) empty calls) 4000 := by
  intro calls
  refine ⟨by decide +kernel, fun hlast => ?_⟩
  have hcompacted : NoneAdjacent .x86_32
      ((run (call .x86_32) empty calls).pool.compact .x86_32).2.availableBlocks := by
    decide +kernel
  have hsmall := hlast (by decide +kernel) _ (compact_merged _) hcompacted ⟨0x10000, 4084⟩
    (by decide +kernel)
  exact absurd hsmall (by decide +kernel)

end Heap

end Uberos
