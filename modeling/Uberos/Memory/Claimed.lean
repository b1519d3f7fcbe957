import Uberos.Memory.Model
import Uberos.Mmu.Tables
/-!
# What an allocation claims, and what a release gives back

An allocation claims and maps its pages one by one, and returns the last
of them. Where a claim is refused on the way those before it are kept,
and a release reads the physical address of the page it is given and
releases that page alone, whatever its count. So a failed allocation
changes nothing where its first claim is refused, and a release undoes an
allocation of one page at most.
-/

namespace Uberos

namespace Memory

open AllocationMask Mmu Mapping Library

variable {s s' : Memory} {page : Page} {count n virtualAddress physical index i : ℕ}

/-! ## What it is for -/

/-- **Nothing changed**: what was claimed and mapped still is and no more
is, and what could be allocated still can be. -/
structure Unchanged (s s' : Memory) : Prop where
  claimed : claimedIndices s'.pageAllocations = claimedIndices s.pageAllocations
  mapping : s'.kernelMapping = s.kernelMapping
  later : ∀ count page s₁, s.allocatePages count = some (some page, s₁) →
    ∃ page' s₂, s'.allocatePages count = some (some page', s₂)

/-- **The release undoes the allocation**: it returns, what was claimed
before is claimed and nothing else is, and nothing of it was released. -/
def Undone (s s' : Memory) (page : Page) (count : ℕ) : Prop :=
  ∃ page' s'', s'.freePages page count = some (page', s'') ∧
    claimedIndices s''.pageAllocations = claimedIndices s.pageAllocations ∧
    claimedIndices s.pageAllocations ⊆ claimedIndices s''.pageAllocations

/-! ## One page -/

/-- **A page was claimed and mapped**: one more index is claimed, and the
page's address is that of the index the claim answered. -/
structure PageClaimed (s : Memory) (virtualAddress index i : ℕ) (s' : Memory) : Prop where
  fresh : i ∉ claimedIndices s.pageAllocations
  claimed : claimedIndices s'.pageAllocations = insert i (claimedIndices s.pageAllocations)
  index_lt : index < s'.pageAllocations.count
  index_eq : index = i ↔ FindsGroup s.pageAllocations
  frees : index % 256 < 8 ∨ index + 1 = s'.pageAllocations.afterLastTaken
  physical : s'.kernelMapping.getPhysical virtualAddress = some (s'.indexToPhysical index)

/-- An index and its page. -/
theorem physicalToIndex_indexToPhysical (hindex : index < s.pageAllocations.count) :
    s.physicalToIndex (s.indexToPhysical index) = index := by
  have hfits := s.fits
  unfold physicalToIndex indexToPhysical
  omega

theorem mapHigh_getPhysical {m m' : Mapping} (hphysical : physical < 2 ^ 32)
    (hmap : mapHigh m physical = some (virtualAddress, m')) :
    m'.getPhysical virtualAddress = some physical := by
  unfold mapHigh at hmap
  split at hmap
  · rename_i hin
    exact getPhysical_of_mapPhysicalHigh hin.1 hin.2 hphysical hmap
  · cases hmap

/-- A claim that is refused leaves what is claimed as it is. -/
theorem claimPage_of_exhausted (h : Exhausted s.pageAllocations) :
    s.claimPage = some (none, s.claimed) ∧
      claimedIndices s.claimed.pageAllocations = claimedIndices s.pageAllocations := by
  rcases s.sized.claim_cases (T := .x86_32) rfl with ⟨-, e, m', hclaim, hsame⟩ | ⟨hnot, -⟩
  · refine ⟨?_, ?_⟩
    · simp only [claimPage, hclaim]
    · simp only [Memory.claimed, hclaim]
      exact hsame
  · exact absurd h hnot

/-- **A page is claimed where an index is left**, if the call returns. -/
theorem claimPage_of_not_exhausted (h : ¬ Exhausted s.pageAllocations) {r : Option (ℕ × ℕ)}
    (hcall : s.claimPage = some (r, s')) :
    ∃ virtualAddress physical index i, r = some (virtualAddress, physical) ∧
      PageClaimed s virtualAddress index i s' := by
  rcases s.sized.claim_cases (T := .x86_32) rfl with
    ⟨hex, -⟩ | ⟨-, index, i, mask, hclaim, hfresh, hinsert, hlt, hgroup, hfrees⟩
  · exact absurd hex h
  · simp only [claimPage, hclaim, Option.bind_eq_bind, Option.bind_eq_some_iff] at hcall
    obtain ⟨⟨virtualAddress, m⟩, hmap, hcall⟩ := hcall
    rw [Option.some.injEq, Prod.mk.injEq] at hcall
    obtain ⟨rfl, rfl⟩ := hcall
    have hcount : mask.count = s.pageAllocations.count := by
      have := (claim_size (T := .x86_32) s.pageAllocations).1
      rwa [hclaim] at this
    refine ⟨_, _, index, i, rfl, hfresh, ?_, ?_, hgroup, ?_, ?_⟩
    · simp only [Memory.claimed, hclaim]
      exact hinsert
    · simp only [Memory.claimed, hclaim]
      omega
    · simp only [Memory.claimed, hclaim]
      exact hfrees
    · exact mapHigh_getPhysical (Nat.mod_lt _ (by omega)) hmap

/-- One index more is claimed, or none. -/
theorem claimPage_card {r : Option (ℕ × ℕ)} (hcall : s.claimPage = some (r, s')) :
    (claimedIndices s'.pageAllocations).card =
      (claimedIndices s.pageAllocations).card + if r.isSome then 1 else 0 := by
  by_cases h : Exhausted s.pageAllocations
  · obtain ⟨hnull, hsame⟩ := claimPage_of_exhausted h
    rw [hnull, Option.some.injEq, Prod.mk.injEq] at hcall
    obtain ⟨rfl, rfl⟩ := hcall
    rw [hsame]
    rfl
  · obtain ⟨virtualAddress, physical, index, i, rfl, hclaimed⟩ := claimPage_of_not_exhausted h hcall
    rw [hclaimed.claimed, Finset.card_insert_of_notMem hclaimed.fresh]
    rfl

/-! ## Several -/

/-- **The loop keeps what it claimed**, whether it runs to its end or
not. -/
theorem claimPages_card {done : Bool} (hcall : claimPages n s = some (done, s')) :
    (claimedIndices s.pageAllocations).card ≤ (claimedIndices s'.pageAllocations).card ∧
      (done = true → (claimedIndices s'.pageAllocations).card =
        (claimedIndices s.pageAllocations).card + n) := by
  induction n generalizing s with
  | zero =>
    rw [claimPages, Option.some.injEq, Prod.mk.injEq] at hcall
    obtain ⟨-, rfl⟩ := hcall
    exact ⟨le_rfl, fun _ => rfl⟩
  | succ n ih =>
    simp only [claimPages, Option.bind_eq_bind, Option.bind_eq_some_iff] at hcall
    obtain ⟨⟨r, s₁⟩, hpage, hcall⟩ := hcall
    have hcard := claimPage_card hpage
    cases r with
    | none =>
      rw [Option.some.injEq, Prod.mk.injEq] at hcall
      obtain ⟨rfl, rfl⟩ := hcall
      exact ⟨by simp only [hcard]; omega, nofun⟩
    | some claimed =>
      obtain ⟨hle, hdone⟩ := ih hcall
      simp only [Option.isSome_some, if_true] at hcard
      exact ⟨by omega, fun h => by have := hdone h; omega⟩

/-- What the call returns, by where it stops. -/
theorem allocatePages_eq {r : Option Page} (hcall : s.allocatePages (n + 1) = some (r, s')) :
    ∃ done s₁, claimPages n s = some (done, s₁) ∧
      match done with
      | false => r = none ∧ s' = s₁
      | true => ∃ r₁, s₁.claimPage = some (r₁, s') ∧
          r = r₁.map fun claimed => ⟨claimed.1, claimed.2, n + 1⟩ := by
  rw [allocatePages, if_neg (by omega), Nat.add_sub_cancel] at hcall
  simp only [Option.bind_eq_bind, Option.bind_eq_some_iff] at hcall
  obtain ⟨⟨done, s₁⟩, hpages, hcall⟩ := hcall
  refine ⟨done, s₁, hpages, ?_⟩
  cases done with
  | false =>
    rw [Option.some.injEq, Prod.mk.injEq] at hcall
    exact ⟨hcall.1.symm, hcall.2.symm⟩
  | true =>
    simp only [Option.bind_eq_some_iff] at hcall
    obtain ⟨⟨r₁, s₂⟩, hpage, hcall⟩ := hcall
    cases r₁ with
    | none =>
      rw [Option.some.injEq, Prod.mk.injEq] at hcall
      obtain ⟨rfl, rfl⟩ := hcall
      exact ⟨none, hpage, rfl⟩
    | some claimed =>
      rw [Option.some.injEq, Prod.mk.injEq] at hcall
      obtain ⟨rfl, rfl⟩ := hcall
      exact ⟨some claimed, hpage, rfl⟩

/-! ## A failed allocation -/

/-- Where no index is left nothing is allocated. -/
theorem allocatePages_of_exhausted (h : Exhausted s.pageAllocations) :
    s.allocatePages (n + 1) = some (none, s.claimed) := by
  have hpage := (claimPage_of_exhausted h).1
  rw [allocatePages, if_neg (by omega), Nat.add_sub_cancel]
  cases n with
  | zero => simp only [claimPages, hpage, Option.bind_eq_bind, Option.bind_some]
  | succ n => simp only [claimPages, hpage, Option.bind_eq_bind, Option.bind_some]

/-- Where one is left, a failed allocation has claimed it. -/
theorem card_lt_of_null (h : ¬ Exhausted s.pageAllocations)
    (hcall : s.allocatePages (n + 1) = some (none, s')) :
    (claimedIndices s.pageAllocations).card < (claimedIndices s'.pageAllocations).card := by
  obtain ⟨done, s₁, hpages, hcall⟩ := allocatePages_eq hcall
  cases n with
  | zero =>
    -- the first claim is the last one, and is met
    rw [claimPages, Option.some.injEq, Prod.mk.injEq] at hpages
    obtain ⟨rfl, rfl⟩ := hpages
    obtain ⟨r, hpage, hnone⟩ := hcall
    obtain ⟨virtualAddress, physical, index, i, rfl, -⟩ := claimPage_of_not_exhausted h hpage
    cases hnone
  | succ n =>
    simp only [claimPages, Option.bind_eq_bind, Option.bind_eq_some_iff] at hpages
    obtain ⟨⟨r, s₂⟩, hpage, hpages⟩ := hpages
    obtain ⟨virtualAddress, physical, index, i, rfl, -⟩ := claimPage_of_not_exhausted h hpage
    have hfirst := claimPage_card hpage
    have hrest := (claimPages_card hpages).1
    simp only [Option.isSome_some, if_true] at hfirst
    cases done with
    | false =>
      obtain ⟨-, rfl⟩ := hcall
      omega
    | true =>
      obtain ⟨r, hlast, -⟩ := hcall
      have hcard := claimPage_card hlast
      omega

/-- **A failed allocation changes nothing exactly when it asks for no page
or no index is left at all.** Otherwise the pages it claimed and mapped
before it failed stay so. -/
theorem unchanged_iff (h : s.allocatePages count = some (none, s')) :
    Unchanged s s' ↔ count = 0 ∨ Exhausted s.pageAllocations := by
  constructor
  · intro hsame
    cases count with
    | zero => exact Or.inl rfl
    | succ n =>
      refine Or.inr ?_
      by_contra hnot
      have hlt := card_lt_of_null hnot h
      rw [hsame.claimed] at hlt
      exact lt_irrefl _ hlt
  · intro hcondition
    cases count with
    | zero =>
      rw [allocatePages, if_pos (by omega), Option.some.injEq, Prod.mk.injEq] at h
      obtain ⟨-, rfl⟩ := h
      exact ⟨rfl, rfl, fun _ page s₁ hcall => ⟨page, s₁, hcall⟩⟩
    | succ n =>
      have hex := hcondition.resolve_left (Nat.succ_ne_zero n)
      rw [allocatePages_of_exhausted hex, Option.some.injEq, Prod.mk.injEq] at h
      obtain ⟨-, rfl⟩ := h
      refine ⟨(claimPage_of_exhausted hex).2, rfl, fun count page s₁ hcall => ?_⟩
      -- nothing could be allocated before either
      cases count with
      | zero =>
        rw [allocatePages, if_pos (by omega)] at hcall
        cases hcall
      | succ k =>
        rw [allocatePages_of_exhausted hex] at hcall
        cases hcall

/-- 32 pages of heap and one table, before any page is allocated. -/
def freshHeap : Memory :=
  .new 0x200000 32 (.new ⟨0x100000, 1, by decide, by decide⟩ fun _ _ => default) (by decide)

/-- The same, of which so many pages were allocated in one call. -/
def smallHeap (count : ℕ) : Memory := (run step (.new freshHeap) [.allocate count]).memory

/-- No page is left. -/
theorem unchanged_full : Unchanged (smallHeap 32) (smallHeap 32).claimed :=
  (unchanged_iff (allocatePages_of_exhausted (n := 0) (by decide +kernel))).2
    (Or.inr (by decide +kernel))

/-- **Two pages where one is left**: it is claimed and lost. -/
theorem not_unchanged_two :
    ¬ ∀ s', (smallHeap 31).allocatePages 2 = some (none, s') → Unchanged (smallHeap 31) s' := by
  intro h
  have hcall : ((smallHeap 31).allocatePages 2).map (fun r =>
      (r.1, claimedIndices r.2.pageAllocations)) = some (none, Finset.range 32) := by
    decide +kernel
  obtain ⟨⟨r, s'⟩, hcall, hr⟩ := Option.map_eq_some_iff.1 hcall
  rw [Prod.mk.injEq] at hr
  obtain ⟨rfl, hclaimed⟩ := hr
  have hsame := (h s' hcall).claimed
  rw [hclaimed] at hsame
  have hbefore : claimedIndices (smallHeap 31).pageAllocations = Finset.range 31 := by
    decide +kernel
  rw [hbefore] at hsame
  exact absurd hsame (by decide)

/-! ## A release -/

/-- The last page claimed is the one that is released. -/
theorem undone_iff_erase (h : s.allocatePages (n + 1) = some (some page, s')) :
    ∃ s₁ virtualAddress index i, claimPages n s = some (true, s₁) ∧
      PageClaimed s₁ virtualAddress index i s' ∧
      (Undone s s' page (n + 1) ↔
        (insert i (claimedIndices s₁.pageAllocations)).erase index =
          claimedIndices s.pageAllocations) := by
  obtain ⟨done, s₁, hpages, hcall⟩ := allocatePages_eq h
  cases done with
  | false => cases hcall.1
  | true =>
    obtain ⟨r, hpage, hr⟩ := hcall
    by_cases hex : Exhausted s₁.pageAllocations
    · rw [(claimPage_of_exhausted hex).1, Option.some.injEq, Prod.mk.injEq] at hpage
      obtain ⟨rfl, -⟩ := hpage
      cases hr
    · obtain ⟨virtualAddress, physical, index, i, rfl, hclaimed⟩ :=
        claimPage_of_not_exhausted hex hpage
      rw [Option.map_some, Option.some.injEq] at hr
      subst hr
      have hreleased : s'.freePages ⟨virtualAddress, physical, n + 1⟩ (n + 1) =
          some (⟨virtualAddress, s'.indexToPhysical index, n + 1⟩, s'.released index) := by
        simp only [freePages, hclaimed.physical, Option.bind_eq_bind, Option.bind_some,
          physicalToIndex_indexToPhysical hclaimed.index_lt]
      have herase := s'.sized.claimedIndices_release hclaimed.index_lt hclaimed.frees
      rw [hclaimed.claimed] at herase
      refine ⟨s₁, virtualAddress, index, i, hpages, hclaimed, ?_, ?_⟩
      · rintro ⟨page', s'', hcall, heq, -⟩
        rw [hreleased, Option.some.injEq, Prod.mk.injEq] at hcall
        obtain ⟨-, rfl⟩ := hcall
        exact herase.symm.trans heq
      · intro heq
        exact ⟨_, _, hreleased, herase.trans heq, (herase.trans heq).ge⟩

/-- **A release undoes an allocation exactly when it is of one page, and
its claim answers the index it claims.** Of several pages all but the
last stay claimed. -/
theorem undone_iff (h : s.allocatePages count = some (some page, s')) :
    Undone s s' page count ↔ count = 1 ∧ FindsGroup s.pageAllocations := by
  cases count with
  | zero =>
    rw [allocatePages, if_pos (by omega)] at h
    cases h
  | succ n =>
    obtain ⟨s₁, virtualAddress, index, i, hpages, hclaimed, hundone⟩ := undone_iff_erase h
    rw [hundone]
    cases n with
    | zero =>
      rw [claimPages, Option.some.injEq, Prod.mk.injEq] at hpages
      obtain ⟨-, rfl⟩ := hpages
      rw [← hclaimed.index_eq]
      constructor
      · intro heq
        refine ⟨rfl, ?_⟩
        -- an index that was claimed and not answered is not released
        by_contra hne
        have hmem := Finset.mem_erase.2 ⟨Ne.symm hne,
          Finset.mem_insert_self i (claimedIndices s.pageAllocations)⟩
        rw [heq] at hmem
        exact hclaimed.fresh hmem
      · rintro ⟨-, rfl⟩
        exact Finset.erase_insert hclaimed.fresh
    | succ n =>
      refine iff_of_false (fun heq => ?_) (by omega)
      have hbefore := (claimPages_card hpages).2 rfl
      have hafter := Finset.pred_card_le_card_erase (a := index)
        (s := insert i (claimedIndices s₁.pageAllocations))
      rw [heq, Finset.card_insert_of_notMem hclaimed.fresh] at hafter
      omega

/-- One page of a heap of which none was allocated. -/
theorem undone_one :
    ∃ page s', freshHeap.allocatePages 1 = some (some page, s') ∧ Undone freshHeap s' page 1 :=
  ⟨_, _, rfl, (undone_iff rfl).2 (by decide +kernel)⟩

/-- **Two pages of it**: the first stays claimed. -/
theorem not_undone_two :
    ¬ ∀ page s', freshHeap.allocatePages 2 = some (some page, s') → Undone freshHeap s' page 2 := by
  intro h
  have hcall : (freshHeap.allocatePages 2).bind (fun r => r.1.bind fun page =>
      (r.2.freePages page 2).map fun r' => claimedIndices r'.2.pageAllocations) = some {0} := by
    decide +kernel
  obtain ⟨⟨r, s'⟩, hcall, hfree⟩ := Option.bind_eq_some_iff.1 hcall
  obtain ⟨page, rfl, hfree⟩ := Option.bind_eq_some_iff.1 hfree
  obtain ⟨⟨page', s''⟩, hfree, hclaimed⟩ := Option.map_eq_some_iff.1 hfree
  obtain ⟨page₁, s₁, hfree₁, hsame, -⟩ := h page s' hcall
  rw [hfree, Option.some.injEq, Prod.mk.injEq] at hfree₁
  obtain ⟨-, rfl⟩ := hfree₁
  have hbefore : claimedIndices freshHeap.pageAllocations = ∅ := by decide +kernel
  rw [hbefore, hclaimed] at hsame
  exact absurd hsame (by decide)

end Memory

end Uberos
