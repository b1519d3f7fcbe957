import Uberos.Memory.Claimed
import Uberos.Mmu.Pages
/-!
# The address space is used up

Every page that is claimed is mapped at the next address of the high
cursor, and a page that is freed keeps its address: the cursor goes down
by a page for each one ever claimed, and the tables follow it. So what
bounds them is what a run claims altogether, and a run that holds one
page at a time ends at the assertion of `create_table`.
-/

namespace Uberos

namespace Memory

open AllocationMask Mmu Mapping Library

variable {s s' : Memory} {m m₀ : Mapping} {t : TwoLevel TableEntry} {u : Usage} {op : Op}
variable {n N physical : ℕ}

/-! ## What it is for -/

/-- At most `N` pages are outstanding. -/
def Balanced (N : ℕ) (u : Usage) : Prop := (u.live.map Page.count).sum ≤ N

instance (N : ℕ) (u : Usage) : Decidable (Balanced N u) := inferInstanceAs (Decidable (_ ≤ _))

/-- The tables the next `n` pages of the high cursor take: those of the
directory entries it comes to, and its first. -/
def tablesFor (m : Mapping) (n : ℕ) : ℕ :=
  (m.highPage + 1) / 1024 - (m.highPage + 1 - n) / 1024 +
    if m.highPage = 2 ^ 20 - 2 ∧ 0 < n then 1 else 0

/-- **So many pages fit**: above the tables of the low cursor and the
first page of all, in tables that are left. -/
def Fits (m : Mapping) (n : ℕ) : Prop :=
  max 1 ((m.lowPage + 1023) / 1024 * 1024) + n ≤ m.highPage + 1 ∧
    m.nextTableIndex + tablesFor m n ≤ m.pool.tablesCount

instance (m : Mapping) (n : ℕ) : Decidable (Fits m n) := inferInstanceAs (Decidable (_ ∧ _))

/-- The call does not stop at an assertion. -/
def Unexhausted (u : Usage) : Op → Prop
  | .allocate count => (u.memory.allocatePages count).isSome
  | .free _ _ => True

/-- **What is used is bounded** by a number of pages: the way of the high
cursor, and the tables taken. -/
structure Bounded (m₀ : Mapping) (N : ℕ) (u : Usage) : Prop where
  below : u.memory.kernelMapping.highPage ≤ m₀.highPage
  distance : m₀.highPage ≤ u.memory.kernelMapping.highPage + N
  tables : u.memory.kernelMapping.nextTableIndex ≤ m₀.nextTableIndex + ((N + 1023) / 1024 + 1)

/-- **The run claims at most `N` pages altogether**, those it has freed
counted with the others. -/
def Within (N : ℕ) (u : Usage) : Op → Prop
  | .allocate count => u.claimedCount + claimable count u.memory.pageAllocations ≤ N
  | .free _ _ => True

instance Within.decidable (N : ℕ) (u : Usage) : ∀ op, Decidable (Within N u op)
  | .allocate _ => inferInstanceAs (Decidable (_ ≤ _))
  | .free _ _ => inferInstanceAs (Decidable True)

/-! ## Tables -/

/-- A page takes a table where the cursor begins one. -/
theorem tablesFor_succ (hn : n ≤ m.highPage) (hlast : m.highPage < 2 ^ 20 - 1) :
    tablesFor m (n + 1) = tablesFor m n + if FirstHigh (m.highPage - n) then 1 else 0 := by
  have hbelow : (m.highPage + 1 - n) / 1024 ≤ (m.highPage + 1) / 1024 :=
    Nat.div_le_div_right (Nat.sub_le ..)
  have hpage : m.highPage + 1 - (n + 1) = m.highPage - n := Nat.add_sub_add_right ..
  have hstep : (m.highPage + 1 - n) / 1024 =
      (m.highPage - n) / 1024 + if (m.highPage - n) % 1024 = 1023 then 1 else 0 := by
    split <;> omega
  unfold tablesFor
  rw [hpage]
  rw [hstep] at hbelow ⊢
  generalize (m.highPage - n) / 1024 = below at hbelow ⊢
  generalize (m.highPage + 1) / 1024 = above at hbelow ⊢
  -- the first page of all begins a table, and is not the last of an entry
  by_cases hfirst : m.highPage - n = 2 ^ 20 - 2
  · have hentry : ¬ (m.highPage - n) % 1024 = 1023 := by omega
    have hcursor : m.highPage = 2 ^ 20 - 2 := by omega
    have hbegins : FirstHigh (m.highPage - n) := .inr hfirst
    rw [if_pos ⟨hcursor, Nat.succ_pos n⟩, if_neg hentry, if_neg (by omega), if_pos hbegins]
    omega
  · have hlater : (m.highPage = 2 ^ 20 - 2 ∧ 0 < n + 1) ↔ m.highPage = 2 ^ 20 - 2 ∧ 0 < n := by
      omega
    have hbegins : FirstHigh (m.highPage - n) ↔ (m.highPage - n) % 1024 = 1023 :=
      or_iff_left hfirst
    rw [if_congr hlater rfl rfl, if_congr hbegins rfl rfl]
    split <;> omega

theorem tablesFor_zero (m : Mapping) : tablesFor m 0 = 0 := by
  unfold tablesFor
  split <;> omega

theorem tablesFor_le (m : Mapping) (n : ℕ) : tablesFor m n ≤ (n + 1023) / 1024 + 1 := by
  unfold tablesFor
  split <;> omega

/-- What fits with more fits. -/
theorem Fits.mono (h : Fits m N) (hn : n ≤ N) : Fits m n := by
  obtain ⟨hpages, htables⟩ := h
  refine ⟨by omega, ?_⟩
  have hle : tablesFor m n ≤ tablesFor m N := by
    unfold tablesFor
    split <;> split <;> omega
  omega

/-! ## The way of the cursor -/

/-- **So many pages were mapped** at the high cursor since, and none at
the low one. -/
structure Travelled (m₀ : Mapping) (n : ℕ) (m : Mapping) : Prop where
  paged : ∃ t, Paged m t
  distance : m.highPage + n = m₀.highPage
  lowPage : m.lowPage = m₀.lowPage
  tables : m.nextTableIndex = m₀.nextTableIndex + tablesFor m₀ n
  pool : m.pool = m₀.pool

theorem Travelled.refl (h : Paged m t) : Travelled m 0 m where
  paged := ⟨t, h⟩
  distance := Nat.add_zero _
  lowPage := rfl
  tables := by rw [tablesFor_zero, Nat.add_zero]
  pool := rfl

/-- The high cursor is in the directory. -/
theorem mapHigh_eq (h : Paged m t) (physical : ℕ) :
    mapHigh m physical = m.mapPhysicalHigh physical {} := by
  have hlast := h.last
  unfold highPage at hlast
  exact if_pos ⟨by omega, h.highTable⟩

/-- **One page more**, where it fits. -/
theorem Travelled.mapHigh (h : Travelled m₀ n m) (hlast : m₀.highPage < 2 ^ 20 - 1)
    (hfits : Fits m₀ (n + 1)) (physical : ℕ) :
    ∃ m', mapHigh m physical = some (m.highPage * 4096 + physical % 4096, m') ∧
      Travelled m₀ (n + 1) m' := by
  obtain ⟨t, ht⟩ := h.paged
  obtain ⟨hpages, htables⟩ := hfits
  have hdistance := h.distance
  have hlow := h.lowPage
  rw [tablesFor_succ (by omega) hlast] at htables
  have hhigh : m₀.highPage - n = m.highPage := by omega
  rw [hhigh] at htables
  obtain ⟨m', t', hcall, hout, hlow', hhigh'⟩ := ht.mapPhysicalHigh (by omega)
    (fun hfirst => by
      rw [if_pos hfirst] at htables
      rw [h.pool, h.tables]
      omega)
    (fun _ => by
      unfold BegunLow
      omega) (by omega) physical {}
  rw [mapHigh_eq ht]
  refine ⟨m', hcall, ⟨t', hout.paged⟩, by omega, hlow'.trans hlow, ?_, hout.pool.trans h.pool⟩
  rw [hout.next, h.tables, tablesFor_succ (by omega) hlast, hhigh, Nat.add_assoc]
  simp only [decide_eq_true_eq]

/-! ## Allocations -/

/-- How many claims are met, one at a time. -/
theorem claimable_succ_of_exhausted (h : Exhausted s.pageAllocations) :
    claimable (n + 1) s.pageAllocations = 0 := by
  rcases s.sized.claim_cases (T := .x86_32) rfl with ⟨-, e, m', hclaim, -⟩ | ⟨hnot, -⟩
  · simp only [claimable, hclaim]
  · exact absurd h hnot

/-- A page is claimed, and the cursor goes past it. -/
theorem Travelled.claimPage (h : Travelled m₀ n s.kernelMapping)
    (hlast : m₀.highPage < 2 ^ 20 - 1) (hfits : Fits m₀ (n + 1))
    (hleft : ¬ Exhausted s.pageAllocations) :
    ∃ claimed s', s.claimPage = some (some claimed, s') ∧ Travelled m₀ (n + 1) s'.kernelMapping ∧
      ∀ k, claimable (k + 1) s.pageAllocations = claimable k s'.pageAllocations + 1 := by
  rcases s.sized.claim_cases (T := .x86_32) rfl with ⟨hex, -⟩ | ⟨-, index, i, mask, hclaim, -⟩
  · exact absurd hex hleft
  · obtain ⟨m', hmap, htravelled⟩ := h.mapHigh hlast hfits (s.indexToPhysical index)
    refine ⟨(s.kernelMapping.highPage * 4096 + s.indexToPhysical index % 4096,
      s.indexToPhysical index), { s.claimed with kernelMapping := m' }, ?_, htravelled, fun k => ?_⟩
    · simp only [Memory.claimPage, hclaim, hmap, Option.bind_eq_bind, Option.bind_some]
    · simp only [claimable, hclaim, Memory.claimed]

/-- The loop goes as far as it claims. -/
theorem Travelled.claimPages {count : ℕ} (h : Travelled m₀ n s.kernelMapping)
    (hlast : m₀.highPage < 2 ^ 20 - 1)
    (hfits : Fits m₀ (n + claimable count s.pageAllocations)) :
    ∃ done s', claimPages count s = some (done, s') ∧
      Travelled m₀ (n + claimable count s.pageAllocations) s'.kernelMapping := by
  induction count generalizing n s with
  | zero => exact ⟨true, s, rfl, h⟩
  | succ count ih =>
    by_cases hex : Exhausted s.pageAllocations
    · rw [claimable_succ_of_exhausted hex]
      refine ⟨false, s.claimed, ?_, h⟩
      simp only [Memory.claimPages, (claimPage_of_exhausted hex).1, Option.bind_eq_bind,
        Option.bind_some]
    · obtain ⟨claimed, s₁, hpage, htravelled, hclaimable⟩ := h.claimPage hlast
        (hfits.mono (by
          rcases s.sized.claim_cases (T := .x86_32) rfl with
            ⟨hcon, -⟩ | ⟨-, index, i, mask, hclaim, -⟩
          · exact absurd hcon hex
          · simp only [claimable, hclaim]
            omega)) hex
      rw [hclaimable, ← Nat.add_assoc, Nat.add_right_comm] at hfits ⊢
      obtain ⟨done, s', hpages, htravelled'⟩ := ih htravelled hfits
      refine ⟨done, s', ?_, htravelled'⟩
      rw [Memory.claimPages, hpage]
      exact hpages

/-- The last page is claimed as those before it are. -/
theorem claimPages_succ (count : ℕ) (s : Memory) :
    claimPages (count + 1) s = (claimPages count s).bind fun (done, s') =>
      if done then s'.claimPage.map fun (claimed, s'') => (claimed.isSome, s'')
      else some (false, s') := by
  induction count generalizing s with
  | zero =>
    simp only [claimPages, Option.bind_eq_bind, Option.bind_some, if_true, Option.map_eq_bind]
    congr 1
    funext result
    obtain ⟨claimed, s'⟩ := result
    cases claimed <;> rfl
  | succ count ih =>
    rw [claimPages, claimPages]
    simp only [Option.bind_eq_bind, Option.bind_assoc]
    congr 1
    funext result
    obtain ⟨claimed, s'⟩ := result
    cases claimed with
    | none => rfl
    | some claimed => exact ih s'

/-- An allocation leaves what claiming its pages does. -/
theorem allocatePages_memory (s : Memory) (count : ℕ) :
    (s.allocatePages count).map Prod.snd = (claimPages count s).map Prod.snd := by
  cases count with
  | zero => rfl
  | succ count =>
    rw [claimPages_succ, allocatePages, if_neg (by omega), Nat.add_sub_cancel]
    rcases claimPages count s with - | ⟨done, s'⟩
    · rfl
    · cases done with
      | false => rfl
      | true =>
        rcases hpage : s'.claimPage with - | ⟨claimed, s''⟩
        · simp only [Option.bind_eq_bind, Option.bind_some, hpage, if_true]
          rfl
        · cases claimed <;>
            simp only [Option.bind_eq_bind, Option.bind_some, hpage, if_true] <;> rfl

/-! ## Runs -/

/-- What a run keeps: the cursor has gone as far as pages were claimed. -/
structure Counted (m₀ : Mapping) (N : ℕ) (u : Usage) : Prop where
  travelled : Travelled m₀ u.claimedCount u.memory.kernelMapping
  within : u.claimedCount ≤ N

theorem Counted.bounded (h : Counted m₀ N u) : Bounded m₀ N u where
  below := by
    have := h.travelled.distance
    omega
  distance := by
    have := h.travelled.distance
    have := h.within
    omega
  tables := by
    have hle := tablesFor_le m₀ u.claimedCount
    have hwithin := h.within
    rw [h.travelled.tables]
    omega

/-- **The step lemma.** -/
theorem Counted.step (h : Counted m₀ N u) (hlast : m₀.highPage < 2 ^ 20 - 1) (hfits : Fits m₀ N)
    (hwithin : Within N u op) : Unexhausted u op ∧ Counted m₀ N (step u op) := by
  cases op with
  | allocate count =>
    have hcount : u.claimedCount + claimable count u.memory.pageAllocations ≤ N := hwithin
    obtain ⟨done, s', hpages, htravelled⟩ := h.travelled.claimPages hlast (hfits.mono hcount)
    have hmemory := allocatePages_memory u.memory count
    rw [hpages, Option.map_some] at hmemory
    obtain ⟨⟨page, s''⟩, hcall, rfl⟩ := Option.map_eq_some_iff.1 hmemory
    refine ⟨by simp only [Unexhausted, hcall, Option.isSome_some], ?_⟩
    simp only [Memory.step, hcall]
    exact ⟨htravelled, hcount⟩
  | free page count =>
    refine ⟨trivial, ?_⟩
    rcases hcall : u.memory.freePages page count with - | ⟨page', s'⟩
    · simpa only [Memory.step, hcall] using h
    · simp only [Memory.step, hcall]
      -- the mapping is left as it is
      simp only [freePages, Option.bind_eq_bind, Option.bind_eq_some_iff] at hcall
      obtain ⟨physical, -, hcall⟩ := hcall
      rw [Option.some.injEq, Prod.mk.injEq] at hcall
      obtain ⟨-, rfl⟩ := hcall
      exact ⟨h.travelled, h.within⟩

/-- **In a run that claims at most as many pages as fit, freed ones
counted**, no call reaches the assertion, and the cursor and the tables
are bounded by their number. -/
theorem bounded_run (hpaged : Paged s.kernelMapping t) (hfits : Fits s.kernelMapping N)
    (ops : List Op) (hwithin : Along step (Within N) (.new s) ops) :
    Along step Unexhausted (.new s) ops ∧
      Throughout step (Bounded s.kernelMapping N) (.new s) ops := by
  have hnew : Counted s.kernelMapping N (.new s) := ⟨Travelled.refl hpaged, Nat.zero_le N⟩
  refine ⟨along_of_invariant hwithin hnew (fun u op h hop => ?_) fun u op h hop => ?_,
    throughout_of_invariant hwithin hnew (fun u op h hop => ?_) fun u h => h.bounded⟩
  · exact (h.step hpaged.last hfits hop).2
  · exact (h.step hpaged.last hfits hop).1
  · exact (h.step hpaged.last hfits hop).2

/-- Two pages in turn, of which one is freed. -/
theorem bounded_run_freed :
    Along step Unexhausted (.new freshHeap)
        [.allocate 1, .free ⟨(2 ^ 20 - 2) * 4096, 0x200000, 1⟩ 1, .allocate 1] ∧
      Throughout step (Bounded freshHeap.kernelMapping 2) (.new freshHeap)
        [.allocate 1, .free ⟨(2 ^ 20 - 2) * 4096, 0x200000, 1⟩ 1, .allocate 1] :=
  bounded_run (paged_new _ _) (by decide +kernel) _ (by decide +kernel)

/-! ## A page at a time -/

/-- The page that is allocated after so many others were. -/
def pageAt (n : ℕ) : Page := ⟨(2 ^ 20 - 2 - n) * 4096, 0x200000, 1⟩

/-- So many times a page is allocated and freed. -/
def cycles : ℕ → List Op
  | 0 => []
  | n + 1 => cycles n ++ [.allocate 1, .free (pageAt n) 1]

/-- None of the heap is allocated, after so many cycles. -/
structure Idle (n : ℕ) (u : Usage) : Prop where
  mask : u.memory.pageAllocations = freshHeap.pageAllocations
  heap : u.memory.heap = freshHeap.heap
  live : u.live = []
  travelled : Travelled freshHeap.kernelMapping n u.memory.kernelMapping

theorem idle_new : Idle 0 (.new freshHeap) := ⟨rfl, rfl, rfl, .refl (paged_new _ _)⟩

theorem highPage_freshHeap : freshHeap.kernelMapping.highPage = 2 ^ 20 - 2 := highPage_new _ _

/-- The first table is that of 1023 pages. -/
theorem fits_freshHeap (hn : n ≤ 1023) : Fits freshHeap.kernelMapping n := by
  have hlow : freshHeap.kernelMapping.lowPage = 0 := lowPage_new _ _
  have hnext : freshHeap.kernelMapping.nextTableIndex = 0 := rfl
  have hpool : freshHeap.kernelMapping.pool.tablesCount = 1 := rfl
  unfold Fits tablesFor
  rw [hlow, hnext, hpool, highPage_freshHeap]
  refine ⟨by omega, ?_⟩
  split <;> omega

/-- An allocation of one page is one claim. -/
theorem allocatePages_one (s : Memory) :
    s.allocatePages 1 = s.claimPage.map fun (claimed, s') =>
      (claimed.map fun (address, physical) => ⟨address, physical, 1⟩, s') := by
  rw [allocatePages, if_neg (by omega)]
  simp only [Nat.sub_self, claimPages, Option.bind_eq_bind, Option.bind_some, Option.map_eq_bind]
  congr 1
  funext result
  obtain ⟨claimed, s'⟩ := result
  cases claimed <;> rfl

/-- A cycle leaves nothing but the cursor changed. -/
theorem Idle.cycle (h : Idle n u) (hn : n + 1 ≤ 1023) :
    Balanced 1 (step u (.allocate 1)) ∧
      Idle (n + 1) (step (step u (.allocate 1)) (.free (pageAt n) 1)) := by
  have hhigh := h.travelled.distance
  rw [highPage_freshHeap] at hhigh
  have hphysical : u.memory.indexToPhysical 0 = 0x200000 := by
    rw [indexToPhysical, h.heap]
    rfl
  obtain ⟨m', hmap, htravelled⟩ := h.travelled.mapHigh (by rw [highPage_freshHeap]; omega)
    (fits_freshHeap hn) (u.memory.indexToPhysical 0)
  have hget := mapHigh_getPhysical (by rw [hphysical]; omega) hmap
  have haddress : u.memory.kernelMapping.highPage * 4096 + u.memory.indexToPhysical 0 % 4096 =
      (pageAt n).address := by
    rw [hphysical]
    simp only [pageAt]
    omega
  rw [haddress] at hmap hget
  -- the claim answers the first index, and its release clears the mask again
  obtain ⟨mask, hclaim, hback⟩ : ∃ mask, claim .x86_32 freshHeap.pageAllocations = (.ok 0, mask) ∧
      mask.release 0 = freshHeap.pageAllocations := ⟨_, rfl, rfl⟩
  rw [← h.mask] at hclaim
  have hindex : u.memory.physicalToIndex (u.memory.indexToPhysical 0) = 0 :=
    physicalToIndex_indexToPhysical (by rw [h.mask]; decide)
  rw [hphysical] at hmap hget hindex
  have hpage : u.memory.claimPage = some (some ((pageAt n).address, 0x200000),
      { u.memory.claimed with kernelMapping := m' }) := by
    simp only [claimPage, hclaim, hphysical, hmap, Option.bind_eq_bind, Option.bind_some]
  have hallocate : step u (.allocate 1) = ⟨{ u.memory.claimed with kernelMapping := m' },
      [pageAt n], u.claimedCount + claimable 1 u.memory.pageAllocations⟩ := by
    simp only [step, allocatePages_one, hpage, Option.map_some, h.live]
    rfl
  have hindex' : physicalToIndex { u.memory.claimed with kernelMapping := m' } 0x200000 = 0 := hindex
  have hfree : freePages { u.memory.claimed with kernelMapping := m' } (pageAt n) 1 =
      some (pageAt n, released { u.memory.claimed with kernelMapping := m' } 0) := by
    simp only [freePages, hget, Option.bind_eq_bind, Option.bind_some, hindex']
    rfl
  rw [hallocate]
  refine ⟨le_rfl, ?_⟩
  simp only [step, hfree, List.erase_cons_head]
  refine ⟨?_, h.heap, rfl, htravelled⟩
  simp only [released, claimed, hclaim]
  exact hback

/-- **None of the heap is allocated**, and never more than a page was. -/
theorem idle_cycles (hn : n ≤ 1023) :
    Throughout step (Balanced 1) (.new freshHeap) (cycles n) ∧
      Idle n (run step (.new freshHeap) (cycles n)) := by
  induction n with
  | zero => exact ⟨Nat.zero_le 1, idle_new⟩
  | succ n ih =>
    obtain ⟨hbalanced, hidle⟩ := ih (by omega)
    obtain ⟨hone, hnext⟩ := hidle.cycle hn
    have hbefore : Balanced 1 (run step (.new freshHeap) (cycles n)) := by
      rw [Balanced, hidle.live]
      exact Nat.zero_le 1
    have hafter : Balanced 1 (step (step (run step (.new freshHeap) (cycles n)) (.allocate 1))
        (.free (pageAt n) 1)) := by
      rw [Balanced, hnext.live]
      exact Nat.zero_le 1
    rw [cycles, throughout_append, run_append]
    exact ⟨⟨hbalanced, hbefore, hone, hafter⟩, hnext⟩

/-- The second table is one too many. -/
theorem Idle.exhausted (h : Idle n u) (hn : n = 1023) : u.memory.allocatePages 1 = none := by
  obtain ⟨t, ht⟩ := h.travelled.paged
  have hhigh := h.travelled.distance
  have htables := h.travelled.tables
  have hpool := h.travelled.pool
  rw [highPage_freshHeap] at hhigh
  have hfull : u.memory.kernelMapping.pool.tablesCount ≤ u.memory.kernelMapping.nextTableIndex := by
    rw [hpool, htables, tablesFor, highPage_freshHeap, if_pos ⟨rfl, by omega⟩]
    exact Nat.le_add_left _ _
  have hfirst : u.memory.kernelMapping.isFirstHighTable = true := by
    rw [ht.isFirstHighTable_eq, decide_eq_true_eq, FirstHigh]
    omega
  have hclaim : (claim .x86_32 u.memory.pageAllocations).1 = .ok 0 := by
    rw [h.mask]
    rfl
  rw [allocatePages_one, claimPage, hclaim]
  simp only [mapHigh_eq ht, mapPhysicalHigh, hfirst, mapPage_of_full _ hfull, Option.bind_eq_bind,
    Option.bind_none, Option.map_none]

/-- The call that needs it stops, with no page outstanding. -/
theorem Idle.halted (h : Idle n u) (hn : n = 1023) :
    Throughout step (Balanced 1) u [.allocate 1] ∧ ¬ Along step Unexhausted u [.allocate 1] := by
  have hnone := h.exhausted hn
  have hbalanced : Balanced 1 u := by
    rw [Balanced, h.live]
    exact Nat.zero_le 1
  have hstay : step u (.allocate 1) = u := by simp only [step, hnone]
  refine ⟨⟨hbalanced, ?_⟩, fun hcon => ?_⟩
  · rw [throughout_nil, hstay]
    exact hbalanced
  · have hsome := hcon.1
    rw [Unexhausted, hnone] at hsome
    cases hsome

theorem halted_of_cycles (hn : n = 1023) :
    Throughout step (Balanced 1) (.new freshHeap) (cycles n ++ [.allocate 1]) ∧
      ¬ Along step Unexhausted (.new freshHeap) (cycles n ++ [.allocate 1]) := by
  obtain ⟨hbalanced, hidle⟩ := idle_cycles hn.le
  obtain ⟨hlast, hhalted⟩ := hidle.halted hn
  rw [throughout_append, along_append]
  exact ⟨⟨hbalanced, hlast⟩, fun h => hhalted h.2⟩

/-- **A page that is allocated and freed, 1023 times, and allocated once
more**: one page fits the one table, and the call stops at the assertion. -/
theorem bounded_run_halted :
    Fits freshHeap.kernelMapping 1 ∧
      Throughout step (Balanced 1) (.new freshHeap) (cycles 1023 ++ [.allocate 1]) ∧
      ¬ Along step Unexhausted (.new freshHeap) (cycles 1023 ++ [.allocate 1]) :=
  ⟨fits_freshHeap (by omega), halted_of_cycles rfl⟩

end Memory

end Uberos
