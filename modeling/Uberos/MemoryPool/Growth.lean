import Uberos.MemoryPool.Requests
/-!
# How far a request grows the heap

`PagedPool::malloc` adds pages before its loop where what is available is
less than the request, and again in the loop where no block is found. A
run that is added holds the request, so that the loop comes round once at
most, unless the header and the request wrap: then a page is added at a
time, none of them ever holds the request, and the loop goes on until the
page allocator has none left. The pages are not given back.
-/

namespace Uberos

namespace Heap

open Library MemoryPool

/-- The page allocator: what it answers each time it is asked, the address
of a run or nothing. -/
abbrev Allocator := ℕ → Option ℕ

/-- How a call came out: what it returned, the heap after it, and how
often `add_pages` succeeded inside the loop. -/
structure Outcome where
  result : Option Block
  heap : Heap
  added : ℕ

variable (T : Target)

/-- The loop of `PagedPool::malloc`, for so many turns: nothing if it is
not done by then. The allocator was asked so often before. -/
def mallocTurns (requiredSize : ℕ) (allocator : Allocator) : ℕ → ℕ → ℕ → Heap → Option Outcome
  | 0, _, _, _ => none
  | turns + 1, asked, added, s =>
    match superMalloc T s requiredSize with
    | (some block, s) => some ⟨some block, s, added⟩
    | (none, s) =>
      -- the test of the loop: pages are added, and it comes round
      match (allocator asked).bind (addPages T s (pageCount T requiredSize)) with
      | some s => mallocTurns requiredSize allocator turns (asked + 1) (added + 1) s
      | none => some ⟨none, s, added⟩

/-- `PagedPool::malloc(size)`, of an allocator that may never run out. -/
def mallocWith (allocator : Allocator) (turns : ℕ) (s : Heap) (size : ℕ) : Option Outcome :=
  let requiredSize := T.requiredSize size
  if requiredSize > s.pool.available then
    -- less is available than is asked for: a run is added at once
    match (allocator 0).bind (addPages T s (pageCount T requiredSize)) with
    | some s => mallocTurns T requiredSize allocator turns 1 0 s
    | none => some ⟨none, s, 0⟩
  else mallocTurns T requiredSize allocator turns 0 0 s

variable {T} {s s' : Heap} {allocator : Allocator} {size requiredSize : ℕ}
variable {asked added turns : ℕ} {outcome : Outcome}

/-! ## The same call -/

/-- Of an allocator that runs out the loop is the one of a list of grants. -/
theorem mallocTurns_eq (grants : List ℕ) (hturns : grants.length < turns)
    (h : ∀ n, allocator (asked + n) = grants[n]?) (added : ℕ) (s : Heap) :
    (mallocTurns T requiredSize allocator turns asked added s).map
        (fun outcome => (outcome.result, outcome.heap)) =
      some (mallocLoop T requiredSize grants s) := by
  induction grants generalizing turns asked added s with
  | nil =>
    obtain ⟨turns, rfl⟩ := Nat.exists_eq_add_one.2 hturns
    have hnone : allocator asked = none := h 0
    rw [mallocTurns, mallocLoop, hnone]
    rcases superMalloc T s requiredSize with ⟨_ | block, s'⟩
    · rfl
    · rfl
  | cons address grants ih =>
    obtain ⟨turns, rfl⟩ := Nat.exists_eq_add_one.2 (Nat.zero_lt_of_lt hturns)
    have hsome : allocator asked = some address := h 0
    have hrest : ∀ n, allocator (asked + 1 + n) = grants[n]? := by
      intro n
      rw [Nat.add_assoc, Nat.add_comm 1, h, List.getElem?_cons_succ]
    rw [mallocTurns, mallocLoop, hsome]
    rcases superMalloc T s requiredSize with ⟨_ | block, s'⟩
    · dsimp only [Option.bind_some]
      rcases addPages T s' (pageCount T requiredSize) address with _ | s''
      · rfl
      · exact ih (Nat.lt_of_succ_lt_succ hturns) hrest (added + 1) s''
    · rfl

/-- **And the call is the one the other results are about.** -/
theorem mallocWith_eq (s : Heap) (size : ℕ) (grants : List ℕ) (hturns : grants.length < turns) :
    (mallocWith T (fun n => grants[n]?) turns s size).map
        (fun outcome => (outcome.result, outcome.heap)) = some (malloc T s size grants) := by
  unfold mallocWith malloc
  dsimp only
  split
  · cases grants with
    | nil => rfl
    | cons address grants =>
      dsimp only [List.getElem?_cons_zero, Option.bind_some]
      rcases addPages T s (pageCount T (T.requiredSize size)) address with _ | s'
      · rfl
      · refine mallocTurns_eq grants (Nat.lt_of_succ_lt hturns) (fun n => ?_) 0 s'
        rw [Nat.add_comm, List.getElem?_cons_succ]
  · refine mallocTurns_eq grants hturns (fun n => ?_) 0 s
    rw [Nat.zero_add]

/-! ## What it is for -/

/-- **The heap grows by what is needed**: the loop ends, having added pages
once at most, and with nothing returned the pages are those before. -/
def GrowsByNeed (T : Target) (s : Heap) (size : ℕ) (allocator : Allocator) : Prop :=
  ∃ turns outcome, mallocWith T allocator turns s size = some outcome ∧ outcome.added ≤ 1 ∧
    (outcome.result = none → outcome.heap.pages = s.pages)

/-- **The request and its header do not wrap.** -/
def Unwrapped (T : Target) (size : ℕ) : Prop := T.headerSize + T.requiredSize size < T.wordSize

instance (T : Target) (size : ℕ) : Decidable (Unwrapped T size) :=
  inferInstanceAs (Decidable (_ < _))

/-- **What the page allocator promises** of the runs it has: each is one
that can be granted now, and they are apart. -/
def Provides (T : Target) (s : Heap) (count : ℕ) (allocator : Allocator) : Prop :=
  1 ≤ count % 2 ^ 32 → ∀ n address, allocator n = some address →
    Granted T s ⟨address, T.pageSize * (count % 2 ^ 32)⟩ ∧
    ∀ n' < n, ∀ address', allocator n' = some address' →
      Extent.Apart ⟨address', T.pageSize * (count % 2 ^ 32)⟩
        ⟨address, T.pageSize * (count % 2 ^ 32)⟩

/-! ## A request that does not wrap -/

/-- A call that finds no block leaves the pages. -/
theorem superMalloc_pages (T : Target) (s : Heap) (size : ℕ) :
    (superMalloc T s size).2.pages = s.pages := by
  unfold superMalloc
  rcases s.pool.malloc T size with ⟨_ | block, pool⟩
  · rfl
  · rfl

/-- The turn after pages were added is the last. -/
theorem mallocTurns_added (hunwrapped : Unwrapped T size) {address : ℕ}
    (hadd : addPages T s (pageCount T (T.requiredSize size)) address = some s') :
    ∃ outcome, mallocTurns T (T.requiredSize size) allocator (turns + 1) asked added s' =
      some outcome ∧ outcome.added = added ∧ outcome.result ≠ none := by
  have hsome := superMalloc_of_addPages hunwrapped hadd
  rw [mallocTurns]
  rcases hcall : superMalloc T s' (T.requiredSize size) with ⟨_ | block, s''⟩
  · rw [hcall] at hsome
    exact absurd rfl hsome
  · exact ⟨_, rfl, rfl, Option.some_ne_none block⟩

/-- What the allocator's answer comes to: no pages, or some. -/
theorem answer_cases (s : Heap) (count : ℕ) (answer : Option ℕ) :
    answer.bind (addPages T s count) = none ∨
      ∃ address s', answer = some address ∧ addPages T s count address = some s' ∧
        answer.bind (addPages T s count) = some s' := by
  rcases answer with _ | address
  · exact Or.inl rfl
  · rcases hadd : addPages T s count address with _ | s'
    · exact Or.inl hadd
    · exact Or.inr ⟨address, s', rfl, hadd, hadd⟩

/-- **The loop comes round once at most.** -/
theorem mallocTurns_unwrapped (hunwrapped : Unwrapped T size) (s : Heap) :
    ∃ outcome, mallocTurns T (T.requiredSize size) allocator 2 asked 0 s = some outcome ∧
      outcome.added ≤ 1 ∧ (outcome.result = none → outcome.heap.pages = s.pages) := by
  have hpages := superMalloc_pages T s (T.requiredSize size)
  rw [mallocTurns]
  rcases hcall : superMalloc T s (T.requiredSize size) with ⟨_ | block, s'⟩
  · rw [hcall] at hpages
    dsimp only
    rcases answer_cases (T := T) s' (pageCount T (T.requiredSize size)) (allocator asked) with
      hnone | ⟨address, s'', -, hadd, hanswer⟩
    · rw [hnone]
      exact ⟨_, rfl, Nat.zero_le _, fun _ => hpages⟩
    · rw [hanswer]
      obtain ⟨outcome, hlast, hadded, hresult⟩ := mallocTurns_added hunwrapped hadd
      exact ⟨outcome, hlast, hadded.le, fun hcon => absurd hcon hresult⟩
  · exact ⟨_, rfl, Nat.zero_le _, fun hcon => absurd hcon (Option.some_ne_none block)⟩

/-- **A request that does not wrap grows the heap by what it needs**, in
any state and from any allocator. -/
theorem growsByNeed_of_unwrapped (hunwrapped : Unwrapped T size) (s : Heap)
    (allocator : Allocator) : GrowsByNeed T s size allocator := by
  refine ⟨2, ?_⟩
  unfold mallocWith
  dsimp only
  split
  · rcases answer_cases (T := T) s (pageCount T (T.requiredSize size)) (allocator 0) with
      hnone | ⟨address, s', -, hadd, hanswer⟩
    · rw [hnone]
      exact ⟨_, rfl, Nat.zero_le _, fun _ => rfl⟩
    · rw [hanswer]
      obtain ⟨outcome, hlast, hadded, hresult⟩ := mallocTurns_added hunwrapped hadd
      exact ⟨outcome, hlast, by omega, fun hcon => absurd hcon hresult⟩
  · exact mallocTurns_unwrapped hunwrapped s

/-- So does one for which the allocator has no page. -/
theorem growsByNeed_of_none (hnone : allocator 0 = none) (s : Heap) (size : ℕ) :
    GrowsByNeed T s size allocator := by
  refine ⟨1, ?_⟩
  unfold mallocWith
  dsimp only
  split
  · rw [hnone]
    exact ⟨_, rfl, Nat.zero_le _, fun _ => rfl⟩
  · have hpages := superMalloc_pages T s (T.requiredSize size)
    rw [mallocTurns, hnone]
    rcases hcall : superMalloc T s (T.requiredSize size) with ⟨_ | block, s'⟩
    · rw [hcall] at hpages
      exact ⟨_, rfl, Nat.zero_le _, fun _ => hpages⟩
    · exact ⟨_, rfl, Nat.zero_le _, fun hcon => absurd hcon (Option.some_ne_none block)⟩

/-! ## One that wraps -/

/-- A page is asked for, whatever the request. -/
theorem pageCount_of_wrapped (hwrapped : ¬ Unwrapped T size) :
    pageCount T (T.requiredSize size) = 1 := by
  have hlt := T.requiredSize_lt size
  have hword := T.unsigned_le_wordSize
  have hheader := T.headerSize_lt_wordSize
  have hpage := T.headerSize_lt_pageSize
  unfold Unwrapped at hwrapped
  have hmod : (T.headerSize + T.requiredSize size) % T.wordSize =
      T.headerSize + T.requiredSize size - T.wordSize := by
    rw [Nat.mod_eq_sub_mod (Nat.not_lt.1 hwrapped), Nat.mod_eq_of_lt (by omega)]
  rw [pageCount, if_neg (by omega)]

/-- **No block can hold it**: with its header it would not be in the
address space. -/
theorem Sound.superMalloc_wrapped (h : Sound T s) (hwrapped : ¬ Unwrapped T size) :
    (superMalloc T s (T.requiredSize size)).1 = none := by
  unfold Unwrapped at hwrapped
  rw [superMalloc_fst]
  rcases malloc_cases (T := T) s.pool (T.requiredSize size) with
    ⟨b, others, hsearch, -⟩ | ⟨-, hmalloc⟩
  · obtain ⟨hle, hperm⟩ := search_some hsearch
    have hblock := h.block (List.mem_append_right _ (hperm.mem_iff.2 List.mem_cons_self))
    -- a block in memory ends in it, with its header
    rw [T.requiredSize_requiredSize] at hle
    omega
  · rw [hmalloc]

/-- A page that is promised is added. -/
theorem addPages_one (T : Target) (s : Heap) (address : ℕ) :
    ∃ s', addPages T s 1 address = some s' ∧
      s'.pages = ⟨address, T.pageSize * (1 % 2 ^ 32)⟩ :: s.pages := by
  rw [addPages, if_neg (by decide)]
  exact ⟨_, rfl, rfl⟩

/-- The promise is kept for what remains when its first run is taken. -/
theorem Provides.rest (h : Provides T s 1 fun n => allocator (asked + n)) {address : ℕ}
    (hfirst : allocator asked = some address)
    (hpages : s'.pages = ⟨address, T.pageSize * (1 % 2 ^ 32)⟩ :: s.pages) :
    Provides T s' 1 fun n => allocator (asked + 1 + n) := by
  intro hone n address' hn
  have hlater : allocator (asked + (n + 1)) = some address' := by
    rw [← hn]
    congr 1
    omega
  obtain ⟨⟨hpos, haligned, hstop, hbefore⟩, hapart⟩ := h hone (n + 1) address' hlater
  refine ⟨⟨hpos, haligned, hstop, fun before hmem => ?_⟩, fun n' hn' address'' hn'' => ?_⟩
  · rw [hpages] at hmem
    rcases List.mem_cons.1 hmem with rfl | hmem
    · exact hapart 0 (Nat.succ_pos n) address hfirst
    · exact hbefore before hmem
  · refine hapart (n' + 1) (Nat.succ_lt_succ hn') address'' ?_
    dsimp only at hn'' ⊢
    rw [← hn'']
    congr 1
    omega

/-- A turn adds a page. -/
theorem Sound.add (h : Sound T s) (hprovides : Provides T s 1 fun n => allocator (asked + n))
    {address : ℕ} (hfirst : allocator asked = some address) :
    ∃ s', addPages T s 1 address = some s' ∧ Sound T s' ∧
      s'.pages.length = s.pages.length + 1 ∧
      Provides T s' 1 fun n => allocator (asked + 1 + n) := by
  obtain ⟨s', hadd, hpages⟩ := addPages_one T s address
  refine ⟨s', hadd, ?_, by rw [hpages, List.length_cons], hprovides.rest hfirst hpages⟩
  have hlegal : Legal T s (.addPages 1 address) := fun hone =>
    (hprovides hone 0 address hfirst).1
  have hsound := h.call hlegal
  rwa [Heap.call, hadd, Option.getD_some] at hsound

/-- A call that finds no block keeps what is promised. -/
theorem Sound.retry (h : Sound T s) (hprovides : Provides T s 1 fun n => allocator (asked + n))
    (hcall : superMalloc T s (T.requiredSize size) = (none, s')) :
    Sound T s' ∧ s'.pages = s.pages ∧ Provides T s' 1 fun n => allocator (asked + n) := by
  have hpages := superMalloc_pages T s (T.requiredSize size)
  rw [hcall] at hpages
  have hsound : Sound T (Heap.call T s (.superMalloc (T.requiredSize size))) := h.call trivial
  rw [Heap.call, hcall] at hsound
  refine ⟨hsound, hpages, ?_⟩
  unfold Provides Granted at hprovides ⊢
  dsimp only at hpages
  rwa [hpages]

/-- **The loop returns nothing, with every page it was given**: a turn adds
a page wherever the allocator has one, and never finds a block. -/
theorem mallocTurns_wrapped (hwrapped : ¬ Unwrapped T size) (h : Sound T s)
    (hprovides : Provides T s 1 fun n => allocator (asked + n))
    (hrun : mallocTurns T (T.requiredSize size) allocator turns asked added s = some outcome) :
    outcome.result = none ∧ s.pages.length ≤ outcome.heap.pages.length ∧
      (allocator asked ≠ none → s.pages.length < outcome.heap.pages.length) := by
  -- by induction on the turns: each that is taken leaves a page more
  induction turns generalizing asked added s with
  | zero => cases hrun
  | succ turns ih =>
    have hnone := h.superMalloc_wrapped hwrapped
    rw [mallocTurns, pageCount_of_wrapped hwrapped] at hrun
    rcases hcall : superMalloc T s (T.requiredSize size) with ⟨result, s'⟩
    rw [hcall] at hnone hrun
    obtain rfl : result = none := hnone
    obtain ⟨hsound, hpages, hprovides'⟩ := h.retry hprovides hcall
    dsimp only at hrun
    rcases hanswer : allocator asked with _ | address
    · rw [hanswer, Option.bind_none] at hrun
      obtain rfl := Option.some.inj hrun
      exact ⟨rfl, by rw [hpages], fun hcon => absurd rfl hcon⟩
    · obtain ⟨s'', hadd, hsound', hlength, hrest⟩ := hsound.add hprovides' hanswer
      rw [hanswer, Option.bind_some, hadd] at hrun
      obtain ⟨hresult, hle, -⟩ := ih hsound' hrest hrun
      rw [hlength, hpages] at hle
      exact ⟨hresult, by omega, fun _ => by omega⟩

/-- **A request that wraps takes every page and returns nothing.** -/
theorem Sound.not_growsByNeed (h : Sound T s) (hwrapped : ¬ Unwrapped T size)
    (hprovides : Provides T s (pageCount T (T.requiredSize size)) allocator)
    (hsome : allocator 0 ≠ none) : ¬ GrowsByNeed T s size allocator := by
  rintro ⟨turns, outcome, hrun, -, hkept⟩
  rw [pageCount_of_wrapped hwrapped] at hprovides
  have hprovides' : Provides T s 1 fun n => allocator (0 + n) := by
    simpa only [Nat.zero_add] using hprovides
  unfold mallocWith at hrun
  dsimp only at hrun
  split at hrun
  · rw [pageCount_of_wrapped hwrapped] at hrun
    obtain ⟨address, hfirst⟩ := Option.ne_none_iff_exists'.1 hsome
    obtain ⟨s', hadd, hsound, hlength, hrest⟩ := h.add hprovides' hfirst
    rw [hfirst, Option.bind_some, hadd] at hrun
    obtain ⟨hresult, hle, -⟩ := mallocTurns_wrapped hwrapped hsound hrest hrun
    rw [hkept hresult] at hle
    omega
  · obtain ⟨hresult, -, hlt⟩ := mallocTurns_wrapped hwrapped h hprovides' hrun
    have hmore := hlt hsome
    rw [hkept hresult] at hmore
    omega

/-- **In every state the heap can be brought to, a request grows it by what
it needs exactly when the request does not wrap with its header**, or the
page allocator has no page to give. -/
theorem growsByNeed_iff (hreached : Reached T s) (size : ℕ) (allocator : Allocator)
    (hprovides : Provides T s (pageCount T (T.requiredSize size)) allocator) :
    GrowsByNeed T s size allocator ↔ Unwrapped T size ∨ allocator 0 = none := by
  constructor
  · intro hgrows
    by_contra hcon
    obtain ⟨hwrapped, hsome⟩ := not_or.1 hcon
    exact hreached.sound.not_growsByNeed hwrapped hprovides hsome hgrows
  · rintro (hunwrapped | hnone)
    · exact growsByNeed_of_unwrapped hunwrapped s allocator
    · exact growsByNeed_of_none hnone s size

/-- A page allocator with so many pages, from the second page of memory
on. -/
def firstPages (pages : ℕ) : Allocator := fun n =>
  if n < pages then some ((n + 1) * 4096) else none

theorem provides_firstPages {pages : ℕ} (hpages : pages < 2 ^ 20) :
    Provides .x86_32 empty 1 (firstPages pages) := by
  have hat : ∀ n address, firstPages pages n = some address →
      n < pages ∧ address = (n + 1) * 4096 := by
    intro n address haddress
    unfold firstPages at haddress
    split at haddress
    · exact ⟨by assumption, (Option.some.inj haddress).symm⟩
    · cases haddress
  have hsize : Target.pageSize .x86_32 * (1 % 2 ^ 32) = 4096 := rfl
  have hword : Target.wordSize .x86_32 = 2 ^ 32 := rfl
  intro _ n address haddress
  obtain ⟨hn, rfl⟩ := hat n address haddress
  rw [hsize]
  refine ⟨⟨Nat.mul_pos n.succ_pos (by omega), Nat.mul_mod_left _ _, ?_, nofun⟩, ?_⟩
  · rw [hword]
    dsimp only [Extent.stop]
    omega
  · intro n' hlt address' haddress'
    obtain ⟨-, rfl⟩ := hat n' address' haddress'
    rw [Extent.apart_iff]
    dsimp only [Extent.stop]
    omega

/-- A small request of an empty heap. -/
theorem growsByNeed_iff_small :
    GrowsByNeed .x86_32 empty 40 (firstPages 3) ↔
      Unwrapped .x86_32 40 ∨ firstPages 3 0 = none :=
  growsByNeed_iff ⟨[], trivial, rfl⟩ 40 (firstPages 3) (provides_firstPages (by omega))

/-- **4 GiB less 12 bytes take all three pages there are**, two of them in
the loop, and are not returned. -/
theorem not_growsByNeed_wrapped :
    (mallocWith .x86_32 (firstPages 3) 4 empty 0xfffffff4).map
        (fun outcome => (outcome.result, outcome.added, outcome.heap.pages.length)) =
      some (none, 2, 3) ∧
      ¬ GrowsByNeed .x86_32 empty 0xfffffff4 (firstPages 3) :=
  ⟨by decide +kernel, (sound_empty .x86_32).not_growsByNeed (by decide)
    (provides_firstPages (by omega)) (by decide)⟩

/-! ## The loop ends -/

/-- **A promise runs out**: the runs are apart, and each takes an address. -/
theorem Provides.exists_none {count : ℕ} (h : Provides T s count allocator)
    (hone : 1 ≤ count % 2 ^ 32) : ∃ n, allocator n = none := by
  by_contra hcon
  have hsome : ∀ n, ∃ address, allocator n = some address := fun n =>
    Option.ne_none_iff_exists'.1 fun hnone => hcon ⟨n, hnone⟩
  obtain ⟨address, haddress⟩ := Classical.axiomOfChoice hsome
  have hpos : 0 < T.pageSize * (count % 2 ^ 32) :=
    Nat.mul_pos (Nat.zero_lt_of_lt T.headerSize_lt_pageSize) hone
  have hne : ∀ n n', n' < n → address n' ≠ address n := by
    intro n n' hlt heq
    refine (h hone n _ (haddress n)).2 n' hlt _ (haddress n') (address n') ⟨le_rfl, ?_⟩ ?_
    · dsimp only [Extent.stop]
      omega
    · exact ⟨heq.ge, by dsimp only [Extent.stop]; omega⟩
  -- more addresses than memory has
  have hnodup : ((List.range (T.wordSize + 1)).map address).Nodup := by
    refine List.Nodup.map_on (fun n _ n' _ heq => ?_) List.nodup_range
    rcases Nat.lt_trichotomy n n' with hlt | rfl | hlt
    · exact absurd heq (hne n' n hlt)
    · rfl
    · exact absurd heq.symm (hne n n' hlt)
  have hsub : (List.range (T.wordSize + 1)).map address ⊆ List.range T.wordSize := by
    intro x hx
    obtain ⟨n, -, rfl⟩ := List.mem_map.1 hx
    have hstop := (h hone n _ (haddress n)).1.2.2.1
    dsimp only [Extent.stop] at hstop
    rw [List.mem_range]
    omega
  have hlength := (hnodup.subperm hsub).length_le
  rw [List.length_map, List.length_range, List.length_range] at hlength
  omega

/-- The loop is done when the allocator has no run to add. -/
theorem mallocTurns_returns {n : ℕ} (hturns : n < turns) (hnone : ∀ s : Heap,
      (allocator (asked + n)).bind (addPages T s (pageCount T requiredSize)) = none)
    (added : ℕ) (s : Heap) :
    mallocTurns T requiredSize allocator turns asked added s ≠ none := by
  induction n generalizing turns asked added s with
  | zero =>
    obtain ⟨turns, rfl⟩ := Nat.exists_eq_add_one.2 hturns
    rw [mallocTurns]
    rcases superMalloc T s requiredSize with ⟨_ | block, s'⟩
    · dsimp only
      rw [← Nat.add_zero asked, hnone]
      exact Option.some_ne_none _
    · exact Option.some_ne_none _
  | succ n ih =>
    obtain ⟨turns, rfl⟩ := Nat.exists_eq_add_one.2 (Nat.zero_lt_of_lt hturns)
    rw [mallocTurns]
    rcases superMalloc T s requiredSize with ⟨_ | block, s'⟩
    · dsimp only
      split
      · refine ih (Nat.lt_of_succ_lt_succ hturns) (fun s => ?_) _ _
        rw [Nat.add_assoc, Nat.add_comm 1]
        exact hnone s
      · exact Option.some_ne_none _
    · exact Option.some_ne_none _

/-- **`PagedPool::malloc` always returns**, of whatever size: memory is
finite. -/
theorem malloc_returns (s : Heap) (size : ℕ) (allocator : Allocator)
    (hprovides : Provides T s (pageCount T (T.requiredSize size)) allocator) :
    ∃ turns, mallocWith T allocator turns s size ≠ none := by
  obtain ⟨n, hnone⟩ : ∃ n, ∀ s : Heap,
      (allocator n).bind (addPages T s (pageCount T (T.requiredSize size))) = none := by
    by_cases hone : 1 ≤ pageCount T (T.requiredSize size) % 2 ^ 32
    · obtain ⟨n, hn⟩ := hprovides.exists_none hone
      exact ⟨n, fun s => by rw [hn, Option.bind_none]⟩
    · refine ⟨0, fun s => ?_⟩
      rcases allocator 0 with _ | address
      · rfl
      · rw [Option.bind_some, addPages, if_pos (by omega)]
  refine ⟨n + 1, ?_⟩
  unfold mallocWith
  dsimp only
  split
  · split
    · rename_i s' hfirst
      rcases Nat.eq_zero_or_pos n with rfl | hpos
      · rw [hnone] at hfirst
        cases hfirst
      · refine mallocTurns_returns (n := n - 1) (by omega) (fun s => ?_) 0 s'
        rw [Nat.add_sub_cancel' hpos]
        exact hnone s
    · exact Option.some_ne_none _
  · refine mallocTurns_returns (Nat.lt_succ_self n) (fun s => ?_) 0 s
    rw [Nat.zero_add]
    exact hnone s

end Heap

end Uberos
