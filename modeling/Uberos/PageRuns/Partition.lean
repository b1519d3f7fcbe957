import Uberos.PageRuns.Model
import Uberos.LList.Sequence
import Mathlib.Algebra.Group.Nat.Defs
/-!
# The runs partition the heap

Outstanding or free, every page of the heap is in one run. An allocation
splits a free run in two and hands out the first part, a free hands one
back, and neither moves a page from where it is. The page that starts the
rest of a split run is a new item of the list because no other run starts
inside the run that is split.
-/

namespace Uberos

namespace PageRuns

open Library LList

variable {T : Target} {s : PageRuns} {u : Usage} {op : Op} {r : Region T}
variable {free : List ℕ} {page count turns calls x : ℕ}

/-! ## What it is for -/

/-- The free runs a list of pages starts. -/
def freeRuns (s : PageRuns) (free : List ℕ) : List Run := free.map fun page => ⟨page, s.count page⟩

/-- The addresses of runs. -/
def extents (T : Target) (runs : List Run) : List Extent := runs.map (Run.extent T)

/-- **The outstanding runs and those of the free list are disjoint and
have so many pages together**, and the list is well formed. -/
def Partitioned (T : Target) (pageCount : ℕ) (u : Usage) : Prop :=
  ∃ free, Spells u.runs.links u.runs.freePages free ∧
    (extents T (u.outstanding ++ u.runs.freeRuns free)).Pairwise Extent.Apart ∧
    ((u.outstanding ++ u.runs.freeRuns free).map Run.count).sum = pageCount

/-! ## The invariant -/

/-- **Runs that tile a region**: each point of it is in one of them, and
none is empty. -/
structure Tiles (r : Region T) (runs : List Run) : Prop where
  cover : ∀ x, cover (extents T runs) x = cover [⟨r.heap, T.pageSize * r.pageCount⟩] x
  sum : (runs.map Run.count).sum = r.pageCount
  positive : ∀ run ∈ runs, 0 < run.count

/-- The free list, with the pages as `init` and the frees write them, and
the runs. -/
structure Kept (r : Region T) (u : Usage) (free : List ℕ) : Prop where
  represents : Represents u.runs.links u.runs.freePages free
  physical : ∀ page ∈ free, u.runs.physical page = page
  tiles : Tiles r (u.outstanding ++ u.runs.freeRuns free)

variable {runs runs' : List Run} {run run' : Run}

theorem pageSize_pos (T : Target) : 0 < T.pageSize := by cases T <;> decide

/-- The tiles in another order. -/
theorem Tiles.perm (h : Tiles r runs) (hperm : runs.Perm runs') : Tiles r runs' where
  cover x := by rw [← h.cover x]; exact cover_perm (hperm.symm.map _)
  sum := by rw [← h.sum]; exact (hperm.symm.map _).sum_nat
  positive run hrun := h.positive run (hperm.mem_iff.2 hrun)

/-- **A tile is two**, of its first pages and of the rest. -/
theorem Tiles.split {first rest : ℕ} (h : Tiles r (⟨page, first + rest⟩ :: runs))
    (hfirst : 0 < first) (hrest : 0 < rest) :
    Tiles r (⟨page, first⟩ :: ⟨page + T.pageSize * first, rest⟩ :: runs) where
  cover x := by
    rw [← h.cover x, extents, List.map_cons, List.map_cons, extents, List.map_cons, Run.extent,
      Run.extent, Run.extent, Nat.mul_add, cover_split]
  sum := by
    rw [← h.sum]
    simp only [List.map_cons, List.sum_cons]
    omega
  positive := by
    intro tile htile
    rcases List.mem_cons.1 htile with rfl | htile
    · exact hfirst
    · rcases List.mem_cons.1 htile with rfl | htile
      · exact hrest
      · exact h.positive tile (List.mem_cons_of_mem _ htile)

theorem Tiles.cover_le (h : Tiles r runs) (x : ℕ) : Library.cover (extents T runs) x ≤ 1 := by
  rw [h.cover, cover_cons, cover_nil]
  split <;> omega

theorem Tiles.pairwise (h : Tiles r runs) : (extents T runs).Pairwise Extent.Apart :=
  pairwise_apart_iff.2 h.cover_le

/-- The first address of a tile is in it. -/
theorem Tiles.mem_page (h : Tiles r runs) (hrun : run ∈ runs) : run.page ∈ run.extent T := by
  have hpos := Nat.mul_pos (pageSize_pos T) (h.positive run hrun)
  exact ⟨Nat.le_refl _, by simp only [Run.extent, Extent.stop]; omega⟩

/-- Two tiles of a list share no address. -/
theorem Tiles.apart (h : Tiles r (run :: runs)) (hrun' : run' ∈ runs) (hx : x ∈ run.extent T) :
    x ∉ run'.extent T := by
  have hpairwise := h.pairwise
  rw [extents, List.map_cons, List.pairwise_cons] at hpairwise
  exact hpairwise.1 _ (List.mem_map_of_mem hrun') x hx

/-- The addresses of a tile are the region's. -/
theorem Tiles.stop_le (h : Tiles r runs) (hrun : run ∈ runs) :
    run.page + T.pageSize * run.count ≤ T.wordSize := by
  have hpos := Nat.mul_pos (pageSize_pos T) (h.positive run hrun)
  have hlast : run.page + T.pageSize * run.count - 1 ∈ run.extent T :=
    ⟨by simp only [Run.extent]; omega, by simp only [Run.extent, Extent.stop]; omega⟩
  have hcovered := cover_pos (List.mem_map_of_mem hrun) hlast
  rw [← extents, h.cover, cover_pos_iff] at hcovered
  obtain ⟨heap, hheap, hin⟩ := hcovered
  rw [List.mem_singleton] at hheap
  rw [hheap, Extent.mem_def] at hin
  have hfits := r.fits
  have hcount : T.pageSize * r.pageCount ≤ r.heapSize :=
    Nat.le_trans (Nat.mul_le_mul_left _ (Nat.mod_le _ _)) (Nat.mul_div_le _ _)
  dsimp only at hin
  omega

/-- The tiles are fewer than the pages. -/
theorem Tiles.length_le (h : Tiles r runs) : runs.length ≤ r.pageCount := by
  rw [← h.sum]
  have hpositive := h.positive
  clear h
  induction runs with
  | nil => exact Nat.zero_le _
  | cons run runs ih =>
    have hrun := hpositive run List.mem_cons_self
    have hrest := ih fun run hrun => hpositive run (List.mem_cons_of_mem _ hrun)
    rw [List.length_cons, List.map_cons, List.sum_cons]
    omega

/-- **What is kept is what is asked.** -/
theorem Kept.partitioned (h : Kept r u free) : Partitioned T r.pageCount u := by
  refine ⟨free, h.represents.spells ?_, h.tiles.pairwise, h.tiles.sum⟩
  have hlength := h.tiles.length_le
  have hlt : r.pageCount < 2 ^ 32 := Nat.mod_lt _ (by decide)
  rw [List.length_append, freeRuns, List.length_map] at hlength
  omega

/-! ## Free runs -/

variable {ys zs : List ℕ} {out : List Run} {s' : PageRuns}

/-- The free runs are known by the counts of their pages. -/
theorem freeRuns_congr (hcount : ∀ page ∈ free, s'.count page = s.count page) :
    s'.freeRuns free = s.freeRuns free :=
  List.map_congr_left fun page hpage => by rw [hcount page hpage]

/-- A run of the free list, taken to the front of all. -/
theorem freeRuns_middle (s : PageRuns) (out : List Run) (ys zs : List ℕ) (page : ℕ) :
    (out ++ s.freeRuns (ys ++ page :: zs)).Perm
      (⟨page, s.count page⟩ :: (out ++ s.freeRuns (ys ++ zs))) := by
  simp only [freeRuns, List.map_append, List.map_cons, ← List.append_assoc]
  exact List.perm_middle

/-- **No run starts inside another.** -/
theorem Kept.notMem_free (h : Kept r ⟨s, out⟩ (ys ++ page :: zs))
    (hx : x ∈ Run.extent T ⟨page, s.count page⟩) (hne : x ≠ page) : x ∉ ys ++ page :: zs := by
  have htiles := h.tiles.perm (freeRuns_middle s out ys zs page)
  intro hmem
  have hrest : x ∈ ys ++ zs := by
    rw [List.mem_append, List.mem_cons] at hmem
    rw [List.mem_append]
    exact hmem.imp_right fun hmem => hmem.resolve_left hne
  have hrun : (⟨x, s.count x⟩ : Run) ∈ out ++ s.freeRuns (ys ++ zs) :=
    List.mem_append_right _ (List.mem_map_of_mem hrest)
  exact htiles.apart hrun hx (htiles.mem_page (List.mem_cons_of_mem _ hrun))

/-! ## Allocating -/

/-- **A free run is split in two free runs**, the first of so many pages. -/
theorem Kept.splitRun (h : Kept r ⟨s, out⟩ free) (hpage : page ∈ free) (hcount : 0 < count)
    (hlt : count < s.count page) :
    ∃ free', page ∈ free' ∧
      Kept r ⟨{ s.splitRun T page count with
        count := Function.update (s.splitRun T page count).count page count }, out⟩ free' := by
  obtain ⟨ys, zs, rfl⟩ := List.append_of_mem hpage
  have htiles := h.tiles.perm (freeRuns_middle s out ys zs page)
  have hstop := htiles.stop_le List.mem_cons_self
  have hbytes : T.pageSize * count < T.pageSize * s.count page :=
    Nat.mul_lt_mul_of_pos_left hlt (pageSize_pos T)
  have hsome : 0 < T.pageSize * count := Nat.mul_pos (pageSize_pos T) hcount
  -- the rest of the run starts inside it
  have hnext : s.offsetPagePhysical T page count = page + T.pageSize * count := by
    rw [offsetPagePhysical, show s.physical page = page from h.physical page hpage]
    dsimp only at hstop
    exact Nat.mod_eq_of_lt (by omega)
  have hnew : page + T.pageSize * count ∉ ys ++ page :: zs :=
    h.notMem_free ⟨by simp only [Run.extent]; omega,
      by simp only [Run.extent, Extent.stop]; omega⟩ (by omega)
  have hpageNew : page ≠ page + T.pageSize * count := by omega
  have hinserted := h.represents.insertAfter hnew
  refine ⟨ys ++ page :: (page + T.pageSize * count) :: zs, by simp, ?_, ?_, ?_⟩
  · simp only [PageRuns.splitRun, hnext]
    exact hinserted.1
  · intro p hp
    simp only [PageRuns.splitRun, hnext, Function.update_apply]
    split
    · rename_i heq
      exact heq.symm
    · rename_i hne
      refine h.physical p ?_
      simp only [List.mem_append, List.mem_cons, hne, false_or] at hp ⊢
      exact hp
  · have hrest : s.count page = count + (s.count page - count) := by omega
    rw [hrest] at htiles
    have hsplit := htiles.split hcount (by omega)
    -- the counts are those of the two, and for the others as they were
    refine hsplit.perm ((List.Perm.trans ?_ (freeRuns_middle _ out ys _ page).symm))
    have hcounts : ∀ p ∈ ys ++ zs, Function.update
        (Function.update s.count (page + T.pageSize * count) (s.count page - count)) page count p =
          s.count p := by
      intro p hp
      have hne : p ≠ page + T.pageSize * count := fun heq => hnew (by
        rw [← heq, List.mem_append, List.mem_cons]
        exact (List.mem_append.1 hp).imp_right Or.inr)
      have hpageNe : p ≠ page := by
        intro heq
        have hnodup := h.represents.nodup
        rw [List.nodup_middle, List.nodup_cons] at hnodup
        exact hnodup.1 (heq ▸ hp)
      rw [Function.update_of_ne hpageNe, Function.update_of_ne hne]
    simp only [PageRuns.splitRun, hnext, Function.update_self]
    refine List.Perm.cons _ (List.Perm.trans ?_ (freeRuns_middle _ out ys zs _).symm)
    simp only [Function.update_of_ne hpageNew.symm, Function.update_self]
    exact List.Perm.cons _ (List.Perm.append_left out (List.Perm.of_eq (freeRuns_congr hcounts).symm))

/-- **A free run of so many pages becomes outstanding.** -/
theorem Kept.pop (h : Kept r ⟨s, out⟩ free) (hpage : page ∈ free) (hcount : s.count page = count) :
    Kept r ⟨{ s with
      links := (LList.pop s.links s.freePages page).1
      freePages := (LList.pop s.links s.freePages page).2 }, ⟨page, count⟩ :: out⟩
      (free.erase page) := by
  obtain ⟨ys, zs, hys, rfl, herase⟩ := List.exists_erase_eq hpage
  have hpopped := h.represents.pop hpage
  refine ⟨hpopped.1, fun p hp => h.physical p (List.mem_of_mem_erase hp), ?_⟩
  rw [herase, ← hcount]
  exact h.tiles.perm (freeRuns_middle s out ys zs page)

/-- **The run that is taken is outstanding**, and the rest of it free. -/
theorem Kept.takeRun (h : Kept r ⟨s, out⟩ free) (hpage : page ∈ free) (hcount : 0 < count)
    (hle : count ≤ s.count page) :
    ∃ free', Kept r ⟨s.takeRun T page count, ⟨page, count⟩ :: out⟩ free' := by
  by_cases hlt : s.count page - count > 0
  · obtain ⟨free', hpage', hsplit⟩ := h.splitRun hpage hcount (by omega)
    refine ⟨free'.erase page, ?_⟩
    rw [PageRuns.takeRun, if_pos hlt]
    exact hsplit.pop hpage' (Function.update_self ..)
  · have hsame : s.count page = count := by omega
    refine ⟨free.erase page, ?_⟩
    rw [PageRuns.takeRun, if_neg hlt]
    have hpopped := h.pop hpage hsame
    rw [← hsame]
    simp only [Function.update_eq_self]
    rw [hsame]
    exact hpopped

/-- The page the loop finds is one of the list with enough pages. -/
theorem search_mem (hlinked : Linked s.links free) (ys : List ℕ)
    (hfound : s.search count turns zs.head? = some (some page)) (hfree : free = ys ++ zs) :
    page ∈ zs ∧ count ≤ s.count page := by
  induction turns generalizing ys zs with
  | zero =>
    rcases zs with - | ⟨z, zs⟩ <;> simp [search] at hfound
  | succ turns ih =>
    rcases zs with - | ⟨z, zs⟩
    · simp [search] at hfound
    · rw [List.head?_cons, search, (hlinked ys z zs hfree).1] at hfound
      split at hfound
      · rename_i hge
        obtain rfl : z = page := by simpa using hfound
        exact ⟨List.mem_cons_self, hge⟩
      · have hrest : free = (ys ++ [z]) ++ zs := by rw [hfree, List.append_assoc]; rfl
        obtain ⟨hmem, hge⟩ := ih (ys ++ [z]) hfound hrest
        exact ⟨List.mem_cons_of_mem _ hmem, hge⟩

/-- **With turns for the whole list the loop finds the first page of
enough pages**, or that there is none. -/
theorem search_eq (hlinked : Linked s.links free) (ys : List ℕ) (hturns : zs.length ≤ turns)
    (hfree : free = ys ++ zs) :
    s.search count turns zs.head? = some (zs.find? fun page => count ≤ s.count page) := by
  induction turns generalizing ys zs with
  | zero =>
    obtain rfl : zs = [] := List.length_eq_zero_iff.1 (by omega)
    rfl
  | succ turns ih =>
    rcases zs with - | ⟨z, zs⟩
    · rfl
    · have hrest : free = (ys ++ [z]) ++ zs := by rw [hfree, List.append_assoc]; rfl
      rw [List.length_cons] at hturns
      rw [List.head?_cons, search, (hlinked ys z zs hfree).1, List.find?_cons,
        ih (ys ++ [z]) (by omega) hrest]
      split <;> simp [*]

/-- **A call returns a run wherever a free run has enough pages.** Where
none has, it returns none before the first free and never after it. -/
theorem Kept.allocatePages_eq (h : Kept r ⟨s, out⟩ free) (hturns : free.length ≤ turns)
    (hcount : 0 < count) (calls : ℕ) :
    s.allocatePages T count turns (calls + 1) =
      match free.find? fun page => count ≤ s.count page with
      | some page => some (some page, s.takeRun T page count)
      | none => if s.needsCompacting then none else some (none, s) := by
  have hsearch : s.search count turns s.freePages.head =
      some (free.find? fun page => count ≤ s.count page) := by
    rw [show s.freePages.head = free.head? from h.represents.head]
    exact search_eq h.represents.linked [] hturns rfl
  induction calls with
  | zero =>
    rw [allocatePages, if_neg (by omega), hsearch]
    rcases free.find? fun page => count ≤ s.count page with - | page <;> rfl
  | succ calls ih =>
    rw [allocatePages, if_neg (by omega), hsearch]
    rcases hfind : free.find? fun page => count ≤ s.count page with - | page
    · rw [hfind] at ih
      simp only [compact, ih]
      split <;> rfl
    · rfl

/-- What a call returns, if it returns, it took from the list. -/
theorem Kept.allocatePages_some (h : Kept r ⟨s, out⟩ free) {found : Option ℕ}
    (hreturns : s.allocatePages T count turns calls = some (found, s')) :
    found = none ∧ s' = s ∨ ∃ page ∈ free, found = some page ∧ 0 < count ∧ count ≤ s.count page ∧
      s' = s.takeRun T page count := by
  induction calls with
  | zero => simp [allocatePages] at hreturns
  | succ calls ih =>
    rw [allocatePages] at hreturns
    split at hreturns
    · obtain ⟨rfl, rfl⟩ := Prod.mk.inj (Option.some.inj hreturns)
      exact Or.inl ⟨rfl, rfl⟩
    · rename_i hcount
      split at hreturns
      · cases hreturns
      · rename_i page hfound
        obtain ⟨rfl, rfl⟩ := Prod.mk.inj (Option.some.inj hreturns)
        rw [show s.freePages.head = free.head? from h.represents.head] at hfound
        obtain ⟨hpage, hle⟩ := search_mem h.represents.linked [] hfound rfl
        exact Or.inr ⟨page, hpage, rfl, by omega, hle, rfl⟩
      · split at hreturns
        · exact ih hreturns
        · obtain ⟨rfl, rfl⟩ := Prod.mk.inj (Option.some.inj hreturns)
          exact Or.inl ⟨rfl, rfl⟩

/-! ## Freeing, and writing to what is held -/

/-- **A run that is freed is on the list.** -/
theorem Kept.freeRun (h : Kept r ⟨s, out⟩ free) (hrun : run ∈ out) :
    Kept r ⟨s.freeRun run.page run.count, out.erase run⟩ (free ++ [run.page]) := by
  have htiles : Tiles r (run :: (out.erase run ++ s.freeRuns free)) := by
    refine h.tiles.perm ?_
    rw [← List.cons_append]
    exact (List.perm_cons_erase hrun).append_right _
  have hnew : run.page ∉ free := by
    intro hmem
    have hfree : (⟨run.page, s.count run.page⟩ : Run) ∈ out.erase run ++ s.freeRuns free :=
      List.mem_append_right _ (List.mem_map_of_mem hmem)
    exact htiles.apart hfree (htiles.mem_page List.mem_cons_self)
      (htiles.mem_page (List.mem_cons_of_mem _ hfree))
  have hne : ∀ p ∈ free, p ≠ run.page := fun p hp heq => hnew (heq ▸ hp)
  refine ⟨(h.represents.pushBack hnew).1, fun p hp => ?_, ?_⟩
  · simp only [PageRuns.freeRun, Function.update_apply]
    split
    · rename_i heq
      exact heq.symm
    · rename_i hp'
      exact h.physical p ((List.mem_append.1 hp).resolve_right fun hlast =>
        hp' (List.mem_singleton.1 hlast))
  · refine htiles.perm ?_
    have hcounts : ∀ p ∈ free, (s.freeRun run.page run.count).count p = s.count p :=
      fun p hp => Function.update_of_ne (hne p hp) _ _
    have hruns : (s.freeRun run.page run.count).freeRuns (free ++ [run.page]) =
        s.freeRuns free ++ [run] := by
      rw [← freeRuns_congr hcounts, freeRuns, freeRuns, List.map_append]
      simp only [List.map_cons, List.map_nil, PageRuns.freeRun, Function.update_self]
    rw [hruns, ← List.append_assoc]
    exact (List.perm_append_singleton run _).symm

/-- **What is written to outstanding runs** is written to no page of the
list. -/
theorem Kept.write (h : Kept r u free) {links : Links ℕ} {physical counts : ℕ → ℕ}
    (hlegal : Legal T u (.write links physical counts)) :
    Kept r (step T u (.write links physical counts)) free := by
  have hfree : ∀ p ∈ free, links.next p = u.runs.links.next p ∧
      links.prev p = u.runs.links.prev p ∧ physical p = u.runs.physical p ∧
        counts p = u.runs.count p := by
    intro p hp
    refine hlegal p fun run hrun hmem => ?_
    have hfree : (⟨p, u.runs.count p⟩ : Run) ∈ u.runs.freeRuns free := List.mem_map_of_mem hp
    have hpairwise := h.tiles.pairwise
    rw [extents, List.map_append, List.pairwise_append] at hpairwise
    exact hpairwise.2.2 _ (List.mem_map_of_mem hrun) _ (List.mem_map_of_mem hfree) p hmem
      (h.tiles.mem_page (List.mem_append_right _ hfree))
  refine ⟨?_, fun p hp => ?_, ?_⟩
  · exact h.represents.congr fun p hp => ⟨(hfree p hp).1, (hfree p hp).2.1⟩
  · exact ((hfree p hp).2.2.1).trans (h.physical p hp)
  · have hruns : freeRuns { u.runs with links := links, physical := physical, count := counts }
        free = u.runs.freeRuns free := freeRuns_congr fun p hp => (hfree p hp).2.2.2
    simp only [step, hruns]
    exact h.tiles

/-! ## Runs -/

/-- **The step lemma.** -/
theorem Kept.step (h : Kept r u free) (hlegal : Legal T u op) :
    ∃ free', Kept r (step T u op) free' := by
  cases op with
  | allocate count turns calls =>
    rcases hreturns : u.runs.allocatePages T count turns calls with - | ⟨found, s'⟩
    · exact ⟨free, by simp only [PageRuns.step, hreturns]; exact h⟩
    · rcases Kept.allocatePages_some h hreturns with ⟨rfl, rfl⟩ | ⟨page, hpage, rfl, hcount, hle, rfl⟩
      · exact ⟨free, by simp only [PageRuns.step, hreturns]; exact h⟩
      · obtain ⟨free', hfree'⟩ := Kept.takeRun h hpage hcount hle
        exact ⟨free', by simp only [PageRuns.step, hreturns]; exact hfree'⟩
  | free run => exact ⟨_, Kept.freeRun h hlegal⟩
  | write links physical count => exact ⟨free, h.write hlegal⟩

/-- The heap after `init` is one free run, or has no page. -/
theorem kept_init (r : Region T) (links : Links ℕ) (physical count : ℕ → ℕ) :
    ∃ free, Kept r ⟨init r links physical count, []⟩ free := by
  by_cases hpages : r.pageCount > 0
  · refine ⟨[r.heap], ?_, ?_, ?_⟩
    · simp only [init, if_pos hpages]
      exact ((represents_empty links).pushBack List.not_mem_nil).1
    · intro page hpage
      rw [List.mem_singleton.1 hpage]
      simp only [init, if_pos hpages, Function.update_self]
    · simp only [init, if_pos hpages, freeRuns, List.map_cons, List.map_nil, Function.update_self,
        List.nil_append]
      refine ⟨fun x => rfl, by simp, fun run hrun => ?_⟩
      rw [List.mem_singleton.1 hrun]
      exact hpages
  · refine ⟨[], ?_, fun page hpage => absurd hpage List.not_mem_nil, ?_⟩
    · simp only [init, if_neg hpages]
      exact represents_empty links
    · have hzero : r.pageCount = 0 := by omega
      simp only [freeRuns, List.map_nil, List.append_nil]
      refine ⟨fun x => ?_, by rw [hzero]; rfl, fun run hrun => absurd hrun List.not_mem_nil⟩
      rw [hzero, Nat.mul_zero, cover_cons, if_neg (by simp only [Extent.mem_def]; omega)]
      rfl

/-- **Over every run of allocations, frees and writes the runs are a
partition of the heap.** -/
theorem partition_run (r : Region T) (links : Links ℕ) (physical count : ℕ → ℕ) (ops : List Op)
    (hlegal : Along (step T) (Legal T) ⟨init r links physical count, []⟩ ops) :
    Throughout (step T) (Partitioned T r.pageCount) ⟨init r links physical count, []⟩ ops :=
  throughout_of_invariant (I := fun u => ∃ free, Kept r u free) hlegal
    (kept_init r links physical count) (fun _ _ h hop => h.elim fun _ h => h.step hop)
    fun _ h => h.elim fun _ h => h.partitioned

/-- Five pages, of which runs are taken, written to, freed and split
again, until none has enough. -/
theorem partition_run_split :
    let r : Region .x86_32 := ⟨65536, 5 * 4096 + 100, by decide, by decide⟩
    let before := Library.run (step .x86_32) ⟨init r ⟨fun _ => some 7, fun _ => some 7⟩ id id, []⟩
      [.allocate 2 9 1, .allocate 1 9 1]
    Throughout (step .x86_32) (Partitioned .x86_32 r.pageCount)
      ⟨init r ⟨fun _ => some 7, fun _ => some 7⟩ id id, []⟩
      [.allocate 2 9 1, .allocate 1 9 1,
        .write (setNext before.runs.links 65536 (some 8)) before.runs.physical
          (Function.update before.runs.count 65536 90),
        .free ⟨65536, 2⟩, .allocate 1 9 1, .allocate 1 9 1, .free ⟨73728, 1⟩, .allocate 3 9 5] := by
  intro r before
  refine partition_run r _ _ _ _ ⟨trivial, trivial, fun x hx => ?_, ?_, trivial, trivial, ?_, trivial,
    trivial⟩
  · -- what is written to is outstanding
    have hne : x ≠ 65536 := by
      rintro rfl
      exact hx ⟨65536, 2⟩ (by decide) (by decide)
    refine ⟨?_, rfl, rfl, ?_⟩
    · rw [setNext_next, if_neg hne]
      rfl
    · rw [Function.update_of_ne hne]
      rfl
  · show (⟨65536, 2⟩ : Run) ∈ _
    decide
  · show (⟨73728, 1⟩ : Run) ∈ _
    decide

end PageRuns

end Uberos

/-!
## Which allocations return

`_allocate_pages` calls itself again after `_compact` as long as
`needsCompacting` holds, and nothing ever resets it. A call for more pages
than any free run has returns before the first free, and at no depth
after it.
-/

namespace Uberos

namespace PageRuns

open Library LList

variable {T : Target} {s : PageRuns} {r : Region T}
variable {free : List ℕ} {out : List Run} {count : ℕ}

/-! ## What it is for -/

/-- **The call returns**, a run or `nullptr`, after finitely many turns and
calls of itself. -/
def Returns (T : Target) (s : PageRuns) (count : ℕ) : Prop :=
  ∃ turns calls, (s.allocatePages T count turns calls).isSome

/-- A run of the list has so many pages. -/
def Enough (s : PageRuns) (count : ℕ) : Prop :=
  ∃ free, Follows s.links.next s.freePages.head free ∧ ∃ page ∈ free, count ≤ s.count page

/-- **No pages are asked for, or a run has enough, or nothing was freed
yet.** -/
def Served (s : PageRuns) (count : ℕ) : Prop :=
  count = 0 ∨ s.Enough count ∨ s.needsCompacting = false

/-! ## A call -/

/-- The list is walked over the free runs. -/
theorem Kept.enough_iff (h : Kept r ⟨s, out⟩ free) :
    s.Enough count ↔ ∃ page ∈ free, count ≤ s.count page := by
  have hwalk : Follows s.links.next s.freePages.head free :=
    h.represents.head ▸ h.represents.linked.follows_next
  constructor
  · rintro ⟨free', hwalk', hpage⟩
    rwa [hwalk'.unique hwalk] at hpage
  · intro hpage
    exact ⟨free, hwalk, hpage⟩

/-- **Where no run has enough, a call after a free returns at no depth**:
each call finds what the one before it found. -/
theorem Kept.allocatePages_eq_none (h : Kept r ⟨s, out⟩ free) (hcount : 0 < count)
    (hnone : ∀ page ∈ free, s.count page < count) (hfreed : s.needsCompacting = true)
    (turns calls : ℕ) : s.allocatePages T count turns calls = none := by
  induction calls with
  | zero => rfl
  | succ calls ih =>
    rw [allocatePages, if_neg (by omega)]
    split
    · rfl
    · rename_i page hfound
      -- the page the loop finds would have enough
      rw [show s.freePages.head = free.head? from h.represents.head] at hfound
      obtain ⟨hpage, hle⟩ := search_mem h.represents.linked [] hfound rfl
      exact absurd hle (Nat.not_le.2 (hnone page hpage))
    · rw [if_pos hfreed]
      exact ih

/-- **A call returns where it is served**, and only there. -/
theorem Kept.returns_iff (h : Kept r ⟨s, out⟩ free) : Returns T s count ↔ Served s count := by
  rw [Served, h.enough_iff]
  constructor
  · rintro ⟨turns, calls, hreturns⟩
    by_contra hnot
    simp only [not_or, not_exists, not_and, Nat.not_le, Bool.not_eq_false] at hnot
    obtain ⟨hcount, hnone, hfreed⟩ := hnot
    rw [h.allocatePages_eq_none (by omega) hnone hfreed] at hreturns
    exact absurd hreturns (by decide)
  · intro hserved
    refine ⟨free.length, 1, ?_⟩
    by_cases hcount : count = 0
    · rw [hcount]
      rfl
    · have hserved := hserved.resolve_left hcount
      rw [h.allocatePages_eq (Nat.le_refl _) (by omega)]
      split
      · rfl
      · rename_i hfind
        have hnone : ¬∃ page ∈ free, count ≤ s.count page := by
          simpa [List.find?_eq_none] using hfind
        rw [hserved.resolve_left hnone]
        rfl

/-! ## Runs -/

/-- **In every state that allocations, frees and writes lead to, an
allocation returns just where it is served.** -/
theorem returns_run_iff (r : Region T) (links : Links ℕ) (physical counts : ℕ → ℕ) (ops : List Op)
    (hlegal : Along (step T) (Legal T) ⟨init r links physical counts, []⟩ ops) :
    Throughout (step T) (fun u => ∀ count, Returns T u.runs count ↔ Served u.runs count)
      ⟨init r links physical counts, []⟩ ops :=
  throughout_of_invariant (I := fun u => ∃ free, Kept r u free) hlegal
    (kept_init r links physical counts) (fun _ _ h hop => h.elim fun _ h => h.step hop)
    fun _ h _ => h.elim fun _ h => h.returns_iff

/-- Three pages, of which two are taken, written to and freed again. -/
theorem returns_run_iff_freed :
    let r : Region .x86_32 := ⟨65536, 3 * 4096, by decide, by decide⟩
    Throughout (step .x86_32) (fun u => ∀ count, Returns .x86_32 u.runs count ↔ Served u.runs count)
      ⟨init r ⟨fun _ => none, fun _ => none⟩ id id, []⟩
      [.allocate 2 9 1, .free ⟨65536, 2⟩, .allocate 3 9 5, .allocate 2 9 1] := by
  intro r
  refine returns_run_iff r _ _ _ _ ⟨trivial, ?_, trivial, trivial, trivial⟩
  show (⟨65536, 2⟩ : Run) ∈ _
  decide

/-- **Once a run was freed, a call for more pages than the heap has never
returns.** -/
theorem Kept.not_returns (h : Kept r ⟨s, out⟩ free) (hfreed : s.needsCompacting = true)
    (hmore : r.pageCount < count) : ¬Returns T s count := by
  rintro ⟨turns, calls, hreturns⟩
  have hnone : ∀ page ∈ free, s.count page < count := by
    intro page hpage
    have hrun : s.count page ∈ (out ++ s.freeRuns free).map Run.count :=
      List.mem_map_of_mem (f := Run.count) (List.mem_append_right _ (List.mem_map_of_mem hpage))
    have hle := List.le_sum_of_mem hrun
    rw [show ((out ++ s.freeRuns free).map Run.count).sum = r.pageCount from h.tiles.sum] at hle
    omega
  rw [h.allocatePages_eq_none (by omega) hnone hfreed] at hreturns
  exact absurd hreturns (by decide)

/-- A heap of one page that was taken and freed, and a call for two. -/
theorem not_returns_run :
    let r : Region .x86_32 := ⟨65536, 4096, by decide, by decide⟩
    let ops : List Op := [.allocate 1 1 1, .free ⟨65536, 1⟩]
    let new : Usage := ⟨init r ⟨fun _ => none, fun _ => none⟩ id id, []⟩
    Along (step .x86_32) (Legal .x86_32) new ops ∧
      ¬Returns .x86_32 (Library.run (step .x86_32) new ops).runs 2 := by
  intro r ops new
  have hlegal : Along (step .x86_32) (Legal .x86_32) new ops := by
    refine ⟨trivial, ?_, trivial⟩
    show (⟨65536, 1⟩ : Run) ∈ _
    decide
  obtain ⟨free, h⟩ := run_invariant (I := fun u => ∃ free, Kept r u free) hlegal
    (kept_init r _ _ _) (fun _ _ h hop => h.elim fun _ h => h.step hop)
  exact ⟨hlegal, h.not_returns rfl (by decide)⟩

end PageRuns

end Uberos
