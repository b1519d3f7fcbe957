import Uberos.Mmu.Pages
import Mathlib.Data.Nat.Count
/-!
# Mapping a range

A range is mapped page by page, from the first at the low cursor and from
the last at the high one. Either way the pages that are handed out lie
next to each other and hold the range's pages in their order. How many
there are goes by the range's size alone.
-/

namespace Uberos

namespace Mmu

namespace Mapping

open Library

/-- The pages that are mapped for a size: at least one. -/
def pageCount (size : ℕ) : ℕ := max 1 ((size + 4095) / 4096)

/-! ## Room, and what is kept apart -/

/-- There are this many pages between the cursors, and tables for those
the low cursor begins. -/
def LowRoom (m : Mapping) (pages : ℕ) : Prop :=
  m.lowPage + pages ≤ m.highPage + 1 ∧
    m.nextTableIndex + Nat.count (fun i => (m.lowPage + i) % 1024 = 0) pages ≤ m.pool.tablesCount

/-- There are this many pages between the cursors, and tables for those
the high cursor begins. -/
def HighRoom (m : Mapping) (pages : ℕ) : Prop :=
  m.lowPage + pages ≤ m.highPage + 1 ∧
    m.nextTableIndex + Nat.count (fun i => FirstHigh (m.highPage - i)) pages ≤ m.pool.tablesCount

/-- The low cursor begins no table for a directory entry that the high
one has begun. -/
def LowKept (m : Mapping) (pages : ℕ) : Prop :=
  ∀ i < pages, (m.lowPage + i) % 1024 = 0 → ¬ m.BegunHigh ((m.lowPage + i) / 1024)

/-- The high cursor begins no table for a directory entry that the low
one has begun, and does not hand out the first page of all, after which
it leaves the directory. -/
def HighKept (m : Mapping) (pages : ℕ) : Prop :=
  pages ≤ m.highPage ∧
    ∀ i < pages, FirstHigh (m.highPage - i) → ¬ m.BegunLow ((m.highPage - i) / 1024)

instance (m : Mapping) (pages : ℕ) : Decidable (m.LowRoom pages) := by
  unfold LowRoom
  infer_instance

instance (m : Mapping) (pages : ℕ) : Decidable (m.HighRoom pages) := by
  unfold HighRoom
  infer_instance

instance (m : Mapping) (pages : ℕ) : Decidable (m.LowKept pages) := by
  unfold LowKept
  infer_instance

instance (m : Mapping) (pages : ℕ) : Decidable (m.HighKept pages) := by
  unfold HighKept
  infer_instance

/-! ## What a run of pages leaves -/

/-- **What was taken is as it was.** -/
structure Extended (m : Mapping) (t : TwoLevel TableEntry) (m' : Mapping)
    (t' : TwoLevel TableEntry) : Prop where
  paged : Paged m' t'
  taken : ∀ page, Taken m page → Taken m' page
  kept : ∀ page, Taken m page → t'.lookup 1024 page = t.lookup 1024 page

/-- **Pages next to each other hold pages next to each other.** -/
def Frames (t : TwoLevel TableEntry) (page pages frame : ℕ) : Prop :=
  ∀ i < pages, ∃ entry, t.lookup 1024 (page + i) = some entry ∧
    entry.getAddress = (frame + i) % 2 ^ 20 * 4096

variable {m m' m'' : Mapping} {t t' t'' : TwoLevel TableEntry} {page pages frame : ℕ}
variable {physical size : ℕ} {options : MapOptions}

theorem Paged.refl (h : Paged m t) : Extended m t m t := ⟨h, fun _ h => h, fun _ _ => rfl⟩

theorem Extended.trans (h : Extended m t m' t') (h' : Extended m' t' m'' t'') :
    Extended m t m'' t'' where
  paged := h'.paged
  taken page hpage := h'.taken page (h.taken page hpage)
  kept page hpage := by rw [h'.kept page (h.taken page hpage), h.kept page hpage]

/-- Taken pages still hold what they held. -/
theorem Extended.frames (h : Extended m t m' t') (hframes : Frames t page pages frame)
    (htaken : ∀ i < pages, Taken m (page + i)) : Frames t' page pages frame := by
  intro i hi
  rw [h.kept _ (htaken i hi)]
  exact hframes i hi

theorem frames_append {pages' : ℕ} (h : Frames t page pages frame)
    (h' : Frames t (page + pages) pages' (frame + pages)) :
    Frames t page (pages + pages') frame := by
  intro i hi
  rcases Nat.lt_or_ge i pages with hlt | hge
  · exact h i hlt
  · obtain ⟨entry, hentry, haddress⟩ := h' (i - pages) (by omega)
    have hi' : pages + (i - pages) = i := by omega
    rw [Nat.add_assoc, hi'] at hentry haddress
    exact ⟨entry, hentry, haddress⟩

theorem Frames.congr {frame' : ℕ} (h : Frames t page pages frame)
    (hframe : frame % 2 ^ 20 = frame' % 2 ^ 20) : Frames t page pages frame' := by
  intro i hi
  obtain ⟨entry, hentry, haddress⟩ := h i hi
  have hsame : (frame + i) % 2 ^ 20 = (frame' + i) % 2 ^ 20 := by omega
  exact ⟨entry, hentry, hsame ▸ haddress⟩

/-- A page that was handed out holds its page. -/
theorem HandedOut.frames {isFirstTable : Bool}
    (h : HandedOut m t page (pageEntry physical options) isFirstTable m' t') :
    Frames t' page 1 (physical / 4096) := by
  intro i hi
  have hi' : i = 0 := by omega
  rw [hi', Nat.add_zero, Nat.add_zero]
  exact ⟨_, h.self, by rw [pageEntry_getAddress]⟩

/-! ## At the low cursor -/

/-- A page at the low cursor. -/
theorem Paged.lowPage_spec (h : Paged m t) (hroom : LowRoom m (pages + 1))
    (hkept : LowKept m (pages + 1)) (physical : ℕ) (options : MapOptions) :
    ∃ m' t', m.mapPhysicalLow physical options =
        some (m.lowPage * 4096 + physical % 4096, m') ∧
      Extended m t m' t' ∧ Frames t' m.lowPage 1 (physical / 4096) ∧
      m'.lowPage = m.lowPage + 1 ∧ m'.highPage = m.highPage ∧
      LowRoom m' pages ∧ LowKept m' pages := by
  obtain ⟨hpages, htables⟩ := hroom
  have hfirst := hkept 0 (Nat.succ_pos _)
  rw [Nat.count_succ', Nat.add_zero] at htables
  rw [Nat.add_zero] at hfirst
  obtain ⟨m', t', hcall, hout, hlow, hhigh⟩ := h.mapPhysicalLow (by omega)
    (fun hzero => by
      rw [if_pos hzero] at htables
      omega) hfirst physical options
  refine ⟨m', t', hcall, ⟨hout.paged, fun q hq => ?_, hout.kept⟩, hout.frames, hlow, hhigh,
    ⟨by omega, ?_⟩, fun i hi hfirst => ?_⟩
  · unfold Taken at hq ⊢
    omega
  · rw [hout.pool, hout.next, hlow]
    simp only [decide_eq_true_eq] at htables ⊢
    simp only [Nat.add_assoc, Nat.add_comm 1] at htables ⊢
    omega
  · rw [hlow] at hfirst ⊢
    have hnot := hkept (i + 1) (Nat.succ_lt_succ hi)
    rw [Nat.add_comm i, ← Nat.add_assoc] at hnot
    unfold BegunHigh at hnot ⊢
    rw [hhigh]
    exact hnot hfirst

/-- A round of the loop. -/
theorem mapPhysicalLowRest_of_lt {virtualAddress : ℕ} (hmore : 4096 < size)
    (hcall : m.mapPhysicalLow ((physical + 4096) % 2 ^ 32) options = some (virtualAddress, m')) :
    Mapping.mapPhysicalLowRest options m physical size =
      Mapping.mapPhysicalLowRest options m' ((physical + 4096) % 2 ^ 32) (size - 4096) := by
  rw [Mapping.mapPhysicalLowRest, if_pos hmore]
  dsimp only
  rw [hcall, Option.bind_eq_bind, Option.bind_some]

theorem mapPhysicalLowRest_of_le (hlast : size ≤ 4096) :
    Mapping.mapPhysicalLowRest options m physical size = some m := by
  rw [Mapping.mapPhysicalLowRest, if_neg (Nat.not_lt.2 hlast)]

/-- **The pages after the first**, at the low cursor. -/
theorem Paged.mapPhysicalLowRest (h : Paged m t) (hroom : LowRoom m ((size - 1) / 4096))
    (hkept : LowKept m ((size - 1) / 4096)) (physical : ℕ) (options : MapOptions) :
    ∃ m' t', Mapping.mapPhysicalLowRest options m physical size = some m' ∧ Extended m t m' t' ∧
      m'.lowPage = m.lowPage + (size - 1) / 4096 ∧ m'.highPage = m.highPage ∧
      Frames t' m.lowPage ((size - 1) / 4096) (physical / 4096 + 1) := by
  induction size using Nat.strong_induction_on generalizing m t physical with
  | h size ih =>
    rcases Nat.lt_or_ge 4096 size with hmore | hlast
    · have hpages : (size - 1) / 4096 = (size - 4096 - 1) / 4096 + 1 := by omega
      rw [hpages] at hroom hkept ⊢
      obtain ⟨m₁, t₁, hcall, hextended, hframes, hlow, hhigh, hroom₁, hkept₁⟩ :=
        h.lowPage_spec hroom hkept ((physical + 4096) % 2 ^ 32) options
      obtain ⟨m', t', hrest, hextended', hlow', hhigh', hframes'⟩ :=
        ih (size - 4096) (by omega) hextended.paged hroom₁ hkept₁ ((physical + 4096) % 2 ^ 32)
      refine ⟨m', t', (mapPhysicalLowRest_of_lt hmore hcall).trans hrest,
        hextended.trans hextended', by omega, by omega, ?_⟩
      have hfirst := hextended'.frames hframes fun i hi => by
        unfold Taken
        omega
      rw [hlow] at hframes'
      rw [Nat.add_comm]
      exact frames_append (hfirst.congr (by omega)) (hframes'.congr (by omega))
    · have hpages : (size - 1) / 4096 = 0 := by omega
      rw [hpages]
      exact ⟨m, t, mapPhysicalLowRest_of_le hlast, h.refl, (Nat.add_zero _).symm, rfl,
        fun i hi => absurd hi (Nat.not_lt_zero i)⟩

/-! ## At the high cursor -/

/-- A page at the high cursor. -/
theorem Paged.highPage_spec (h : Paged m t) (hroom : HighRoom m (pages + 1))
    (hkept : HighKept m (pages + 1)) (physical : ℕ) (options : MapOptions) :
    ∃ m' t', m.mapPhysicalHigh physical options =
        some (m.highPage * 4096 + physical % 4096, m') ∧
      Extended m t m' t' ∧ Frames t' m.highPage 1 (physical / 4096) ∧
      m'.lowPage = m.lowPage ∧ m'.highPage = m.highPage - 1 ∧
      HighRoom m' pages ∧ HighKept m' pages := by
  obtain ⟨hpages, htables⟩ := hroom
  obtain ⟨hnext, hkept⟩ := hkept
  have hfirst := hkept 0 (Nat.succ_pos _)
  rw [Nat.count_succ', Nat.sub_zero] at htables
  rw [Nat.sub_zero] at hfirst
  obtain ⟨m', t', hcall, hout, hlow, hhigh⟩ := h.mapPhysicalHigh (by omega)
    (fun hend => by
      rw [if_pos hend] at htables
      omega) hfirst (by omega) physical options
  have hpage : ∀ i, m'.highPage - i = m.highPage - (i + 1) := fun i => by omega
  refine ⟨m', t', hcall, ⟨hout.paged, fun q hq => ?_, hout.kept⟩, hout.frames, hlow, hhigh,
    ⟨by omega, ?_⟩, by omega, fun i hi hend => ?_⟩
  · unfold Taken at hq ⊢
    omega
  · rw [hout.pool, hout.next]
    simp only [decide_eq_true_eq, hpage] at htables ⊢
    omega
  · rw [hpage] at hend ⊢
    have hnot := hkept (i + 1) (Nat.succ_lt_succ hi) hend
    unfold BegunLow at hnot ⊢
    rwa [hlow]

/-- **The pages from the last to the first**, at the high cursor. -/
theorem Paged.mapPhysicalHighPages (h : Paged m t) (hroom : HighRoom m pages)
    (hkept : HighKept m pages) (virtualAddress physical : ℕ) (options : MapOptions)
    (hframe : (frame + pages) % 2 ^ 20 = (physical / 4096 + 1) % 2 ^ 20) :
    ∃ m' t', Mapping.mapPhysicalHighPages options pages virtualAddress m physical =
        some (if pages = 0 then virtualAddress
          else (m.highPage + 1 - pages) * 4096 + physical % 4096, m') ∧
      Extended m t m' t' ∧ m'.lowPage = m.lowPage ∧ m'.highPage = m.highPage - pages ∧
      Frames t' (m.highPage + 1 - pages) pages frame := by
  induction pages generalizing m t physical virtualAddress with
  | zero =>
    exact ⟨m, t, rfl, h.refl, rfl, rfl, fun i hi => absurd hi (Nat.not_lt_zero i)⟩
  | succ pages ih =>
    have hnext := hkept.1
    obtain ⟨m₁, t₁, hcall, hextended, hframes, hlow, hhigh, hroom₁, hkept₁⟩ :=
      h.highPage_spec hroom hkept physical options
    obtain ⟨m', t', hrest, hextended', hlow', hhigh', hframes'⟩ :=
      ih hextended.paged hroom₁ hkept₁ (m.highPage * 4096 + physical % 4096)
        ((physical + 2 ^ 32 - 4096) % 2 ^ 32) (by omega)
    have hpage : m₁.highPage + 1 - pages = m.highPage + 1 - (pages + 1) := by omega
    refine ⟨m', t', ?_, hextended.trans hextended', by omega, by omega, ?_⟩
    · rw [Mapping.mapPhysicalHighPages, hcall, Option.bind_eq_bind, Option.bind_some]
      simp only [hrest, hpage, if_neg (Nat.succ_ne_zero pages)]
      by_cases hzero : pages = 0
      · subst hzero
        rw [if_pos rfl, Nat.zero_add, Nat.add_sub_cancel]
      · have hoffset : (physical + 2 ^ 32 - 4096) % 2 ^ 32 % 4096 = physical % 4096 := by omega
        rw [if_neg hzero, hoffset]
    · have htop : m.highPage + 1 - (pages + 1) + pages = m.highPage := by omega
      rw [hpage] at hframes'
      refine frames_append hframes' ?_
      rw [htop]
      have hlast := h.last
      exact (hextended'.frames hframes fun i hi => by
        unfold Taken
        omega).congr (by omega)

/-! ## Both loops -/

/-- **A range at the low cursor** lies from its page on. -/
theorem Paged.mapPhysicalLowRange (h : Paged m t) (hroom : LowRoom m (pageCount size))
    (hkept : LowKept m (pageCount size)) (physical : ℕ) (options : MapOptions) :
    ∃ m' t', m.mapPhysicalLowRange physical size options =
        some (m.lowPage * 4096 + physical % 4096, m') ∧
      Extended m t m' t' ∧ m'.lowPage = m.lowPage + pageCount size ∧
      m'.highPage = m.highPage ∧ Frames t' m.lowPage (pageCount size) (physical / 4096) := by
  have hpages : pageCount size = (size - 1) / 4096 + 1 := by
    unfold pageCount
    omega
  rw [hpages] at hroom hkept ⊢
  obtain ⟨m₁, t₁, hcall, hextended, hframes, hlow, hhigh, hroom₁, hkept₁⟩ :=
    h.lowPage_spec hroom hkept physical options
  obtain ⟨m', t', hrest, hextended', hlow', hhigh', hframes'⟩ :=
    hextended.paged.mapPhysicalLowRest hroom₁ hkept₁ physical options
  refine ⟨m', t', ?_, hextended.trans hextended', by omega, by omega, ?_⟩
  · rw [Mapping.mapPhysicalLowRange, hcall, Option.bind_eq_bind, Option.bind_some]
    dsimp only
    rw [hrest, Option.bind_eq_bind, Option.bind_some]
  · have hfirst := hextended'.frames hframes fun i hi => by
      unfold Taken
      omega
    rw [hlow] at hframes'
    rw [Nat.add_comm]
    exact frames_append hfirst hframes'

/-- **A range at the high cursor** lies up to its page. -/
theorem Paged.mapPhysicalHighRange (h : Paged m t) (hroom : HighRoom m (pageCount size))
    (hkept : HighKept m (pageCount size)) (physical : ℕ) (options : MapOptions) :
    ∃ m' t', m.mapPhysicalHighRange physical size options =
        some ((m.highPage + 1 - pageCount size) * 4096 + physical % 4096, m') ∧
      Extended m t m' t' ∧ m'.lowPage = m.lowPage ∧
      m'.highPage = m.highPage - pageCount size ∧
      Frames t' (m.highPage + 1 - pageCount size) (pageCount size) (physical / 4096) := by
  have hlast := h.last
  have hrange := hroom.1
  have hpages : (((if size < 1 then 1 else size) + 4095) % 2 ^ 32) / 4096 = pageCount size := by
    unfold pageCount at hrange ⊢
    split <;> omega
  have hone : pageCount size ≠ 0 := by
    unfold pageCount
    omega
  have hframe : (physical / 4096 + pageCount size) % 2 ^ 20 =
      ((physical + (pageCount size + 2 ^ 32 - 1) * 4096) % 2 ^ 32 / 4096 + 1) % 2 ^ 20 := by omega
  obtain ⟨m', t', hcall, hextended, hlow, hhigh, hframes⟩ :=
    h.mapPhysicalHighPages hroom hkept 0 _ options hframe
  have hoffset : (physical + (pageCount size + 2 ^ 32 - 1) * 4096) % 2 ^ 32 % 4096 =
      physical % 4096 := by omega
  rw [if_neg hone, hoffset] at hcall
  refine ⟨m', t', ?_, hextended, hlow, hhigh, hframes⟩
  unfold Mapping.mapPhysicalHighRange
  dsimp only
  rw [hpages, hcall]

end Mapping

end Mmu

end Uberos
