import Uberos.Mmu.Tables
/-!
# Mapping a page

The pages below the low cursor and above the high one are taken, and the
tables of their directory entries are begun. A page is mapped at either
cursor where there is one between them: its entry is written, and no
other taken page's is, unless a table is begun for a directory entry that
the other cursor has begun one for.
-/

namespace Uberos

namespace Mmu

namespace Mapping

open Library

/-! ## The cursors -/

/-- The page the low cursor hands out next. -/
def lowPage (m : Mapping) : ℕ := m.nextLowDirectoryIndex * 1024 + m.nextLowTableIndex

/-- The page the high cursor hands out next. -/
def highPage (m : Mapping) : ℕ := m.nextHighDirectoryIndex * 1024 + m.nextHighTableIndex

/-- The pages that were handed out. The last page of all is none. -/
def Taken (m : Mapping) (page : ℕ) : Prop :=
  page < m.lowPage ∨ m.highPage < page ∧ page < 2 ^ 20 - 1

/-- The directory entries the low cursor has begun. -/
def BegunLow (m : Mapping) (d : ℕ) : Prop := d * 1024 < m.lowPage

/-- The directory entries the high cursor has begun, from the last of
their pages that it hands out. -/
def BegunHigh (m : Mapping) (d : ℕ) : Prop := m.highPage < min (d * 1024 + 1023) (2 ^ 20 - 2)

/-- The pages the high cursor begins a table at. -/
def FirstHigh (page : ℕ) : Prop := page % 1024 = 1023 ∨ page = 2 ^ 20 - 2

instance (m : Mapping) (d : ℕ) : Decidable (m.BegunLow d) := by
  unfold BegunLow
  infer_instance

instance (m : Mapping) (d : ℕ) : Decidable (m.BegunHigh d) := by
  unfold BegunHigh
  infer_instance

instance (page : ℕ) : Decidable (FirstHigh page) := by
  unfold FirstHigh
  infer_instance

/-! ## What mapping a page does -/

/-- **A page was mapped**: its entry is written, in a table that is begun
if it was not, and nothing else is. -/
structure PageMapped (m : Mapping) (t : TwoLevel TableEntry) (page : ℕ) (entry : TableEntry)
    (m' : Mapping) (t' : TwoLevel TableEntry) : Prop where
  keeps : Keeps m' t'
  lowDirectory : m'.nextLowDirectoryIndex = m.nextLowDirectoryIndex
  lowTable : m'.nextLowTableIndex = m.nextLowTableIndex
  highDirectory : m'.nextHighDirectoryIndex = m.nextHighDirectoryIndex
  highTable : m'.nextHighTableIndex = m.nextHighTableIndex
  begun : ∀ d, t'.slot d = none ↔ t.slot d = none ∧ d ≠ page / 1024
  present : ∀ d ≠ page / 1024, (m'.directory d).isPresent = (m.directory d).isPresent
  self : t'.lookup 1024 page = some entry
  others : ∀ q ≠ page, t.slot (q / 1024) ≠ none → t'.lookup 1024 q = t.lookup 1024 q
  fresh : ∀ q ≠ page, t.slot (q / 1024) = none →
    ∀ entry', t'.lookup 1024 q = some entry' → entry'.isPresent = false
  pool : m'.pool = m.pool
  next : m'.nextTableIndex =
    m.nextTableIndex + if t.slot (page / 1024) = none then 1 else 0

/-- **A page was written**, in whichever table: its directory entry is
begun, and no other page is present that was not. -/
structure PageWritten (m : Mapping) (t : TwoLevel TableEntry) (page : ℕ) (entry : TableEntry)
    (m' : Mapping) (t' : TwoLevel TableEntry) : Prop where
  keeps : Keeps m' t'
  lowDirectory : m'.nextLowDirectoryIndex = m.nextLowDirectoryIndex
  lowTable : m'.nextLowTableIndex = m.nextLowTableIndex
  highDirectory : m'.nextHighDirectoryIndex = m.nextHighDirectoryIndex
  highTable : m'.nextHighTableIndex = m.nextHighTableIndex
  begun : ∀ d, t'.slot d = none ↔ t.slot d = none ∧ d ≠ page / 1024
  present : ∀ d ≠ page / 1024, (m'.directory d).isPresent = (m.directory d).isPresent
  self : t'.lookup 1024 page = some entry
  free : ∀ q ≠ page, ∀ entry', t'.lookup 1024 q = some entry' →
    entry'.isPresent = false ∨ t.lookup 1024 q = some entry'

variable {m m' : Mapping} {t t' : TwoLevel TableEntry} {d s i page physical : ℕ}
variable {options : MapOptions} {entry : TableEntry}

theorem PageMapped.written (h : PageMapped m t page entry m' t') :
    PageWritten m t page entry m' t' where
  keeps := h.keeps
  lowDirectory := h.lowDirectory
  lowTable := h.lowTable
  highDirectory := h.highDirectory
  highTable := h.highTable
  begun := h.begun
  present := h.present
  self := h.self
  free q hq entry' hentry := by
    by_cases hslot : t.slot (q / 1024) = none
    · exact Or.inl (h.fresh q hq hslot entry' hentry)
    · exact Or.inr (h.others q hq hslot ▸ hentry)

/-- The page's table is there: it is written. -/
theorem Keeps.pageMapped (h : Keeps m t) (hslot : t.slot (page / 1024) = some s) :
    PageMapped m t page (pageEntry physical options)
      (m.setEntry (page / 1024) s (page % 1024) physical options)
      (t.write s (page % 1024) (pageEntry physical options)) where
  keeps := h.setEntry _ _ _ _ _
  lowDirectory := rfl
  lowTable := rfl
  highDirectory := rfl
  highTable := rfl
  begun d := by
    rw [TwoLevel.write_slot]
    refine ⟨fun hnone => ⟨hnone, fun heq => ?_⟩, And.left⟩
    rw [heq, hslot] at hnone
    contradiction
  present d hd := by simp [Mapping.setEntry, hd]
  self := TwoLevel.lookup_write_self hslot
  others q hq _ := h.distinct.lookup_write hslot hq
  fresh q hq hnone entry' hentry := by
    rw [h.distinct.lookup_write hslot hq, TwoLevel.lookup_eq_none_iff.2 hnone] at hentry
    contradiction
  pool := rfl
  next := by
    rw [hslot]
    rfl

/-- Its table is begun over whatever its directory entry named. -/
theorem Keeps.pageWritten_begin (h : Keeps m t) (hroom : m.nextTableIndex < m.pool.tablesCount) :
    PageWritten m t page (pageEntry physical options)
      ((m.startTable (page / 1024)).setEntry (page / 1024) m.nextTableIndex (page % 1024)
        physical options)
      ((t.install (page / 1024) m.nextTableIndex m.cleared).write m.nextTableIndex (page % 1024)
        (pageEntry physical options)) := by
  have hstart := h.startTable hroom (page / 1024)
  have hwritten : PageMapped _ _ page (pageEntry physical options) _ _ :=
    hstart.pageMapped (TwoLevel.install_slot_self m.cleared)
  refine ⟨hwritten.keeps, rfl, rfl, rfl, rfl, fun d => ?_, fun d hd => ?_, hwritten.self,
    fun q hq entry' hentry => ?_⟩
  · rw [hwritten.begun]
    by_cases hd : d = page / 1024
    · simp [hd]
    · rw [TwoLevel.install_slot_of_ne _ hd]
  · rw [hwritten.present d hd]
    simp [Mapping.startTable, hd]
  · rw [hstart.distinct.lookup_write (TwoLevel.install_slot_self m.cleared) hq] at hentry
    by_cases hd : q / 1024 = page / 1024
    · rw [TwoLevel.lookup_install_self _ hd, Option.some.injEq] at hentry
      exact Or.inl (hentry ▸ rfl)
    · exact Or.inr (TwoLevel.lookup_install_of_ne h.next_fresh _ hd ▸ hentry)

/-- The page's table is begun, and it is written. -/
theorem Keeps.pageMapped_begin (h : Keeps m t) (hslot : t.slot (page / 1024) = none)
    (hroom : m.nextTableIndex < m.pool.tablesCount) :
    PageMapped m t page (pageEntry physical options)
      ((m.startTable (page / 1024)).setEntry (page / 1024) m.nextTableIndex (page % 1024)
        physical options)
      ((t.install (page / 1024) m.nextTableIndex m.cleared).write m.nextTableIndex (page % 1024)
        (pageEntry physical options)) := by
  have hstart := h.startTable hroom (page / 1024)
  have hwritten : PageWritten m t page (pageEntry physical options) _ _ :=
    h.pageWritten_begin hroom
  refine ⟨hwritten.keeps, rfl, rfl, rfl, rfl, hwritten.begun, hwritten.present, hwritten.self,
    fun q hq hbegun => ?_, fun q hq hnone entry' hentry => ?_, rfl, ?_⟩
  · have hd : q / 1024 ≠ page / 1024 := fun heq => hbegun (heq ▸ hslot)
    rw [hstart.distinct.lookup_write (TwoLevel.install_slot_self m.cleared) hq,
      TwoLevel.lookup_install_of_ne h.next_fresh _ hd]
  · rw [hstart.distinct.lookup_write (TwoLevel.install_slot_self m.cleared) hq] at hentry
    by_cases hd : q / 1024 = page / 1024
    · rw [TwoLevel.lookup_install_self _ hd, Option.some.injEq] at hentry
      rw [← hentry]
      rfl
    · rw [TwoLevel.lookup_install_of_ne h.next_fresh _ hd, TwoLevel.lookup_eq_none_iff.2 hnone]
        at hentry
      contradiction
  · rw [if_pos hslot]
    rfl

/-- The page's offset is not in its entry. -/
theorem pageEntry_aligned (physical : ℕ) (options : MapOptions) :
    pageEntry (physical - physical % 4096) options = pageEntry physical options := by
  have hshift : (physical - physical % 4096) >>> 12 = physical >>> 12 := by
    simp only [Nat.shiftRight_eq_div_pow]
    omega
  unfold pageEntry
  rw [hshift]

/-! ### The call -/

/-- The address a page is returned at. -/
theorem virtualAddress_eq (hpage : page < 2 ^ 20) (physical : ℕ) :
    ((page / 1024) <<< 22 ||| (page % 1024) <<< 12 ||| physical % 4096) % 2 ^ 32 =
      page * 4096 + physical % 4096 := by
  rw [address_eq _ (by omega) (by omega), Nat.div_add_mod']
  exact Nat.mod_eq_of_lt (by omega)

/-- A call that begins a table. -/
theorem Keeps.mapPage_begin_eq (h : Keeps m t) (checked : Bool) (hpage : page < 2 ^ 20)
    (hpresent : (m.directory (page / 1024)).isPresent = false)
    (hroom : m.nextTableIndex < m.pool.tablesCount) (physical : ℕ) (options : MapOptions) :
    m.mapPage (page / 1024) (page % 1024) true checked physical options =
      some (page * 4096 + physical % 4096,
        (m.startTable (page / 1024)).setEntry (page / 1024) m.nextTableIndex (page % 1024)
          (physical - physical % 4096) options) := by
  have hbegin : m.beginTable (page / 1024) = some (m.startTable (page / 1024)) := by
    unfold beginTable
    rw [hpresent, if_neg Bool.false_ne_true, if_neg (not_not_intro hroom)]
  have htable := (h.startTable hroom (page / 1024)).toVirtual (TwoLevel.install_slot_self _)
  have hclear : ((m.startTable (page / 1024)).tables m.nextTableIndex (page % 1024)).isPresent =
      false := by simp [Mapping.startTable]
  simp only [Mapping.mapPage, and_offset, virtualAddress_eq hpage, Option.bind_eq_bind, if_true,
    hbegin, Option.bind_some, htable, hclear, Bool.and_false, Bool.false_eq_true, if_false]

/-- A call that finds its table. -/
theorem Keeps.mapPage_eq (h : Keeps m t) (checked : Bool) (hpage : page < 2 ^ 20)
    (hslot : t.slot (page / 1024) = some s)
    (hfree : ∀ entry, t.lookup 1024 page = some entry → entry.isPresent = false)
    (physical : ℕ) (options : MapOptions) :
    m.mapPage (page / 1024) (page % 1024) false checked physical options =
      some (page * 4096 + physical % 4096,
        m.setEntry (page / 1024) s (page % 1024) (physical - physical % 4096) options) := by
  have htable := h.toVirtual hslot
  have hclear := hfree _ (TwoLevel.lookup_of_slot hslot)
  rw [h.tables] at hclear
  simp only [Mapping.mapPage, and_offset, virtualAddress_eq hpage, Option.bind_eq_bind,
    Bool.false_eq_true, if_false, Option.bind_some, htable, hclear, Bool.and_false]

/-- A table is not begun for an entry that is present. -/
theorem mapPage_of_present (checked : Bool) (hpresent : (m.directory d).isPresent = true) :
    m.mapPage d i true checked physical options = none := by
  have hbegin : m.beginTable d = none := by
    unfold beginTable
    rw [hpresent, if_pos rfl]
  simp only [Mapping.mapPage, if_true, hbegin, Option.bind_eq_bind, Option.bind_none]

/-- A table is not begun where none is left. -/
theorem mapPage_of_full (checked : Bool) (hfull : m.pool.tablesCount ≤ m.nextTableIndex) :
    m.mapPage d i true checked physical options = none := by
  have hbegin : m.beginTable d = none := by
    unfold beginTable
    split
    · rfl
    · rw [if_pos (not_lt.2 hfull)]
  simp only [Mapping.mapPage, if_true, hbegin, Option.bind_eq_bind, Option.bind_none]

/-- **Mapping a page**, whose table is begun or is about to be, and which
is free. -/
theorem Keeps.mapPage (h : Keeps m t) (isFirstTable checked : Bool) (hpage : page < 2 ^ 20)
    (hbegun : isFirstTable = false → t.slot (page / 1024) ≠ none)
    (hfirst : isFirstTable = true → t.slot (page / 1024) = none ∧
      (m.directory (page / 1024)).isPresent = false ∧ m.nextTableIndex < m.pool.tablesCount)
    (hfree : ∀ entry, t.lookup 1024 page = some entry → entry.isPresent = false)
    (physical : ℕ) (options : MapOptions) :
    ∃ m' t', m.mapPage (page / 1024) (page % 1024) isFirstTable checked physical options =
        some (page * 4096 + physical % 4096, m') ∧
      PageMapped m t page (pageEntry physical options) m' t' := by
  cases isFirstTable with
  | true =>
    obtain ⟨hslot, hpresent, hroom⟩ := hfirst rfl
    exact ⟨_, _, h.mapPage_begin_eq checked hpage hpresent hroom physical options,
      pageEntry_aligned physical options ▸ h.pageMapped_begin hslot hroom⟩
  | false =>
    obtain ⟨s, hslot⟩ := Option.ne_none_iff_exists'.1 (hbegun rfl)
    exact ⟨_, _, h.mapPage_eq checked hpage hslot hfree physical options,
      pageEntry_aligned physical options ▸ h.pageMapped hslot⟩

/-- The same, whatever the directory entry named before its table is
begun. -/
theorem Keeps.writePage (h : Keeps m t) (isFirstTable checked : Bool) (hpage : page < 2 ^ 20)
    (hbegun : isFirstTable = false → t.slot (page / 1024) ≠ none)
    (hfirst : isFirstTable = true →
      (m.directory (page / 1024)).isPresent = false ∧ m.nextTableIndex < m.pool.tablesCount)
    (hfree : ∀ entry, t.lookup 1024 page = some entry → entry.isPresent = false)
    (physical : ℕ) (options : MapOptions) :
    ∃ m' t', m.mapPage (page / 1024) (page % 1024) isFirstTable checked physical options =
        some (page * 4096 + physical % 4096, m') ∧
      PageWritten m t page (pageEntry physical options) m' t' := by
  cases isFirstTable with
  | true =>
    obtain ⟨hpresent, hroom⟩ := hfirst rfl
    exact ⟨_, _, h.mapPage_begin_eq checked hpage hpresent hroom physical options,
      pageEntry_aligned physical options ▸ h.pageWritten_begin hroom⟩
  | false =>
    obtain ⟨s, hslot⟩ := Option.ne_none_iff_exists'.1 (hbegun rfl)
    exact ⟨_, _, h.mapPage_eq checked hpage hslot hfree physical options,
      pageEntry_aligned physical options ▸ (h.pageMapped hslot).written⟩

/-! ## The invariant -/

/-- **The taken pages are those of the begun tables that are in use.** -/
structure Paged (m : Mapping) (t : TwoLevel TableEntry) : Prop extends Keeps m t where
  lowTable : m.nextLowTableIndex < 1024
  highTable : m.nextHighTableIndex < 1024
  apart : m.lowPage ≤ m.highPage + 1
  last : m.highPage < 2 ^ 20 - 1
  begun : ∀ d, t.slot d = none ↔ ∀ page, Taken m page → page / 1024 ≠ d
  present : ∀ d, t.slot d = none → (m.directory d).isPresent = false
  free : ∀ page, m.lowPage ≤ page → page ≤ m.highPage →
    ∀ entry, t.lookup 1024 page = some entry → entry.isPresent = false

/-! ### Where the cursors stand -/

theorem Paged.lowIndices (h : Paged m t) : m.nextLowDirectoryIndex = m.lowPage / 1024 ∧
    m.nextLowTableIndex = m.lowPage % 1024 := by
  have hlow := h.lowTable
  unfold lowPage
  omega

theorem Paged.highIndices (h : Paged m t) : m.nextHighDirectoryIndex = m.highPage / 1024 ∧
    m.nextHighTableIndex = m.highPage % 1024 := by
  have hhigh := h.highTable
  unfold highPage
  omega

theorem Paged.isFirstHighTable_eq (h : Paged m t) :
    m.isFirstHighTable = decide (FirstHigh m.highPage) := by
  obtain ⟨hdirectory, htable⟩ := h.highIndices
  unfold isFirstHighTable FirstHigh
  rw [hdirectory, htable]
  exact decide_eq_decide.2 (by omega)

theorem lowPage_new (pool : TablePool) (tables : ℕ → ℕ → TableEntry) :
    (new pool tables).lowPage = 0 := by
  simp only [lowPage, new]

theorem highPage_new (pool : TablePool) (tables : ℕ → ℕ → TableEntry) :
    (new pool tables).highPage = 2 ^ 20 - 2 := by
  change 1023 * 1024 + 1022 = 2 ^ 20 - 2
  omega

theorem paged_new (pool : TablePool) (tables : ℕ → ℕ → TableEntry) :
    Paged (new pool tables) ⟨fun _ => none, tables⟩ where
  tables := rfl
  distinct _ _ _ h := by contradiction
  slot _ _ h := by contradiction
  count := Nat.zero_le _
  lowTable := by
    simp only [new]
    omega
  highTable := by
    simp only [new]
    omega
  apart := by
    rw [lowPage_new]
    exact Nat.zero_le _
  last := by
    rw [highPage_new]
    omega
  begun d := by
    refine iff_of_true rfl fun page hpage => ?_
    unfold Taken at hpage
    rw [lowPage_new, highPage_new] at hpage
    omega
  present _ _ := rfl
  free _ _ _ _ h := by contradiction

/-- **A cursor goes past the page that was mapped.** -/
theorem Paged.advance (h : Paged m t) {m'' : Mapping}
    (hmapped : PageWritten m t page entry m' t') (hkeeps : Keeps m'' t')
    (hpresent : ∀ d, (m'.directory d).isPresent = false → (m''.directory d).isPresent = false)
    (htaken : ∀ q, Taken m'' q ↔ Taken m q ∨ q = page)
    (hbetween : ∀ q, m''.lowPage ≤ q → q ≤ m''.highPage →
      m.lowPage ≤ q ∧ q ≤ m.highPage ∧ q ≠ page)
    (hlow : m''.nextLowTableIndex < 1024) (hhigh : m''.nextHighTableIndex < 1024)
    (hapart : m''.lowPage ≤ m''.highPage + 1) (hlast : m''.highPage < 2 ^ 20 - 1) :
    Paged m'' t' where
  toKeeps := hkeeps
  lowTable := hlow
  highTable := hhigh
  apart := hapart
  last := hlast
  begun d := by
    rw [hmapped.begun, h.begun]
    constructor
    · rintro ⟨hbefore, hd⟩ q hq
      rcases (htaken q).1 hq with hq | rfl
      · exact hbefore q hq
      · exact Ne.symm hd
    · intro hafter
      exact ⟨fun q hq => hafter q ((htaken q).2 (Or.inl hq)),
        Ne.symm (hafter page ((htaken page).2 (Or.inr rfl)))⟩
  present d hd := by
    obtain ⟨hbefore, hne⟩ := (hmapped.begun d).1 hd
    exact hpresent d (by rw [hmapped.present d hne, h.present d hbefore])
  free q hq hq' entry' hentry := by
    obtain ⟨hlow, hhigh, hne⟩ := hbetween q hq hq'
    rcases hmapped.free q hne entry' hentry with hfree | hentry
    · exact hfree
    · exact h.free q hlow hhigh entry' hentry

/-- **A cursor moved**: the pages it and the other hand out next, and
nothing of what is looked up. -/
structure Moved (m : Mapping) (low high : ℕ) (m' : Mapping) : Prop where
  lowPage : m'.lowPage = low
  lowTable : m'.nextLowTableIndex < 1024
  highPage : m'.highPage = high
  highTable : m'.nextHighTableIndex < 1024
  pool : m'.pool = m.pool
  next : m'.nextTableIndex = m.nextTableIndex
  keeps : ∀ t, Keeps m t → Keeps m' t
  present : ∀ d, (m.directory d).isPresent = false → (m'.directory d).isPresent = false

/-- **A page was handed out**: its entry is written, those of the pages
that were taken are kept, and a table is taken from the pool if the page
is the first of its own. -/
structure HandedOut (m : Mapping) (t : TwoLevel TableEntry) (page : ℕ) (entry : TableEntry)
    (isFirstTable : Bool) (m' : Mapping) (t' : TwoLevel TableEntry) : Prop where
  paged : Paged m' t'
  self : t'.lookup 1024 page = some entry
  kept : ∀ q, Taken m q → t'.lookup 1024 q = t.lookup 1024 q
  pool : m'.pool = m.pool
  next : m'.nextTableIndex = m.nextTableIndex + if isFirstTable then 1 else 0

/-- What is taken is begun. -/
theorem Paged.slot_of_taken (h : Paged m t) (htaken : Taken m page) :
    t.slot (page / 1024) ≠ none := fun hnone => (h.begun _).1 hnone page htaken rfl

/-- **Handing out a page**: mapping it, and moving one cursor past it. -/
theorem Paged.handOut (h : Paged m t) (isFirstTable checked : Bool)
    (hslot : t.slot (page / 1024) = none ↔ isFirstTable = true)
    (htables : isFirstTable = true → m.nextTableIndex < m.pool.tablesCount)
    (hlow : m.lowPage ≤ page) (hhigh : page ≤ m.highPage) (physical : ℕ) (options : MapOptions) :
    ∃ m₁ t', m.mapPage (page / 1024) (page % 1024) isFirstTable checked physical options =
        some (page * 4096 + physical % 4096, m₁) ∧
      (m₁.nextLowDirectoryIndex = m.nextLowDirectoryIndex ∧
        m₁.nextLowTableIndex = m.nextLowTableIndex ∧
        m₁.nextHighDirectoryIndex = m.nextHighDirectoryIndex ∧
        m₁.nextHighTableIndex = m.nextHighTableIndex) ∧
      ∀ m' low high, Moved m₁ low high m' →
        m.lowPage = page ∧ low = page + 1 ∧ high = m.highPage ∨
          m.highPage = page ∧ page = high + 1 ∧ low = m.lowPage →
        HandedOut m t page (pageEntry physical options) isFirstTable m' t' := by
  have hapart := h.apart
  have hlast := h.last
  obtain ⟨m₁, t', hcall, hmapped⟩ := h.mapPage isFirstTable checked (by omega)
    (fun hfalse hnone => by simp [hslot.1 hnone] at hfalse)
    (fun htrue => ⟨hslot.2 htrue, h.present _ (hslot.2 htrue), htables htrue⟩)
    (h.free _ hlow hhigh) physical options
  refine ⟨m₁, t', hcall, ⟨hmapped.lowDirectory, hmapped.lowTable, hmapped.highDirectory,
    hmapped.highTable⟩, fun m' low high hmoved hends => ⟨?_, hmapped.self, fun q hq => ?_,
    hmoved.pool.trans hmapped.pool, ?_⟩⟩
  · have hlow' := hmoved.lowPage
    have hhigh' := hmoved.highPage
    refine h.advance hmapped.written (hmoved.keeps _ hmapped.keeps) hmoved.present (fun q => ?_)
      (fun q hq hq' => ?_) hmoved.lowTable hmoved.highTable ?_ ?_
    · unfold Taken
      omega
    · omega
    · omega
    · omega
  · have hne : q ≠ page := by
      unfold Taken at hq
      omega
    exact hmapped.others q hne (h.slot_of_taken hq)
  · rw [hmoved.next, hmapped.next]
    simp only [hslot]

/-! ## The low cursor -/

theorem prepEntry_isPresent {d a : ℕ} (h : (m.directory a).isPresent = false) :
    ((m.prepEntry d).directory a).isPresent = false := by
  by_cases ha : a = d
  · subst ha
    simp [prepEntry]
  · simpa [prepEntry, ha] using h

theorem moved_advanceLow (hlow : m.nextLowTableIndex < 1024) (hpage : m.lowPage < 2 ^ 20)
    (hhigh : m.nextHighTableIndex < 1024) :
    Moved m (m.lowPage + 1) m.highPage m.advanceLow := by
  unfold Mapping.lowPage at hpage
  unfold advanceLow
  split
  · rename_i hlast
    have hmod : (m.nextLowDirectoryIndex + 1) % 2 ^ 16 = m.nextLowDirectoryIndex + 1 :=
      Nat.mod_eq_of_lt (by omega)
    refine ⟨?_, Nat.zero_lt_succ _, rfl, hhigh, rfl, rfl,
      fun t h => h.congr rfl rfl rfl (prepEntry_getTable m _), fun d h => prepEntry_isPresent h⟩
    simp only [hmod, Mapping.lowPage, prepEntry]
    omega
  · rename_i hnext
    refine ⟨?_, ?_, rfl, hhigh, rfl, rfl, fun t h => h.congr rfl rfl rfl fun _ => rfl,
      fun d h => h⟩
    · simp only [Mapping.lowPage]
      omega
    · simp only
      omega

/-- **The step lemma of the low cursor.** -/
theorem Paged.mapPhysicalLow (h : Paged m t) (hroom : m.lowPage ≤ m.highPage)
    (htables : m.lowPage % 1024 = 0 → m.nextTableIndex < m.pool.tablesCount)
    (hkept : m.lowPage % 1024 = 0 → ¬ m.BegunHigh (m.lowPage / 1024)) (physical : ℕ)
    (options : MapOptions) :
    ∃ m' t', m.mapPhysicalLow physical options =
        some (m.lowPage * 4096 + physical % 4096, m') ∧
      HandedOut m t m.lowPage (pageEntry physical options) (decide (m.lowPage % 1024 = 0)) m' t' ∧
      m'.lowPage = m.lowPage + 1 ∧ m'.highPage = m.highPage := by
  have hlow := h.lowTable
  have hlast := h.last
  obtain ⟨hdirectory, htable⟩ := h.lowIndices
  -- the table is begun where the cursor is not at its first page
  have hslot : t.slot (m.lowPage / 1024) = none ↔ m.lowPage % 1024 = 0 := by
    constructor
    · intro hnone
      by_contra hne
      exact (h.begun _).1 hnone (m.lowPage - 1) (Or.inl (by omega)) (by omega)
    · intro hzero
      have hnot := hkept hzero
      unfold BegunHigh at hnot
      rw [h.begun]
      rintro q (hq | ⟨hq, hq'⟩) heq <;> omega
  obtain ⟨m₁, t', hcall, ⟨hld, hlt, hhd, hht⟩, hout⟩ := h.handOut (decide (m.lowPage % 1024 = 0))
    true (by rw [hslot, decide_eq_true_iff]) (fun hfirst => htables (of_decide_eq_true hfirst))
    le_rfl hroom physical options
  have hsame : m₁.lowPage = m.lowPage := by rw [lowPage, hld, hlt, lowPage]
  have hsame' : m₁.highPage = m.highPage := by rw [highPage, hhd, hht, highPage]
  have hmoved := moved_advanceLow (m := m₁) (hlt ▸ hlow) (by omega) (hht ▸ h.highTable)
  rw [hsame, hsame'] at hmoved
  refine ⟨m₁.advanceLow, t', ?_, hout _ _ _ hmoved (Or.inl ⟨rfl, rfl, rfl⟩), hmoved.lowPage,
    hmoved.highPage⟩
  rw [Mapping.mapPhysicalLow, isFirstLowTable, hdirectory, htable, hcall]
  rfl

/-! ## The high cursor -/

theorem moved_advanceHigh (hlow : m.nextLowTableIndex < 1024) (hpage : m.highPage < 2 ^ 20)
    (hnext : m.highPage ≠ 0) (hhigh : m.nextHighTableIndex < 1024) :
    Moved m m.lowPage (m.highPage - 1) m.advanceHigh := by
  unfold Mapping.highPage at hpage hnext
  unfold advanceHigh
  split
  · rename_i hlast
    have hmod : (m.nextHighDirectoryIndex + 2 ^ 16 - 1) % 2 ^ 16 = m.nextHighDirectoryIndex - 1 := by
      omega
    rw [hmod]
    refine ⟨rfl, hlow, ?_, ?_, rfl, rfl,
      fun t h => h.congr rfl rfl rfl (prepEntry_getTable m _), fun d h => prepEntry_isPresent h⟩
    · simp only [Mapping.highPage, prepEntry]
      omega
    · simp only [prepEntry]
      omega
  · rename_i hbefore
    refine ⟨rfl, hlow, ?_, ?_, rfl, rfl, fun t h => h.congr rfl rfl rfl fun _ => rfl,
      fun d h => h⟩
    · simp only [Mapping.highPage]
      omega
    · simp only
      omega

/-- **The step lemma of the high cursor.** -/
theorem Paged.mapPhysicalHigh (h : Paged m t) (hroom : m.lowPage ≤ m.highPage)
    (htables : FirstHigh m.highPage → m.nextTableIndex < m.pool.tablesCount)
    (hkept : FirstHigh m.highPage → ¬ m.BegunLow (m.highPage / 1024)) (hnext : m.highPage ≠ 0)
    (physical : ℕ) (options : MapOptions) :
    ∃ m' t', m.mapPhysicalHigh physical options =
        some (m.highPage * 4096 + physical % 4096, m') ∧
      HandedOut m t m.highPage (pageEntry physical options) (decide (FirstHigh m.highPage)) m' t' ∧
      m'.lowPage = m.lowPage ∧ m'.highPage = m.highPage - 1 := by
  have hhigh := h.highTable
  have hlast := h.last
  obtain ⟨hdirectory, htable⟩ := h.highIndices
  have hfirst := h.isFirstHighTable_eq
  -- the table is begun where the cursor is not at the first page it hands out of it
  have hslot : t.slot (m.highPage / 1024) = none ↔ FirstHigh m.highPage := by
    unfold BegunLow at hkept
    unfold FirstHigh at hkept ⊢
    constructor
    · intro hnone
      by_contra hne
      exact (h.begun _).1 hnone (m.highPage + 1) (Or.inr ⟨by omega, by omega⟩) (by omega)
    · intro hend
      have hnot := hkept hend
      rw [h.begun]
      rintro q (hq | ⟨hq, hq'⟩) heq <;> omega
  obtain ⟨m₁, t', hcall, ⟨hld, hlt, hhd, hht⟩, hout⟩ := h.handOut (decide (FirstHigh m.highPage))
    false (by rw [hslot, decide_eq_true_iff]) (fun hend => htables (of_decide_eq_true hend))
    hroom le_rfl physical options
  have hsame : m₁.lowPage = m.lowPage := by rw [lowPage, hld, hlt, lowPage]
  have hsame' : m₁.highPage = m.highPage := by rw [highPage, hhd, hht, highPage]
  have hmoved := moved_advanceHigh (m := m₁) (hlt ▸ h.lowTable) (by omega) (by omega)
    (hht ▸ hhigh)
  rw [hsame, hsame'] at hmoved
  refine ⟨m₁.advanceHigh, t', ?_, hout _ _ _ hmoved (Or.inr ⟨rfl, by omega, rfl⟩),
    hmoved.lowPage, hmoved.highPage⟩
  rw [Mapping.mapPhysicalHigh, hfirst, hdirectory, htable, hcall]
  rfl

end Mapping

end Mmu

end Uberos
