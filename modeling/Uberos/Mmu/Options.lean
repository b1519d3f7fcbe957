import Uberos.Mmu.Sequence
/-!
# The options of a page

`_set_virtual_options` and `_get_virtual_options` of
`kernel/arch/x86/mmu.cpp`, and the access the hardware grants, which is
what both the directory's entry and the table's allow. A page's options
stand in the entry of its table; the directory's entry is shared with the
1023 pages next to it. A page is shown with its options where its entry
has them and the directory's entry covers them. Mapping a page widens what
its directory entry covers, beginning a table drops the pages of the one
before, and preparing an entry takes back all it covers.
-/

namespace Uberos

namespace Mmu

open Library

/-- What `_set_virtual_options` writes to an entry. -/
def TableEntry.setOptions (entry : TableEntry) (options : MapOptions) : TableEntry :=
  { entry with
    isUserspaceAccessible := options.isUserspace
    isWritable := options.isWritable
    patWriteThroughCaching := options.caching = .writeThrough ∨ options.caching = .writeCombining
    patDisableCache := options.caching = .uncached ∨ options.caching = .writeCombining }

/-- The options `_get_virtual_options` reads from one. -/
def TableEntry.getOptions (entry : TableEntry) : MapOptions where
  isUserspace := entry.isUserspaceAccessible
  isWritable := entry.isWritable
  isExecutable := true
  caching :=
    if entry.patWriteThroughCaching then
      if entry.patDisableCache then .writeCombining else .writeThrough
    else if entry.patDisableCache then .uncached
    else .writeBack

namespace Mapping

/-- `virtualAddress>>22 & 0x3ff`. -/
def directoryIndex (virtualAddress : ℕ) : ℕ := virtualAddress >>> 22 &&& 0x3ff

/-- `virtualAddress>>12 & 0x3ff`. -/
def pageIndex (virtualAddress : ℕ) : ℕ := virtualAddress >>> 12 &&& 0x3ff

/-- `_set_virtual_options` of a page. -/
def setVirtualOptions (m : Mapping) (virtualAddress : ℕ) (options : MapOptions) :
    Option Mapping := do
  let table ← m.toVirtual (m.directory (directoryIndex virtualAddress)).getTable
  let tableEntry := m.tables table (pageIndex virtualAddress)
  some { m with
    tables := Function.update m.tables table <|
      Function.update (m.tables table) (pageIndex virtualAddress) (tableEntry.setOptions options) }

/-- The loop of `_set_virtual_options` of a range, for so many turns. -/
def setVirtualOptionsLoop (stop : ℕ) (options : MapOptions) :
    ℕ → ℕ → Mapping → Option Mapping
  | 0, virtualAddress, m => if virtualAddress < stop then none else some m
  | turns + 1, virtualAddress, m =>
    if virtualAddress < stop then do
      let m ← m.setVirtualOptions virtualAddress options
      setVirtualOptionsLoop stop options turns ((virtualAddress + 4096) % 2 ^ 32) m
    else some m

/-- `_set_virtual_options` of a range. -/
def setVirtualOptionsRange (m : Mapping) (address size : ℕ) (options : MapOptions) (turns : ℕ) :
    Option Mapping :=
  setVirtualOptionsLoop ((address + size) % 2 ^ 32) options turns (address - address % 4096) m

/-- `_get_virtual_options`. -/
def getVirtualOptions (m : Mapping) (virtualAddress : ℕ) : Option (Except String MapOptions) :=
  let table := (m.directory (directoryIndex virtualAddress)).getTable
  if table = 0 then some (.error "Page does not exist")
  else do
    let table ← m.toVirtual table
    let tableEntry := m.tables table (pageIndex virtualAddress)
    if tableEntry.isPresent then some (.ok tableEntry.getOptions)
    else some (.error "Page does not exist")

/-- Whether the hardware grants writing, and access from userspace. -/
def grants (m : Mapping) (virtualAddress : ℕ) : Option (Bool × Bool) :=
  let directoryEntry := m.directory (directoryIndex virtualAddress)
  (m.toVirtual directoryEntry.getTable).map fun table =>
    let tableEntry := m.tables table (pageIndex virtualAddress)
    (directoryEntry.isWritable && tableEntry.isWritable,
      directoryEntry.isUserspaceAccessible && tableEntry.isUserspaceAccessible)

/-- **The options are in effect** at every address of the page: the
hardware grants them, and they are read back but for `isExecutable`. -/
def Effective (m : Mapping) (page : ℕ) (options : MapOptions) : Prop :=
  ∀ virtualAddress, virtualAddress / 4096 = page →
    m.grants virtualAddress = some (options.isWritable, options.isUserspace) ∧
      m.getVirtualOptions virtualAddress = some (.ok { options with isExecutable := true })

end Mapping

/-- The directory's entry allows what the options grant. -/
def Covers (directoryEntry : DirectoryEntry) (options : MapOptions) : Prop :=
  (options.isWritable = true → directoryEntry.isWritable = true) ∧
    (options.isUserspace = true → directoryEntry.isUserspaceAccessible = true)

/-- The directory entry a cursor comes to once it has mapped a page. -/
def comesTo (m : Mapping) : Cursor → Option ℕ
  | .low =>
    if m.nextLowTableIndex = 1023 then some ((m.nextLowDirectoryIndex + 1) % 2 ^ 16) else none
  | .high =>
    if m.nextHighTableIndex = 0 then some ((m.nextHighDirectoryIndex + 2 ^ 16 - 1) % 2 ^ 16)
    else none

/-! ## Entries -/

variable {m m' : Mapping} {t t' : TwoLevel TableEntry} {d s page q physical virtualAddress : ℕ}
variable {options : MapOptions} {entry : TableEntry}

/-- **What was set is what is read**, but for `isExecutable`. -/
theorem getOptions_setOptions (entry : TableEntry) (options : MapOptions) :
    (entry.setOptions options).getOptions = { options with isExecutable := true } := by
  obtain ⟨isUserspace, isWritable, isExecutable, caching⟩ := options
  cases caching <;> rfl

/-- As of a page that was just mapped. -/
theorem getOptions_pageEntry (physical : ℕ) (options : MapOptions) :
    (Mapping.pageEntry physical options).getOptions = { options with isExecutable := true } := by
  obtain ⟨isUserspace, isWritable, isExecutable, caching⟩ := options
  cases caching <;> rfl

/-! ## The tables an address is looked up in -/

namespace Mapping

/-- **The tables are those the directory names**, and an entry that was
never begun names none. The heap does not start at the null address. -/
structure Tabled (m : Mapping) (t : TwoLevel TableEntry) : Prop extends Keeps m t where
  heap : 0 < m.pool.tablesPhysical
  unnamed : ∀ d, t.slot d = none → (m.directory d).getTable = 0
  lowTable : m.nextLowTableIndex < 1024
  highTable : m.nextHighTableIndex < 1024

theorem Tabled.toVirtual_eq (h : Tabled m t) (d : ℕ) :
    m.toVirtual (m.directory d).getTable = t.slot d := by
  rcases hslot : t.slot d with - | s
  · rw [h.unnamed d hslot, Mapping.toVirtual, if_pos h.heap]
  · exact h.toKeeps.toVirtual hslot

theorem Tabled.getTable_eq_zero_iff (h : Tabled m t) (d : ℕ) :
    (m.directory d).getTable = 0 ↔ t.slot d = none := by
  refine ⟨fun hzero => ?_, h.unnamed d⟩
  rcases hslot : t.slot d with - | s
  · rfl
  · have htable := (h.slot d s hslot).2
    have hheap := h.heap
    omega

theorem directoryIndex_eq (hpage : page < 2 ^ 20) (hvirtual : virtualAddress / 4096 = page) :
    directoryIndex virtualAddress = page / 1024 := by
  rw [directoryIndex, and_index, Nat.shiftRight_eq_div_pow]
  omega

theorem pageIndex_eq (hvirtual : virtualAddress / 4096 = page) :
    pageIndex virtualAddress = page % 1024 := by
  rw [pageIndex, and_index, Nat.shiftRight_eq_div_pow, ← hvirtual]

/-- A page is present with these options. -/
def Recorded (t : TwoLevel TableEntry) (page : ℕ) (options : MapOptions) : Prop :=
  ∃ entry, t.lookup 1024 page = some entry ∧ entry.isPresent = true ∧
    entry.getOptions = { options with isExecutable := true }

/-- And its directory entry covers them. -/
def Shows (m : Mapping) (t : TwoLevel TableEntry) (page : ℕ) (options : MapOptions) : Prop :=
  Recorded t page options ∧ Covers (m.directory (page / 1024)) options

/-- What the hardware grants of a page is in its two entries. -/
theorem Tabled.grants_eq (h : Tabled m t) (hpage : page < 2 ^ 20)
    (hvirtual : virtualAddress / 4096 = page) :
    m.grants virtualAddress = (t.lookup 1024 page).map fun entry =>
      ((m.directory (page / 1024)).isWritable && entry.isWritable,
        (m.directory (page / 1024)).isUserspaceAccessible && entry.isUserspaceAccessible) := by
  rw [grants, directoryIndex_eq hpage hvirtual, pageIndex_eq hvirtual, h.toVirtual_eq]
  rcases hslot : t.slot (page / 1024) with - | s
  · rw [TwoLevel.lookup_eq_none_iff.2 hslot]
    rfl
  · rw [TwoLevel.lookup_of_slot hslot, h.tables]
    rfl

/-- And what is read of it in the one of its table. -/
theorem Tabled.getVirtualOptions_eq (h : Tabled m t) (hpage : page < 2 ^ 20)
    (hvirtual : virtualAddress / 4096 = page) (hentry : t.lookup 1024 page = some entry) :
    m.getVirtualOptions virtualAddress =
      if entry.isPresent then some (.ok entry.getOptions)
      else some (.error "Page does not exist") := by
  rcases hslot : t.slot (page / 1024) with - | s
  · rw [TwoLevel.lookup_eq_none_iff.2 hslot] at hentry
    cases hentry
  · have hnamed : (m.directory (page / 1024)).getTable ≠ 0 := by
      intro hzero
      rw [(h.getTable_eq_zero_iff _).1 hzero] at hslot
      cases hslot
    rw [TwoLevel.lookup_of_slot hslot, Option.some.injEq] at hentry
    rw [getVirtualOptions, directoryIndex_eq hpage hvirtual, pageIndex_eq hvirtual]
    dsimp only
    rw [if_neg hnamed, h.toVirtual_eq, hslot, ← hentry, h.tables]
    rfl

/-- **Options are in effect where they are shown.** -/
theorem Tabled.effective_iff (h : Tabled m t) (hpage : page < 2 ^ 20) :
    m.Effective page options ↔ Shows m t page options := by
  constructor
  · intro heffective
    have hvirtual : page * 4096 / 4096 = page := by omega
    obtain ⟨hgrants, hget⟩ := heffective (page * 4096) hvirtual
    rw [h.grants_eq hpage hvirtual] at hgrants
    obtain ⟨entry, hentry, hboth⟩ := Option.map_eq_some_iff.1 hgrants
    rw [h.getVirtualOptions_eq hpage hvirtual hentry] at hget
    rw [Prod.mk.injEq] at hboth
    split at hget
    · rename_i hpresent
      rw [Option.some.injEq, Except.ok.injEq] at hget
      refine ⟨⟨entry, hentry, hpresent, hget⟩, fun hwritable => ?_, fun huser => ?_⟩
      · rw [← hboth.1, Bool.and_eq_true] at hwritable
        exact hwritable.1
      · rw [← hboth.2, Bool.and_eq_true] at huser
        exact huser.1
    · cases hget
  · rintro ⟨⟨entry, hentry, hpresent, hoptions⟩, hwritable, huser⟩ virtualAddress hvirtual
    -- what is read of the entry is what it grants
    have hentryWritable : entry.isWritable = options.isWritable :=
      congrArg MapOptions.isWritable hoptions
    have hentryUser : entry.isUserspaceAccessible = options.isUserspace :=
      congrArg MapOptions.isUserspace hoptions
    refine ⟨?_, ?_⟩
    · rw [h.grants_eq hpage hvirtual, hentry, Option.map_some, hentryWritable, hentryUser,
        Option.some.injEq, Prod.mk.injEq, Bool.and_eq_right_iff_imp, Bool.and_eq_right_iff_imp]
      exact ⟨hwritable, huser⟩
    · rw [h.getVirtualOptions_eq hpage hvirtual hentry, if_pos hpresent, hoptions]

/-! ## Writing an entry -/

/-- The tables after an entry of one was written, however the directory
was changed, where it names the tables it did. -/
theorem Tabled.write (h : Tabled m t) {i : ℕ} (entry : TableEntry) (hpool : m'.pool = m.pool)
    (hnext : m'.nextTableIndex = m.nextTableIndex)
    (htables : m'.tables =
      Function.update m.tables s (Function.update (m.tables s) i entry))
    (hdirectory : ∀ a, (m'.directory a).getTable = (m.directory a).getTable)
    (hlow : m'.nextLowTableIndex < 1024) (hhigh : m'.nextHighTableIndex < 1024) :
    Tabled m' (t.write s i entry) where
  tables := by
    rw [htables, TwoLevel.write, h.tables]
  distinct := h.distinct.write i
  slot a s' hslot := by
    rw [hpool, hnext, hdirectory]
    exact h.slot a s' hslot
  count := by
    rw [hpool, hnext]
    exact h.count
  heap := by
    rw [hpool]
    exact h.heap
  unnamed a hslot := by
    rw [hdirectory]
    exact h.unnamed a hslot
  lowTable := hlow
  highTable := hhigh

/-- A page that was written is recorded with the options its entry has. -/
theorem recorded_write_self (hslot : t.slot (page / 1024) = some s)
    (hpresent : entry.isPresent = true)
    (hoptions : entry.getOptions = { options with isExecutable := true }) :
    Recorded (t.write s (page % 1024) entry) page options :=
  ⟨entry, TwoLevel.lookup_write_self hslot, hpresent, hoptions⟩

/-- The others are recorded as they were. -/
theorem recorded_write_iff (hdistinct : t.Distinct) (hslot : t.slot (page / 1024) = some s)
    (hq : q ≠ page) :
    Recorded (t.write s (page % 1024) entry) q options ↔ Recorded t q options := by
  rw [Recorded, hdistinct.lookup_write hslot hq, Recorded]

/-- **Beginning a table drops the pages of its directory entry** and keeps
the others. -/
theorem Tabled.recorded_install_iff (h : Tabled m t) :
    Recorded (t.install d m.nextTableIndex m.cleared) q options ↔
      q / 1024 ≠ d ∧ Recorded t q options := by
  by_cases hd : q / 1024 = d
  · refine iff_of_false ?_ fun hcon => hcon.1 hd
    rintro ⟨entry, hentry, hpresent, -⟩
    rw [TwoLevel.lookup_install_self _ hd, Option.some.injEq] at hentry
    rw [← hentry] at hpresent
    cases hpresent
  · rw [and_iff_right hd, Recorded, TwoLevel.lookup_install_of_ne h.toKeeps.next_fresh _ hd,
      Recorded]

/-! ## Mapping a page -/

theorem Tabled.startTable (h : Tabled m t) (hroom : m.nextTableIndex < m.pool.tablesCount) (d : ℕ) :
    Tabled (m.startTable d) (t.install d m.nextTableIndex m.cleared) where
  toKeeps := h.toKeeps.startTable hroom d
  heap := h.heap
  unnamed a hslot := by
    by_cases ha : a = d
    · rw [ha, TwoLevel.install_slot_self] at hslot
      cases hslot
    · rw [TwoLevel.install_slot_of_ne _ ha] at hslot
      simpa only [Mapping.startTable, Function.update_of_ne ha] using h.unnamed a hslot
  lowTable := h.lowTable
  highTable := h.highTable

/-- What writing a page's entry covers: what was covered, and the page's
options. -/
theorem covers_setEntry (m : Mapping) (d i physical a : ℕ) (options options' : MapOptions)
    (hcovers : Covers (m.directory a) options' ∨ a = d ∧ options' = options) :
    Covers ((m.setEntry d s i physical options).directory a) options' := by
  by_cases ha : a = d
  · subst ha
    simp only [Covers, Mapping.setEntry, Function.update_self, Bool.or_eq_true]
    rcases hcovers with ⟨hwritable, huser⟩ | ⟨-, rfl⟩
    · exact ⟨fun h => Or.inl (hwritable h), fun h => Or.inl (huser h)⟩
    · exact ⟨Or.inr, Or.inr⟩
  · rcases hcovers with hcovers | hcovers
    · simpa only [Mapping.setEntry, Function.update_of_ne ha] using hcovers
    · exact absurd hcovers.1 ha

/-- **A page is mapped where its directory entry has a table.** -/
theorem Tabled.setEntry (h : Tabled m t) (hslot : t.slot (page / 1024) = some s) (physical : ℕ)
    (options : MapOptions) :
    ∃ t', Tabled (m.setEntry (page / 1024) s (page % 1024) physical options) t' ∧
      Shows (m.setEntry (page / 1024) s (page % 1024) physical options) t' page options ∧
      ∀ q ≠ page, ∀ options', (Shows m t q options' →
          Shows (m.setEntry (page / 1024) s (page % 1024) physical options) t' q options') ∧
        (Recorded t' q options' → Recorded t q options') := by
  refine ⟨t.write s (page % 1024) (pageEntry physical options), ?_, ⟨?_, ?_⟩,
    fun q hq options' => ⟨fun hshows => ⟨?_, ?_⟩, fun hrecorded => ?_⟩⟩
  · exact h.write _ rfl rfl rfl (setEntry_getTable m _ _ _ _ _) h.lowTable h.highTable
  · exact recorded_write_self hslot rfl (getOptions_pageEntry physical options)
  · exact covers_setEntry m _ _ _ _ options options (Or.inr ⟨rfl, rfl⟩)
  · exact (recorded_write_iff h.distinct hslot hq).2 hshows.1
  · exact covers_setEntry m _ _ _ _ options options' (Or.inl hshows.2)
  · exact (recorded_write_iff h.distinct hslot hq).1 hrecorded

/-- **A page that is mapped** is shown with its options, and every other
page as it was, except that beginning a table drops those of its directory
entry. -/
theorem Tabled.mapPage (h : Tabled m t) (hpage : page < 2 ^ 20) {isFirstTable checked : Bool}
    (hcall : m.mapPage (page / 1024) (page % 1024) isFirstTable checked physical options =
      some (virtualAddress, m')) :
    virtualAddress / 4096 = page ∧ (∀ cursor, comesTo m' cursor = comesTo m cursor) ∧
      ∃ t', Tabled m' t' ∧ Shows m' t' page options ∧ ∀ q ≠ page, ∀ options', Shows m t q options' →
          (Shows m' t' q options' ↔ ¬ (isFirstTable = true ∧ q / 1024 = page / 1024)) := by
  obtain ⟨m₁, table, hbegin, htable, hvirtual, rfl⟩ := eq_of_mapPage hcall
  rw [address_eq _ (by omega) (by omega)] at hvirtual
  refine ⟨by omega, ?_⟩
  cases isFirstTable with
  | false =>
    -- the entry goes in the table the directory names already
    obtain rfl : m = m₁ := Option.some.inj hbegin
    refine ⟨fun cursor => by cases cursor <;> rfl, ?_⟩
    obtain ⟨t', htabled, hself, hothers⟩ := h.setEntry (h.toVirtual_eq _ ▸ htable)
      (physical - physical % 4096) options
    refine ⟨t', htabled, hself, fun q hq options' hshows => iff_of_true ?_ ?_⟩
    · exact (hothers q hq options').1 hshows
    · exact fun hcon => Bool.false_ne_true hcon.1
  | true =>
    rw [if_pos rfl, beginTable] at hbegin
    split at hbegin
    · cases hbegin
    · split at hbegin
      · cases hbegin
      · rename_i hroom
        -- a new table takes the place of that, with all its pages
        obtain rfl := Option.some.inj hbegin
        refine ⟨fun cursor => by cases cursor <;> rfl, ?_⟩
        have hstart := h.startTable (not_not.1 hroom) (page / 1024)
        obtain ⟨t', htabled, hself, hothers⟩ := hstart.setEntry (hstart.toVirtual_eq _ ▸ htable)
          (physical - physical % 4096) options
        refine ⟨t', htabled, hself, fun q hq options' hshows => ?_⟩
        rw [eq_self_iff_true, true_and]
        constructor
        · intro hshows'
          exact (h.recorded_install_iff.1 ((hothers q hq options').2 hshows'.1)).1
        · intro hne
          refine (hothers q hq options').1 ⟨h.recorded_install_iff.2 ⟨hne, hshows.1⟩, ?_⟩
          simpa only [Mapping.startTable, Function.update_of_ne hne] using hshows.2

/-! ## Moving on -/

/-- **Preparing an entry takes back what it covers**, so that its pages
keep no options but those that grant nothing. -/
theorem Tabled.prepEntry (h : Tabled m t) (d : ℕ) :
    Tabled (m.prepEntry d) t ∧ ∀ q options, Shows (m.prepEntry d) t q options ↔
      Shows m t q options ∧
        (q / 1024 = d → options.isWritable = false ∧ options.isUserspace = false) := by
  refine ⟨⟨h.toKeeps.prepEntry d, h.heap, fun a hslot => ?_, h.lowTable, h.highTable⟩,
    fun q options => ?_⟩
  · rw [prepEntry_getTable]
    exact h.unnamed a hslot
  · rw [Shows, Shows, and_assoc]
    refine and_congr_right fun _ => ?_
    by_cases hd : q / 1024 = d
    · subst hd
      simp only [Covers, Mapping.prepEntry, Function.update_self, Bool.false_eq_true, imp_false,
        Bool.not_eq_true, forall_const]
      exact ⟨fun h => ⟨⟨fun hcon => by simp [h.1] at hcon, fun hcon => by simp [h.2] at hcon⟩, h⟩,
        fun h => h.2⟩
    · simp [Covers, Mapping.prepEntry, hd]

/-- A cursor's next page. -/
def advance (m : Mapping) : Cursor → Mapping
  | .low => m.advanceLow
  | .high => m.advanceHigh

/-- The tables do not depend on the cursors. -/
theorem Tabled.congr (h : Tabled m t) (hpool : m'.pool = m.pool) (htables : m'.tables = m.tables)
    (hnext : m'.nextTableIndex = m.nextTableIndex) (hdirectory : m'.directory = m.directory)
    (hlow : m'.nextLowTableIndex < 1024) (hhigh : m'.nextHighTableIndex < 1024) : Tabled m' t where
  toKeeps := h.toKeeps.congr hpool htables hnext fun d => by rw [hdirectory]
  heap := by
    rw [hpool]
    exact h.heap
  unnamed d hslot := by
    rw [hdirectory]
    exact h.unnamed d hslot
  lowTable := hlow
  highTable := hhigh

/-- **A cursor moves on**: of the entry it comes to, if it comes to one,
all that is covered is taken back. -/
theorem Tabled.advance (h : Tabled m t) (cursor : Cursor) :
    Tabled (m.advance cursor) t ∧ ∀ q options, Shows (m.advance cursor) t q options ↔
      Shows m t q options ∧ (comesTo m cursor = some (q / 1024) →
        options.isWritable = false ∧ options.isUserspace = false) := by
  have hlow := h.lowTable
  have hhigh := h.highTable
  cases cursor with
  | low =>
    simp only [Mapping.advance, advanceLow, comesTo]
    split
    · have hmoved : Tabled { m with
          nextLowTableIndex := 0
          nextLowDirectoryIndex := (m.nextLowDirectoryIndex + 1) % 2 ^ 16 } t :=
        h.congr rfl rfl rfl rfl (by simp only; omega) hhigh
      obtain ⟨htabled, hshows⟩ := hmoved.prepEntry ((m.nextLowDirectoryIndex + 1) % 2 ^ 16)
      refine ⟨htabled, fun q options => (hshows q options).trans ?_⟩
      rw [Option.some.injEq, @eq_comm _ (q / 1024), Shows, Shows]
    · refine ⟨h.congr rfl rfl rfl rfl (by simp only; omega) hhigh, fun q options => ?_⟩
      exact (and_iff_left fun hcon => by cases hcon).symm
  | high =>
    simp only [Mapping.advance, advanceHigh, comesTo]
    split
    · have hmoved : Tabled { m with
          nextHighTableIndex := 1023
          nextHighDirectoryIndex := (m.nextHighDirectoryIndex + 2 ^ 16 - 1) % 2 ^ 16 } t :=
        h.congr rfl rfl rfl rfl hlow (by simp only; omega)
      obtain ⟨htabled, hshows⟩ :=
        hmoved.prepEntry ((m.nextHighDirectoryIndex + 2 ^ 16 - 1) % 2 ^ 16)
      refine ⟨htabled, fun q options => (hshows q options).trans ?_⟩
      rw [Option.some.injEq, @eq_comm _ (q / 1024), Shows, Shows]
    · refine ⟨h.congr rfl rfl rfl rfl hlow (by simp only; omega), fun q options => ?_⟩
      exact (and_iff_left fun hcon => by cases hcon).symm

/-! ## Setting options -/

/-- **Setting the options of a page** records them, where it is present,
and leaves every other page as it was shown. -/
theorem Tabled.setVirtualOptions (h : Tabled m t)
    (hcall : m.setVirtualOptions virtualAddress options = some m')
    (hvirtual : virtualAddress / 4096 % 2 ^ 20 = page) :
    ∃ t', Tabled m' t' ∧ m'.directory = m.directory ∧
      (∀ options', Recorded t page options' → Recorded t' page options) ∧
      ∀ q ≠ page, ∀ options', Shows m' t' q options' ↔ Shows m t q options' := by
  have hd : directoryIndex virtualAddress = page / 1024 := by
    rw [directoryIndex, and_index, Nat.shiftRight_eq_div_pow]
    omega
  have hi : pageIndex virtualAddress = page % 1024 := by
    rw [pageIndex, and_index, Nat.shiftRight_eq_div_pow]
    omega
  rw [Mapping.setVirtualOptions, hd, hi, h.toVirtual_eq] at hcall
  obtain ⟨s, hslot, hcall⟩ := Option.bind_eq_some_iff.1 hcall
  obtain rfl := Option.some.inj hcall
  refine ⟨t.write s (page % 1024) ((m.tables s (page % 1024)).setOptions options),
    h.write _ rfl rfl rfl (fun _ => rfl) h.lowTable h.highTable, rfl, ?_, fun q hq options' => ?_⟩
  · rintro options' ⟨entry, hentry, hpresent, -⟩
    rw [TwoLevel.lookup_of_slot hslot, h.tables, Option.some.injEq] at hentry
    refine recorded_write_self hslot ?_ (getOptions_setOptions _ options)
    rw [hentry]
    exact hpresent
  · rw [Shows, Shows, recorded_write_iff h.distinct hslot hq]

end Mapping

end Mmu

end Uberos

/-!
## Pointing a page elsewhere

`_set_virtual_target` of `kernel/arch/x86/mmu.cpp`: the entries of the
pages of a range are given another address each, and keep their options.
A page that has a table is then translated to where it was pointed, as
often as it is pointed elsewhere.
-/

namespace Uberos

namespace Mmu

/-- `TableEntry::set_address`. -/
def TableEntry.setAddress (entry : TableEntry) (physical : ℕ) : TableEntry :=
  { entry with address := (physical >>> 12) % 2 ^ 20 }

namespace Mapping

open Library

/-- The entry of a page is given another address. -/
def setAddress (m : Mapping) (table virtualAddress physical : ℕ) : Mapping :=
  { m with
    tables := Function.update m.tables table <|
      Function.update (m.tables table) (pageIndex virtualAddress)
        ((m.tables table (pageIndex virtualAddress)).setAddress physical) }

/-- What `_set_virtual_target` does to a page. `set_address` asserts that
the address is aligned. -/
def setVirtualTarget (m : Mapping) (virtualAddress physical : ℕ) : Option Mapping := do
  let table ← m.toVirtual (m.directory (directoryIndex virtualAddress)).getTable
  if physical &&& 0xfff = 0 then some (m.setAddress table virtualAddress physical) else none

/-- The loop of `_set_virtual_target`, for so many turns. -/
def setVirtualTargetLoop (stop : ℕ) : ℕ → ℕ → ℕ → Mapping → Option Mapping
  | 0, virtualAddress, _, m => if virtualAddress < stop then none else some m
  | turns + 1, virtualAddress, physical, m =>
    if virtualAddress < stop then do
      let m ← m.setVirtualTarget virtualAddress physical
      setVirtualTargetLoop stop turns ((virtualAddress + 4096) % 2 ^ 32)
        ((physical + 4096) % 2 ^ 32) m
    else some m

/-- `_set_virtual_target` of a range. -/
def setVirtualTargetRange (m : Mapping) (address physical size turns : ℕ) : Option Mapping :=
  setVirtualTargetLoop ((address + size) % 2 ^ 32) turns (address - address % 4096) physical m

/-! ## What is translated -/

variable {m m' : Mapping} {address virtualAddress physical turns : ℕ}

/-- The address of a page's entry after it was pointed elsewhere. -/
theorem setAddress_getAddress (entry : TableEntry) (physical : ℕ) :
    (entry.setAddress physical).getAddress = physical / 4096 % 2 ^ 20 * 4096 := by
  simp only [TableEntry.getAddress, TableEntry.setAddress, Nat.shiftRight_eq_div_pow,
    Nat.shiftLeft_eq]
  omega

/-- A page has a table. -/
def HasTable (m : Mapping) (virtualAddress : ℕ) : Prop :=
  (m.toVirtual (m.directory (directoryIndex virtualAddress)).getTable).isSome

/-- The addresses of a page share its table and its entry. -/
theorem index_of_page {offset : ℕ} (haligned : address % 4096 = 0) (hoffset : offset < 4096) :
    directoryIndex (address + offset) = directoryIndex address ∧
      pageIndex (address + offset) = pageIndex address := by
  simp only [directoryIndex, pageIndex, and_index, Nat.shiftRight_eq_div_pow]
  constructor <;> omega

/-- A page that was pointed elsewhere is translated there. -/
theorem getPhysical_setAddress {table offset : ℕ}
    (htable : m.toVirtual (m.directory (directoryIndex address)).getTable = some table)
    (haligned : address % 4096 = 0) (hphysical : physical % 4096 = 0) (hfits : physical < 2 ^ 32)
    (hoffset : offset < 4096) :
    (m.setAddress table address physical).getPhysical (address + offset) =
      some (physical + offset) := by
  obtain ⟨hdirectory, hpage⟩ := index_of_page haligned hoffset
  rw [directoryIndex] at hdirectory
  rw [pageIndex] at hpage
  have htable' : (m.setAddress table address physical).toVirtual
      ((m.setAddress table address physical).directory (directoryIndex address)).getTable =
        some table := htable
  have hentry : (m.setAddress table address physical).tables table (pageIndex address) =
      (m.tables table (pageIndex address)).setAddress physical := by
    simp only [setAddress, Function.update_self]
  simp only [getPhysical, hdirectory, hpage, htable', hentry, setAddress_getAddress, and_offset,
    Option.bind_eq_bind, Option.bind_some, Option.some.injEq]
  omega

/-- **A page that has a table is pointed where it is told**: every address
of it is translated there. -/
theorem HasTable.setVirtualTarget (h : HasTable m address) (haligned : address % 4096 = 0)
    (hphysical : physical % 4096 = 0) (hfits : physical < 2 ^ 32) :
    ∃ m', m.setVirtualTarget address physical = some m' ∧ HasTable m' address ∧
      ∀ offset < 4096, m'.getPhysical (address + offset) = some (physical + offset) := by
  obtain ⟨table, htable⟩ := Option.isSome_iff_exists.1 h
  have hzero : physical &&& 0xfff = 0 := by rw [and_offset, hphysical]
  refine ⟨m.setAddress table address physical, ?_, h, fun offset hoffset => ?_⟩
  · rw [Mapping.setVirtualTarget, htable, Option.bind_eq_bind, Option.bind_some, if_pos hzero]
  · exact getPhysical_setAddress htable haligned hphysical hfits hoffset

/-- **Pointing a single page elsewhere** takes one turn of the loop, below
the last page of the address space. -/
theorem setVirtualTargetRange_page (haligned : address % 4096 = 0)
    (hbelow : address + 4096 < 2 ^ 32) (turns : ℕ) :
    m.setVirtualTargetRange address physical 4096 (turns + 1) =
      m.setVirtualTarget address physical := by
  have hstop : (address + 4096) % 2 ^ 32 = address + 4096 := Nat.mod_eq_of_lt hbelow
  rw [setVirtualTargetRange, haligned, Nat.sub_zero, setVirtualTargetLoop, hstop,
    if_pos (by omega), Option.bind_eq_bind]
  -- the second turn finds the end
  have hends : ∀ m', setVirtualTargetLoop (address + 4096) turns (address + 4096)
      ((physical + 4096) % 2 ^ 32) m' = some m' := by
    intro m'
    cases turns <;> rw [setVirtualTargetLoop, if_neg (by omega)]
  rcases m.setVirtualTarget address physical with - | m'
  · rfl
  · exact hends m'

end Mapping

end Mmu

end Uberos
