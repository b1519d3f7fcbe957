import Uberos.Library.TwoLevel
import Uberos.Mmu.Model
/-!
# The directory and its tables

The directory's entries and the pool's tables are a two-level table: an
entry that was begun holds the address of a table that was handed out,
and no table is handed out twice. Beginning a table installs it, mapping
a page writes an entry, and preparing an entry for later changes neither.
An address is translated by looking its page up.
-/

namespace Uberos

namespace Mmu

namespace Mapping

open Library

/-! ## Addresses -/

theorem and_offset (x : ℕ) : x &&& 0xfff = x % 4096 := Nat.and_two_pow_sub_one_eq_mod x 12

theorem and_index (x : ℕ) : x &&& 0x3ff = x % 1024 := Nat.and_two_pow_sub_one_eq_mod x 10

/-- The address of a byte of a page. -/
theorem address_eq (directoryIndex : ℕ) {tableIndex offset : ℕ} (hindex : tableIndex < 1024)
    (hoffset : offset < 4096) :
    directoryIndex <<< 22 ||| tableIndex <<< 12 ||| offset =
      (directoryIndex * 1024 + tableIndex) * 4096 + offset := by
  have hpage : directoryIndex <<< 22 ||| tableIndex <<< 12 =
      (directoryIndex * 1024 + tableIndex) <<< 12 := by
    rw [← Nat.shiftLeft_add_eq_or_of_lt (by rw [Nat.shiftLeft_eq]; omega)]
    simp only [Nat.shiftLeft_eq]
    omega
  rw [hpage, ← Nat.shiftLeft_add_eq_or_of_lt (by omega), Nat.shiftLeft_eq]

/-- An aligned address survives the 20 bits it is kept in. -/
theorem shift_aligned {x : ℕ} (haligned : x % 4096 = 0) (hx : x < 2 ^ 32) :
    ((x >>> 12) <<< 12) % 2 ^ 32 = x := by
  rw [Nat.shiftRight_eq_div_pow, Nat.shiftLeft_eq]
  omega

/-- The page an entry is of. -/
theorem pageEntry_getAddress (physical : ℕ) (options : MapOptions) :
    (pageEntry physical options).getAddress = physical / 4096 % 2 ^ 20 * 4096 := by
  simp only [TableEntry.getAddress, pageEntry, Nat.shiftRight_eq_div_pow, Nat.shiftLeft_eq]
  omega

/-! ## What the directory names -/

/-- **The mapping keeps these tables.** -/
structure Keeps (m : Mapping) (t : TwoLevel TableEntry) : Prop where
  tables : t.table = m.tables
  distinct : t.Distinct
  slot : ∀ d s, t.slot d = some s → s < m.nextTableIndex ∧
    (m.directory d).getTable = m.pool.tablesPhysical + s * 4096
  count : m.nextTableIndex ≤ m.pool.tablesCount

variable {m m' : Mapping} {t : TwoLevel TableEntry} {d s i physical virtualAddress : ℕ}
variable {options : MapOptions}

/-- It does not depend on the cursors. -/
theorem Keeps.congr (h : Keeps m t) {m' : Mapping} (hpool : m'.pool = m.pool)
    (htables : m'.tables = m.tables) (hnext : m'.nextTableIndex = m.nextTableIndex)
    (hdirectory : ∀ d, (m'.directory d).getTable = (m.directory d).getTable) : Keeps m' t where
  tables := by rw [htables, h.tables]
  distinct := h.distinct
  slot d s hslot := by
    rw [hpool, hnext, hdirectory]
    exact h.slot d s hslot
  count := by rw [hpool, hnext]; exact h.count

/-- The table a begun entry names is found. -/
theorem Keeps.toVirtual (h : Keeps m t) (hslot : t.slot d = some s) :
    m.toVirtual (m.directory d).getTable = some s := by
  obtain ⟨hs, htable⟩ := h.slot d s hslot
  have hcount := h.count
  unfold Mapping.toVirtual
  rw [htable, if_neg (by omega)]
  simp only [Nat.add_sub_cancel_left, Nat.mul_mod_left, ne_eq, not_true_eq_false, if_false,
    Nat.mul_div_cancel _ (show 0 < 4096 by decide)]
  rw [if_pos (by omega)]

/-- **An address is translated by its page's entry.** -/
theorem Keeps.getPhysical (h : Keeps m t) {virtualAddress : ℕ} {entry : TableEntry}
    (hvirtual : virtualAddress < 2 ^ 32) (hentry : t.lookup 1024 (virtualAddress / 4096) = some entry) :
    m.getPhysical virtualAddress =
      some ((entry.getAddress + virtualAddress % 4096) % 2 ^ 32) := by
  have hd : virtualAddress >>> 22 &&& 0x3ff = virtualAddress / 4096 / 1024 := by
    rw [and_index, Nat.shiftRight_eq_div_pow]
    omega
  have hi : virtualAddress >>> 12 &&& 0x3ff = virtualAddress / 4096 % 1024 := by
    rw [and_index, Nat.shiftRight_eq_div_pow]
  rcases hslot : t.slot (virtualAddress / 4096 / 1024) with - | s
  · rw [TwoLevel.lookup_eq_none_iff.2 hslot] at hentry
    contradiction
  · rw [TwoLevel.lookup_of_slot hslot, Option.some.injEq] at hentry
    simp only [Mapping.getPhysical, hd, hi, h.toVirtual hslot, Option.bind_eq_bind,
      Option.bind_some, and_offset, ← h.tables, hentry]

/-- Nothing names the next table of the pool. -/
theorem Keeps.next_fresh (h : Keeps m t) (d : ℕ) : t.slot d ≠ some m.nextTableIndex := fun hcon =>
  absurd (h.slot d _ hcon).1 (lt_irrefl _)

/-- The entries of a table that is begun. -/
def cleared (m : Mapping) (i : ℕ) : TableEntry :=
  { m.tables m.nextTableIndex i with isPresent := false }

/-- Beginning a table installs it. -/
theorem Keeps.startTable (h : Keeps m t) (hroom : m.nextTableIndex < m.pool.tablesCount) (d : ℕ) :
    Keeps (m.startTable d) (t.install d m.nextTableIndex m.cleared) where
  tables := by
    unfold TwoLevel.install Mapping.startTable
    rw [h.tables]
    rfl
  distinct := h.distinct.install h.next_fresh _
  slot a s hslot := by
    have haligned := m.pool.aligned
    have hfits := m.pool.fits
    by_cases ha : a = d
    · subst ha
      rw [TwoLevel.install_slot_self, Option.some.injEq] at hslot
      subst hslot
      refine ⟨Nat.lt_succ_self _, ?_⟩
      have hlt : m.pool.tablesPhysical + m.nextTableIndex * 4096 < 2 ^ 32 := by omega
      simp only [Mapping.startTable, Function.update_self, DirectoryEntry.getTable, toPhysical,
        Nat.mod_eq_of_lt hlt]
      exact shift_aligned (by omega) hlt
    · rw [TwoLevel.install_slot_of_ne _ ha] at hslot
      obtain ⟨hs, htable⟩ := h.slot a s hslot
      refine ⟨Nat.lt_succ_of_lt hs, ?_⟩
      simpa only [Mapping.startTable, Function.update_of_ne ha] using htable
  count := hroom

/-- Writing an entry moves no table. -/
theorem setEntry_getTable (m : Mapping) (d s i physical : ℕ) (options : MapOptions) (a : ℕ) :
    ((m.setEntry d s i physical options).directory a).getTable = (m.directory a).getTable := by
  by_cases ha : a = d
  · subst ha
    simp [Mapping.setEntry, DirectoryEntry.getTable]
  · simp [Mapping.setEntry, ha]

/-- Mapping a page writes its entry. -/
theorem Keeps.setEntry (h : Keeps m t) (d s i physical : ℕ) (options : MapOptions) :
    Keeps (m.setEntry d s i physical options) (t.write s i (pageEntry physical options)) where
  tables := by
    unfold TwoLevel.write Mapping.setEntry
    rw [h.tables]
  distinct := h.distinct.write i
  slot a s' hslot := by
    rw [setEntry_getTable]
    exact h.slot a s' hslot
  count := h.count

theorem prepEntry_getTable (m : Mapping) (d a : ℕ) :
    ((m.prepEntry d).directory a).getTable = (m.directory a).getTable := by
  by_cases ha : a = d
  · subst ha
    simp [prepEntry, DirectoryEntry.getTable]
  · simp [prepEntry, ha]

/-- Preparing an entry touches neither tables nor addresses. -/
theorem Keeps.prepEntry (h : Keeps m t) (d : ℕ) : Keeps (m.prepEntry d) t :=
  h.congr rfl rfl rfl (prepEntry_getTable m d)

/-! ## A page just mapped -/

/-- What a call that returned has written, and where. -/
theorem eq_of_mapPage {isFirstTable checked : Bool}
    (hcall : m.mapPage d i isFirstTable checked physical options = some (virtualAddress, m')) :
    ∃ (m₁ : Mapping) (table : ℕ), (if isFirstTable then m.beginTable d else some m) = some m₁ ∧
      m₁.toVirtual (m₁.directory d).getTable = some table ∧
      virtualAddress = (d <<< 22 ||| i <<< 12 ||| physical % 4096) % 2 ^ 32 ∧
      m' = m₁.setEntry d table i (physical - physical % 4096) options := by
  obtain ⟨m₁, hbegin, hcall⟩ : ∃ m₁ : Mapping,
      (if isFirstTable then m.beginTable d else some m) = some m₁ ∧
      ((m₁.toVirtual (m₁.directory d).getTable).bind fun table =>
        if checked && (m₁.tables table i).isPresent then none
        else some ((d <<< 22 ||| i <<< 12 ||| physical % 4096) % 2 ^ 32,
          m₁.setEntry d table i (physical - physical % 4096) options)) =
        some (virtualAddress, m') := by
    cases isFirstTable with
    | true =>
      simp only [Mapping.mapPage, if_true, and_offset, Option.bind_eq_bind] at hcall
      obtain ⟨m₁, hbegin, hcall⟩ := Option.bind_eq_some_iff.1 hcall
      exact ⟨m₁, hbegin, hcall⟩
    | false =>
      simp only [Mapping.mapPage, Bool.false_eq_true, if_false, and_offset, Option.bind_eq_bind,
        Option.bind_some] at hcall
      exact ⟨m, rfl, hcall⟩
  obtain ⟨table, htable, hcall⟩ := Option.bind_eq_some_iff.1 hcall
  split at hcall
  · cases hcall
  · rw [Option.some.injEq, Prod.mk.injEq] at hcall
    exact ⟨m₁, table, hbegin, htable, hcall.1.symm, hcall.2.symm⟩

/-- **The address of a page that was just mapped is translated back**, by
whatever keeps its tables. -/
theorem getPhysical_of_mapPage {isFirstTable checked : Bool} {m'' : Mapping}
    (hd : d < 1024) (hi : i < 1024) (hphysical : physical < 2 ^ 32)
    (hcall : m.mapPage d i isFirstTable checked physical options = some (virtualAddress, m'))
    (hpool : m''.pool = m'.pool) (htables : m''.tables = m'.tables)
    (hdirectory : ∀ a, (m''.directory a).getTable = (m'.directory a).getTable) :
    m''.getPhysical virtualAddress = some physical := by
  obtain ⟨m₁, table, -, htable, hvirtual, rfl⟩ := eq_of_mapPage hcall
  rw [address_eq _ hi (Nat.mod_lt _ (by omega)), Nat.mod_eq_of_lt (by omega)] at hvirtual
  have hget : m''.toVirtual (m''.directory d).getTable = some table := by
    rw [hdirectory, setEntry_getTable, toVirtual, hpool]
    exact htable
  have hd' : virtualAddress >>> 22 &&& 0x3ff = d := by
    rw [and_index, Nat.shiftRight_eq_div_pow]
    omega
  have hi' : virtualAddress >>> 12 &&& 0x3ff = i := by
    rw [and_index, Nat.shiftRight_eq_div_pow]
    omega
  have hentry : m''.tables table i = pageEntry (physical - physical % 4096) options := by
    rw [htables]
    simp [Mapping.setEntry]
  simp only [getPhysical, hd', hi', hget, Option.bind_eq_bind, Option.bind_some, and_offset, hentry,
    pageEntry_getAddress, Option.some.injEq]
  omega

/-- **A page mapped at the high cursor is translated back.** -/
theorem getPhysical_of_mapPhysicalHigh (hd : m.nextHighDirectoryIndex < 1024)
    (hi : m.nextHighTableIndex < 1024) (hphysical : physical < 2 ^ 32)
    (hcall : m.mapPhysicalHigh physical options = some (virtualAddress, m')) :
    m'.getPhysical virtualAddress = some physical := by
  simp only [mapPhysicalHigh, Option.bind_eq_bind, Option.bind_eq_some_iff] at hcall
  obtain ⟨⟨address, m₁⟩, hmap, hcall⟩ := hcall
  rw [Option.some.injEq, Prod.mk.injEq] at hcall
  obtain ⟨rfl, rfl⟩ := hcall
  refine getPhysical_of_mapPage hd hi hphysical hmap ?_ ?_ fun a => ?_ <;> unfold advanceHigh <;> split
  · rfl
  · rfl
  · rfl
  · rfl
  · exact prepEntry_getTable _ _ a
  · rfl
end Mapping

end Mmu

end Uberos
