import Uberos.Library.Run
import Mathlib.Algebra.Group.Nat.Defs
import Mathlib.Logic.Function.Basic
import Mathlib.Tactic.Common
/-!
# Mapping physical memory

`mmu::Mapping` of `kernel/arch/x86/mmu.cpp`: a directory of 1024 entries,
each for a table of 1024 entries, each for a page of 4096 bytes, and two
cursors that hand out the pages from both ends of the address space. The
tables come from a pool that is shared with whatever else is mapped and
that hands them out in order. A table is its index in the pool here;
addresses are 32 bits wide and are what the directory holds. An assertion
that fails is `none`: nothing is returned. Entries for 4 MiB pages, which
nothing sets up, and the flushes of the processor's own tables are left
out.
-/

namespace Uberos

namespace Mmu

/-- `Caching`. -/
inductive Caching
  | uncached
  | writeBack
  | writeThrough
  | writeCombining
  deriving DecidableEq, Repr

/-- `MapOptions`. -/
structure MapOptions where
  isUserspace : Bool := false
  isWritable : Bool := true
  isExecutable : Bool := false
  caching : Caching := .writeBack
  deriving DecidableEq, Repr

/-- `Mapping::TableEntry`. -/
structure TableEntry where
  isPresent : Bool
  isWritable : Bool
  isUserspaceAccessible : Bool
  patWriteThroughCaching : Bool
  patDisableCache : Bool
  isAccessed : Bool
  isDirty : Bool
  pat : Bool
  isGlobal : Bool
  /-- Bits 31 to 12 of the page's address. -/
  address : ℕ
  deriving DecidableEq, Repr, Inhabited

/-- `TableEntry::get_address`. -/
def TableEntry.getAddress (entry : TableEntry) : ℕ := (entry.address <<< 12) % 2 ^ 32

/-- `Mapping::DirectoryEntry`. -/
structure DirectoryEntry where
  isPresent : Bool
  isWritable : Bool
  isUserspaceAccessible : Bool
  patWriteThroughCaching : Bool
  patDisableCache : Bool
  isAccessed : Bool
  isDirty : Bool
  /-- Bits 31 to 12 of the table's address. -/
  address : ℕ
  deriving DecidableEq, Repr, Inhabited

/-- `DirectoryEntry::get_table`. -/
def DirectoryEntry.getTable (entry : DirectoryEntry) : ℕ := (entry.address <<< 12) % 2 ^ 32

/-- Where the tables are and how many: whole pages of the heap. -/
structure TablePool where
  tablesPhysical : ℕ
  tablesCount : ℕ
  aligned : tablesPhysical % 4096 = 0
  fits : tablesPhysical + tablesCount * 4096 ≤ 2 ^ 32

/-- The fields of a `Mapping` and of the pool of tables. -/
structure Mapping where
  pool : TablePool
  tables : ℕ → ℕ → TableEntry
  nextTableIndex : ℕ
  directory : ℕ → DirectoryEntry
  nextLowDirectoryIndex : ℕ
  nextLowTableIndex : ℕ
  nextHighDirectoryIndex : ℕ
  nextHighTableIndex : ℕ

namespace Mapping

/-- A mapping as it is constructed, over tables as they are found. -/
def new (pool : TablePool) (tables : ℕ → ℕ → TableEntry) : Mapping where
  pool := pool
  tables := tables
  nextTableIndex := 0
  directory _ := default
  nextLowDirectoryIndex := 0
  nextLowTableIndex := 0
  nextHighDirectoryIndex := 1023
  nextHighTableIndex := 1022

/-! ## Tables -/

/-- `to_virtual`. -/
def toVirtual (m : Mapping) (table : ℕ) : Option ℕ :=
  if table < m.pool.tablesPhysical then none
  else
    let offset := table - m.pool.tablesPhysical
    if offset % 4096 ≠ 0 then none
    else
      let index := offset / 4096
      if index < m.pool.tablesCount then some index else none

/-- `to_physical`. -/
def toPhysical (m : Mapping) (table : ℕ) : ℕ := (m.pool.tablesPhysical + table * 4096) % 2 ^ 32

/-- A directory entry for the next table of the pool, whose entries are
made not present. -/
def startTable (m : Mapping) (directoryIndex : ℕ) : Mapping :=
  let nextTable := m.nextTableIndex
  { m with
    nextTableIndex := nextTable + 1
    tables := Function.update m.tables nextTable fun i =>
      { m.tables nextTable i with isPresent := false }
    directory := Function.update m.directory directoryIndex
      { isPresent := true
        isWritable := false
        isUserspaceAccessible := false
        patWriteThroughCaching := false
        patDisableCache := false
        isAccessed := false
        isDirty := false
        address := m.toPhysical nextTable >>> 12 } }

/-- Initialising the first table of a directory entry. -/
def beginTable (m : Mapping) (directoryIndex : ℕ) : Option Mapping :=
  if (m.directory directoryIndex).isPresent then none
  else if ¬ m.nextTableIndex < m.pool.tablesCount then none
  else some (startTable m directoryIndex)

/-- The entry of a mapped page. -/
def pageEntry (physical : ℕ) (options : MapOptions) : TableEntry where
  isPresent := true
  isWritable := options.isWritable
  isUserspaceAccessible := options.isUserspace
  patWriteThroughCaching := options.caching = .writeThrough ∨ options.caching = .writeCombining
  patDisableCache := options.caching = .uncached ∨ options.caching = .writeCombining
  isAccessed := false
  isDirty := true
  pat := false
  isGlobal := false
  address := (physical >>> 12) % 2 ^ 20

/-- Writing a page's entry, and to the directory's entry what it allows. -/
def setEntry (m : Mapping) (directoryIndex table tableIndex physical : ℕ) (options : MapOptions) :
    Mapping :=
  let directoryEntry := m.directory directoryIndex
  { m with
    tables := Function.update m.tables table <|
      Function.update (m.tables table) tableIndex (pageEntry physical options)
    directory := Function.update m.directory directoryIndex
      { directoryEntry with
        isWritable := directoryEntry.isWritable || options.isWritable
        isUserspaceAccessible := directoryEntry.isUserspaceAccessible || options.isUserspace } }

/-- What mapping a page does at either cursor. The entry has to be free
where it is `checked`. -/
def mapPage (m : Mapping) (directoryIndex tableIndex : ℕ) (isFirstTable checked : Bool)
    (physical : ℕ) (options : MapOptions) : Option (ℕ × Mapping) := do
  let physicalOffset := physical &&& 0xfff
  let physical := physical - physicalOffset
  let virtualAddress :=
    (directoryIndex <<< 22 ||| tableIndex <<< 12 ||| physicalOffset) % 2 ^ 32
  let m ← if isFirstTable then beginTable m directoryIndex else some m
  let table ← m.toVirtual (m.directory directoryIndex).getTable
  if checked && (m.tables table tableIndex).isPresent then none
  else some (virtualAddress, setEntry m directoryIndex table tableIndex physical options)

/-- Preparing the next directory entry. -/
def prepEntry (m : Mapping) (directoryIndex : ℕ) : Mapping :=
  { m with
    directory := Function.update m.directory directoryIndex
      { m.directory directoryIndex with
        isPresent := false
        isWritable := false
        isUserspaceAccessible := false
        patWriteThroughCaching := false
        patDisableCache := false
        isAccessed := false } }

/-! ## Single pages -/

def isFirstLowTable (m : Mapping) : Bool := m.nextLowTableIndex = 0

/-- The final table is skipped when the last directory is initialised. -/
def isFirstHighTable (m : Mapping) : Bool :=
  m.nextHighTableIndex = 1023 ∨ m.nextHighDirectoryIndex = 1023 ∧ m.nextHighTableIndex = 1022

/-- The low cursor's next page. -/
def advanceLow (m : Mapping) : Mapping :=
  if m.nextLowTableIndex = 1023 then
    let nextLowDirectoryIndex := (m.nextLowDirectoryIndex + 1) % 2 ^ 16
    prepEntry { m with
      nextLowTableIndex := 0
      nextLowDirectoryIndex := nextLowDirectoryIndex } nextLowDirectoryIndex
  else { m with nextLowTableIndex := m.nextLowTableIndex + 1 }

/-- The high cursor's next page. -/
def advanceHigh (m : Mapping) : Mapping :=
  if m.nextHighTableIndex = 0 then
    let nextHighDirectoryIndex := (m.nextHighDirectoryIndex + 2 ^ 16 - 1) % 2 ^ 16
    prepEntry { m with
      nextHighTableIndex := 1023
      nextHighDirectoryIndex := nextHighDirectoryIndex } nextHighDirectoryIndex
  else { m with nextHighTableIndex := m.nextHighTableIndex - 1 }

/-- `_map_physical_low` of a page. -/
def mapPhysicalLow (m : Mapping) (physical : ℕ) (options : MapOptions) : Option (ℕ × Mapping) := do
  let (virtualAddress, m) ← mapPage m m.nextLowDirectoryIndex m.nextLowTableIndex
    m.isFirstLowTable true physical options
  some (virtualAddress, advanceLow m)

/-- `_map_physical_high` of a page, which does not look whether its entry
is free. -/
def mapPhysicalHigh (m : Mapping) (physical : ℕ) (options : MapOptions) : Option (ℕ × Mapping) := do
  let (virtualAddress, m) ← mapPage m m.nextHighDirectoryIndex m.nextHighTableIndex
    m.isFirstHighTable false physical options
  some (virtualAddress, advanceHigh m)

/-! ## Ranges -/

/-- The loop of `_map_physical_low`, for the pages after the first. -/
def mapPhysicalLowRest (options : MapOptions) (m : Mapping) (physical size : ℕ) : Option Mapping :=
  if 4096 < size then do
    let physical := (physical + 4096) % 2 ^ 32
    let (_, m) ← mapPhysicalLow m physical options
    mapPhysicalLowRest options m physical (size - 4096)
  else some m
termination_by size
decreasing_by omega

/-- `_map_physical_low` of a range. -/
def mapPhysicalLowRange (m : Mapping) (physical size : ℕ) (options : MapOptions) :
    Option (ℕ × Mapping) := do
  let (virtualAddress, m) ← mapPhysicalLow m physical options
  let m ← mapPhysicalLowRest options m physical size
  some (virtualAddress, m)

/-- The loop of `_map_physical_high`, from the last page to the first. -/
def mapPhysicalHighPages (options : MapOptions) : ℕ → ℕ → Mapping → ℕ → Option (ℕ × Mapping)
  | 0, virtualAddress, m, _ => some (virtualAddress, m)
  | pages + 1, _, m, physical => do
    let (virtualAddress, m) ← mapPhysicalHigh m physical options
    mapPhysicalHighPages options pages virtualAddress m ((physical + 2 ^ 32 - 4096) % 2 ^ 32)

/-- `_map_physical_high` of a range. -/
def mapPhysicalHighRange (m : Mapping) (physical size : ℕ) (options : MapOptions) :
    Option (ℕ × Mapping) :=
  let size := if size < 1 then 1 else size
  let pages := (size + 4095) % 2 ^ 32 / 4096
  let physical := (physical + (pages + 2 ^ 32 - 1) * 4096) % 2 ^ 32
  mapPhysicalHighPages options pages 0 m physical

/-! ## Reading -/

/-- `_get_physical`. -/
def getPhysical (m : Mapping) (virtualAddress : ℕ) : Option ℕ := do
  let directoryIndex := virtualAddress >>> 22 &&& 0x3ff
  let tableIndex := virtualAddress >>> 12 &&& 0x3ff
  let physicalOffset := virtualAddress &&& 0xfff
  let table ← m.toVirtual (m.directory directoryIndex).getTable
  some (((m.tables table tableIndex).getAddress + physicalOffset) % 2 ^ 32)

end Mapping

/-! ## Runs -/

/-- A call, by the cursor it maps at. -/
inductive Op
  | mapPhysicalLow (physical : ℕ) (options : MapOptions)
  | mapPhysicalLowRange (physical size : ℕ) (options : MapOptions)
  | mapPhysicalHigh (physical : ℕ) (options : MapOptions)
  | mapPhysicalHighRange (physical size : ℕ) (options : MapOptions)
  deriving DecidableEq, Repr

/-- What a call does. -/
def call (m : Mapping) : Op → Option (ℕ × Mapping)
  | .mapPhysicalLow physical options => m.mapPhysicalLow physical options
  | .mapPhysicalLowRange physical size options => m.mapPhysicalLowRange physical size options
  | .mapPhysicalHigh physical options => m.mapPhysicalHigh physical options
  | .mapPhysicalHighRange physical size options => m.mapPhysicalHighRange physical size options

/-- The physical range a call maps: for a page, up to its end. -/
def Op.range : Op → ℕ × ℕ
  | .mapPhysicalLow physical _ | .mapPhysicalHigh physical _ => (physical, 4096 - physical % 4096)
  | .mapPhysicalLowRange physical size _ | .mapPhysicalHighRange physical size _ => (physical, size)

/-- A range that was mapped: what the call returned, and what it was of. -/
structure Mapped where
  virtualAddress : ℕ
  physical : ℕ
  size : ℕ
  deriving DecidableEq, Repr

/-- A mapping and the calls that returned. -/
structure Run where
  mapping : Mapping
  mapped : List Mapped

/-- A mapping before any call. -/
def Run.new (pool : TablePool) (tables : ℕ → ℕ → TableEntry) : Run := ⟨Mapping.new pool tables, []⟩

/-- One call. -/
def step (r : Run) (op : Op) : Run :=
  match call r.mapping op with
  | some (virtualAddress, m) => ⟨m, ⟨virtualAddress, op.range.1, op.range.2⟩ :: r.mapped⟩
  | none => r

end Mmu

end Uberos
