import Uberos.Mmu.Ranges
import Uberos.Mmu.Sequence
/-!
# How many tables are made

`mmu::init` sets aside tables for all of the heap and an eighth more, and
`create_table` asserts that one is left. The figure goes by the heap
alone and is rounded down to whole tables: those for the image below the
heap, for the directory entry that either cursor starts in, and for what
the rounding drops, have to come out of the eighth.
-/

namespace Uberos

namespace Mmu

open Library Mapping

/-! ## What `init` does -/

/-- The image as it is linked, and what the boot loader has found behind
it: the memory the kernel was loaded to, from the end of its stack on. -/
structure Layout where
  imageEnd : ℕ
  heapSize : ℕ
  aligned : imageEnd % 4096 = 0
  fits : imageEnd + 4 * 4096 + heapSize ≤ 2 ^ 32

namespace Layout

/-- `memory::heap`, where the stack of four pages ends. -/
def heap (layout : Layout) : ℕ := layout.imageEnd + 4 * 4096

/-- The pages that `init` takes for tables. -/
def tablesPages (layout : Layout) : ℕ :=
  ((layout.heapSize + 4095) / 4096 * 9 / 8 / 1024 * 4096 + 4095) / 4096

def tablesSize (layout : Layout) : ℕ := layout.tablesPages * 4096

def tablesCount (layout : Layout) : ℕ := layout.tablesSize / 4096

/-- The pages of the heap behind the tables. -/
def remainingPages (layout : Layout) : ℕ := (layout.heapSize - layout.tablesSize) / 4096

theorem tablesCount_eq (layout : Layout) :
    layout.tablesCount = (layout.heapSize + 4095) / 4096 * 9 / 8 / 1024 := by
  unfold tablesCount tablesSize tablesPages
  omega

/-- **The heap is never smaller than its tables**: the assertion of `init`
does not fail. -/
theorem tablesSize_le (layout : Layout) : layout.tablesSize ≤ layout.heapSize := by
  unfold tablesSize tablesPages
  omega

/-- The tables, in front of the heap. -/
def pool (layout : Layout) : TablePool where
  tablesPhysical := layout.heap
  tablesCount := layout.tablesCount
  aligned := by
    have haligned := layout.aligned
    unfold heap
    omega
  fits := by
    have hfits := layout.fits
    have hsize := layout.tablesSize_le
    unfold heap tablesCount
    omega

/-- What `init` maps: the memory up to the end of the stack where it is,
and the tables. The options it sets in between are those of pages that
are mapped, and take no table. -/
def init (layout : Layout) (tables : ℕ → ℕ → TableEntry) : Option Mapping := do
  -- the image and the stack, where they are
  let (_, m) ← (Mapping.new layout.pool tables).mapPhysicalLowRange 0 layout.heap
    { caching := .uncached }
  -- the tables, at the end of the address space
  let (_, m) ← m.mapPhysicalHighRange layout.heap (layout.tablesCount * 4096) {}
  some m

end Layout

variable {layout : Layout} {m m' : Mapping} {op : PageOp} {ops : List PageOp}
variable {low high physical size virtualAddress : ℕ} {options : MapOptions}

/-! ## Page by page -/

/-- The calls for so many pages, each moved on from the one before. -/
def pageCalls (cursor : Cursor) (options : MapOptions) (next : ℕ → ℕ) : ℕ → ℕ → List PageOp
  | 0, _ => []
  | pages + 1, physical =>
    ⟨cursor, physical, options⟩ :: pageCalls cursor options next pages (next physical)

/-- The calls of `_map_physical_low`. -/
def lowCalls (options : MapOptions) : ℕ → ℕ → List PageOp :=
  pageCalls .low options fun physical => (physical + 4096) % 2 ^ 32

/-- The calls of `_map_physical_high`. -/
def highCalls (options : MapOptions) : ℕ → ℕ → List PageOp :=
  pageCalls .high options fun physical => (physical + 2 ^ 32 - 4096) % 2 ^ 32

theorem lowCalls_zero (options : MapOptions) (physical : ℕ) :
    lowCalls options 0 physical = [] := rfl

theorem lowCalls_succ (options : MapOptions) (pages physical : ℕ) :
    lowCalls options (pages + 1) physical =
      ⟨.low, physical, options⟩ :: lowCalls options pages ((physical + 4096) % 2 ^ 32) := rfl

theorem highCalls_succ (options : MapOptions) (pages physical : ℕ) :
    highCalls options (pages + 1) physical =
      ⟨.high, physical, options⟩ :: highCalls options pages ((physical + 2 ^ 32 - 4096) % 2 ^ 32) :=
  rfl

/-- The mapping after a call that returns. -/
def pageCall (m : Mapping) (op : PageOp) : Option Mapping := (op.call m).map Prod.snd

theorem pageCall_low (m : Mapping) (physical : ℕ) (options : MapOptions) :
    pageCall m ⟨.low, physical, options⟩ = (m.mapPhysicalLow physical options).map Prod.snd := rfl

theorem pageCall_high (m : Mapping) (physical : ℕ) (options : MapOptions) :
    pageCall m ⟨.high, physical, options⟩ = (m.mapPhysicalHigh physical options).map Prod.snd := rfl

/-- A round of the loop is a call. -/
theorem mapPhysicalLowRest_bind (options : MapOptions) (m : Mapping) (physical : ℕ)
    (hmore : 4096 < size) :
    mapPhysicalLowRest options m physical size =
      (pageCall m ⟨.low, (physical + 4096) % 2 ^ 32, options⟩).bind fun m =>
        mapPhysicalLowRest options m ((physical + 4096) % 2 ^ 32) (size - 4096) := by
  rw [mapPhysicalLowRest, if_pos hmore, pageCall_low]
  dsimp only
  cases m.mapPhysicalLow ((physical + 4096) % 2 ^ 32) options with
  | none => rfl
  | some called => rfl

theorem mapPhysicalLowRest_eq (options : MapOptions) (m : Mapping) (physical size : ℕ) :
    mapPhysicalLowRest options m physical size =
      (lowCalls options ((size - 1) / 4096) ((physical + 4096) % 2 ^ 32)).foldlM pageCall m := by
  -- by induction on what is left of the range
  induction size using Nat.strong_induction_on generalizing m physical with
  | h size ih =>
    rcases Nat.lt_or_ge 4096 size with hmore | hlast
    · have hpages : (size - 1) / 4096 = (size - 4096 - 1) / 4096 + 1 := by omega
      rw [mapPhysicalLowRest_bind options m physical hmore, hpages, lowCalls_succ,
        List.foldlM_cons, Option.bind_eq_bind]
      exact Option.bind_congr fun m' _ => ih (size - 4096) (by omega) m' _
    · have hpages : (size - 1) / 4096 = 0 := by omega
      rw [mapPhysicalLowRest_of_le hlast, hpages, lowCalls_zero, List.foldlM_nil, Option.pure_def]

/-- **A range at the low cursor is its pages.** -/
theorem mapPhysicalLowRange_eq (m : Mapping) (physical size : ℕ) (options : MapOptions) :
    (m.mapPhysicalLowRange physical size options).map Prod.snd =
      (lowCalls options (pageCount size) physical).foldlM pageCall m := by
  have hpages : pageCount size = (size - 1) / 4096 + 1 := by
    unfold pageCount
    omega
  rw [hpages, lowCalls_succ, List.foldlM_cons, mapPhysicalLowRange]
  dsimp only [pageCall, PageOp.call]
  rcases m.mapPhysicalLow physical options with - | ⟨_, m'⟩
  · rfl
  · have hrest := mapPhysicalLowRest_eq options m' physical size
    simp only [Option.bind_eq_bind, Option.bind_some, Option.map_some]
    rw [hrest]
    rw [lowCalls]
    cases List.foldlM pageCall m' _ <;> rfl

theorem mapPhysicalHighPages_eq (options : MapOptions) (pages virtualAddress : ℕ) (m : Mapping)
    (physical : ℕ) :
    (mapPhysicalHighPages options pages virtualAddress m physical).map Prod.snd =
      (highCalls options pages physical).foldlM pageCall m := by
  induction pages generalizing virtualAddress m physical with
  | zero => rfl
  | succ pages ih =>
    rw [highCalls_succ, List.foldlM_cons, mapPhysicalHighPages]
    dsimp only [pageCall, PageOp.call]
    rcases m.mapPhysicalHigh physical options with - | ⟨virtualAddress', m'⟩
    · rfl
    · exact ih virtualAddress' m' _

/-- **A range at the high cursor is its pages**, the last one first. -/
theorem mapPhysicalHighRange_eq (m : Mapping) (physical : ℕ) (hsize : size ≤ 2 ^ 32 - 4096)
    (options : MapOptions) :
    (m.mapPhysicalHighRange physical size options).map Prod.snd =
      (highCalls options (pageCount size)
        ((physical + (pageCount size + 2 ^ 32 - 1) * 4096) % 2 ^ 32)).foldlM pageCall m := by
  have hpages : (((if size < 1 then 1 else size) + 4095) % 2 ^ 32) / 4096 = pageCount size := by
    unfold pageCount
    split <;> omega
  unfold mapPhysicalHighRange
  dsimp only
  rw [hpages]
  exact mapPhysicalHighPages_eq options _ 0 m _

namespace Layout

/-- The calls of `init` at the low cursor. -/
def bootLow (layout : Layout) : List PageOp :=
  lowCalls { caching := .uncached } (pageCount layout.heap) 0

/-- Those at the high cursor. -/
def bootHigh (layout : Layout) : List PageOp :=
  highCalls {} (pageCount (layout.tablesCount * 4096))
    ((layout.heap + (pageCount (layout.tablesCount * 4096) + 2 ^ 32 - 1) * 4096) % 2 ^ 32)

/-- The page calls of `init`. -/
def boot (layout : Layout) : List PageOp := layout.bootLow ++ layout.bootHigh

end Layout

/-- Two calls one after the other, of which only the mapping is kept. -/
theorem bind_snd (first : Option (ℕ × Mapping)) (second : Mapping → Option (ℕ × Mapping)) :
    (do
      let (_, m) ← first
      let (_, m) ← second m
      some m) = (first.map Prod.snd).bind fun m => (second m).map Prod.snd := by
  rcases first with - | ⟨_, m⟩
  · rfl
  · rcases hsecond : second m with - | ⟨_, m'⟩
    · simp only [Option.bind_eq_bind, Option.bind_some, Option.map_some, hsecond, Option.bind_none,
        Option.map_none]
    · simp only [Option.bind_eq_bind, Option.bind_some, Option.map_some, hsecond]

/-- **`init` makes these calls and no others.** -/
theorem Layout.init_eq (layout : Layout) (tables : ℕ → ℕ → TableEntry) :
    layout.init tables = layout.boot.foldlM pageCall (.new layout.pool tables) := by
  have hfits := layout.fits
  have hsize : layout.tablesCount * 4096 ≤ 2 ^ 32 - 4096 := by
    have hle := layout.tablesSize_le
    unfold Layout.tablesCount
    omega
  have hlow := mapPhysicalLowRange_eq (.new layout.pool tables) 0 layout.heap
    { caching := .uncached }
  have hhigh := fun m => mapPhysicalHighRange_eq m layout.heap hsize {}
  have hinit : layout.init tables =
      (((Mapping.new layout.pool tables).mapPhysicalLowRange 0 layout.heap
        { caching := .uncached }).map Prod.snd).bind fun m =>
          (m.mapPhysicalHighRange layout.heap (layout.tablesCount * 4096) {}).map Prod.snd := by
    rw [Layout.init]
    exact bind_snd _ fun m => m.mapPhysicalHighRange layout.heap (layout.tablesCount * 4096) {}
  rw [hinit, hlow, Layout.boot, Layout.bootLow, Layout.bootHigh, List.foldlM_append,
    Option.bind_eq_bind]
  exact Option.bind_congr fun m _ => hhigh m

/-! ## What it is for -/

/-- The tables of so many pages from the first on. -/
def lowTables (pages : ℕ) : ℕ := (pages + 1023) / 1024

/-- The tables of so many pages from the last that is handed out down: the
last directory entry has a page less. -/
def highTables (pages : ℕ) : ℕ := if pages = 0 then 0 else pages / 1024 + 1

/-- A page is mapped, or the call does not return. -/
def pageStep (m : Mapping) (op : PageOp) : Mapping := (pageCall m op).getD m

/-- **A table is left where one is begun.** -/
def TableLeft (m : Mapping) (op : PageOp) : Prop :=
  Begins m op.cursor → m.nextTableIndex < m.pool.tablesCount

namespace Layout

/-- What is mapped after `init`: the page `memory::init` reads and writes
physical memory through, which is made for the first page of all, and
those of the heap. -/
def pages (layout : Layout) : List ℕ :=
  0 :: (List.range layout.remainingPages).map fun i => layout.heap + layout.tablesSize + i * 4096

/-- **Each is mapped at most once**, at the high cursor. -/
structure Once (layout : Layout) (ops : List PageOp) : Prop where
  high : ∀ op ∈ ops, op.cursor = .high
  page : ∀ op ∈ ops, op.physical ∈ layout.pages
  nodup : (ops.map PageOp.physical).Nodup

/-- **The pool suffices**: for the tables of what `init` maps and of the
rest of the heap, and at every call of `init` and of what follows. -/
def Suffices (layout : Layout) : Prop :=
  lowTables (pageCount layout.heap) +
      highTables (pageCount (layout.tablesCount * 4096) + layout.remainingPages) ≤
    layout.tablesCount ∧
  ∀ tables ops, layout.Once ops →
    Along pageStep TableLeft (.new layout.pool tables) (layout.boot ++ ops)

/-- **An eighth of the heap is enough for the image.** On the left is a
table for each 4 MiB up to the end of the stack, one more, and one for
each whole 4 MiB of the heap and the page the last directory entry lacks;
on the right nine for every eight pages of the heap. -/
def Enough (layout : Layout) : Prop :=
  8192 * ((layout.heap + 2 ^ 22 - 1) / 2 ^ 22 + 1 + (layout.heapSize / 4096 + 1) / 1024) ≤
    9 * ((layout.heapSize + 4095) / 4096)

instance (layout : Layout) : Decidable layout.Enough := by
  unfold Enough
  infer_instance

/-! ## Figures -/

theorem pageCount_heap (layout : Layout) : pageCount layout.heap = layout.heap / 4096 := by
  have haligned := layout.aligned
  unfold pageCount heap
  omega

theorem pageCount_tables (layout : Layout) :
    pageCount (layout.tablesCount * 4096) = max 1 layout.tablesCount := by
  unfold pageCount
  omega

theorem remainingPages_eq (layout : Layout) :
    layout.remainingPages = layout.heapSize / 4096 - layout.tablesCount := by
  have hsize : layout.tablesSize = layout.tablesCount * 4096 := by
    unfold tablesCount tablesSize
    omega
  rw [remainingPages, hsize]
  omega

theorem tablesCount_le (layout : Layout) : layout.tablesCount ≤ layout.heapSize / 4096 := by
  have hsize := layout.tablesSize_le
  unfold tablesCount
  omega

/-- The pages at the high cursor are those of the heap and one more, if
there is a table at all. -/
theorem pageCount_high (layout : Layout) (hsome : 0 < layout.tablesCount) :
    pageCount (layout.tablesCount * 4096) + layout.remainingPages = layout.heapSize / 4096 := by
  have hle := layout.tablesCount_le
  rw [pageCount_tables, remainingPages_eq]
  omega

/-- Both ends are in the address space. -/
theorem room (layout : Layout) :
    4 ≤ layout.heap / 4096 ∧ layout.heap / 4096 + layout.heapSize / 4096 ≤ 2 ^ 20 := by
  have hfits := layout.fits
  have haligned := layout.aligned
  unfold heap
  omega

/-- **The condition counts tables.** -/
theorem enough_iff (layout : Layout) :
    layout.Enough ↔ lowTables (layout.heap / 4096) + highTables (layout.heapSize / 4096 + 1) ≤
      layout.tablesCount := by
  have haligned := layout.aligned
  have hlow : (layout.heap + 2 ^ 22 - 1) / 2 ^ 22 = (layout.heap / 4096 + 1023) / 1024 := by
    unfold heap
    omega
  rw [Enough, tablesCount_eq, lowTables, highTables, if_neg (Nat.succ_ne_zero _), hlow]
  omega

/-- **A heap with room for the image eight times over, and for eight more
tables' worth, is enough.** -/
theorem enough_of_le (layout : Layout)
    (h : 8192 * ((layout.heap + 2 ^ 22 - 1) / 2 ^ 22 + 1) + 8 ≤ layout.heapSize / 4096) :
    layout.Enough := by
  unfold Enough
  omega

theorem length_pages (layout : Layout) : layout.pages.length = layout.remainingPages + 1 := by
  rw [pages, List.length_cons, List.length_map, List.length_range]

theorem Once.length_le (h : layout.Once ops) : ops.length ≤ layout.remainingPages + 1 := by
  have hsub : ops.map PageOp.physical ⊆ layout.pages := by
    intro physical hphysical
    obtain ⟨op, hop, rfl⟩ := List.mem_map.1 hphysical
    exact h.page op hop
  have hlength := (h.nodup.subperm hsub).length_le
  rwa [List.length_map, length_pages] at hlength

end Layout

/-! ## The tables taken so far -/

/-- **So many pages were mapped at either end**, and their tables were
taken. -/
structure Stands (pool : TablePool) (low high : ℕ) (m : Mapping) : Prop where
  pool : m.pool = pool
  lowTable : m.nextLowTableIndex < 1024
  highTable : m.nextHighTableIndex < 1024
  lowPage : m.lowPage = low
  highPage : m.highPage + high = 2 ^ 20 - 2
  next : m.nextTableIndex = lowTables low + highTables high

variable {pool : TablePool}

theorem stands_new (pool : TablePool) (tables : ℕ → ℕ → TableEntry) :
    Stands pool 0 0 (.new pool tables) where
  pool := rfl
  lowTable := by
    simp only [Mapping.new]
    omega
  highTable := by
    simp only [Mapping.new]
    omega
  lowPage := lowPage_new pool tables
  highPage := by rw [highPage_new, Nat.add_zero]
  next := by simp only [Mapping.new, lowTables, highTables, if_true]

namespace Stands

/-- A table is begun at every 1024th page from the first on. -/
theorem begins_low (h : Stands pool low high m) : Begins m .low ↔ low % 1024 = 0 := by
  have hpage := h.lowPage
  have htable := h.lowTable
  simp only [Begins, isFirstLowTable, decide_eq_true_eq, Mapping.lowPage] at hpage ⊢
  omega

/-- At the high end the first table is a page short. -/
theorem begins_high (h : Stands pool low high m) :
    Begins m .high ↔ high = 0 ∨ (high + 1) % 1024 = 0 := by
  have hpage := h.highPage
  have htable := h.highTable
  simp only [Begins, isFirstHighTable, decide_eq_true_eq, Mapping.highPage] at hpage ⊢
  omega

end Stands

theorem lowTables_succ (low : ℕ) :
    lowTables (low + 1) = lowTables low + if low % 1024 = 0 then 1 else 0 := by
  unfold lowTables
  split <;> omega

theorem highTables_succ (high : ℕ) :
    highTables (high + 1) =
      highTables high + if high = 0 ∨ (high + 1) % 1024 = 0 then 1 else 0 := by
  unfold highTables
  split <;> split <;> split <;> omega

theorem lowTables_mono {low' : ℕ} (h : low ≤ low') : lowTables low ≤ lowTables low' := by
  unfold lowTables
  omega

theorem highTables_mono {high' : ℕ} (h : high ≤ high') : highTables high ≤ highTables high' := by
  unfold highTables
  split <;> split <;> omega

/-! ## A call -/

/-- **A page was written**, its table taken from the pool if it is begun,
and neither cursor has moved. -/
structure Wrote (m : Mapping) (isFirstTable : Bool) (m' : Mapping) : Prop where
  pool : m'.pool = m.pool
  lowDirectory : m'.nextLowDirectoryIndex = m.nextLowDirectoryIndex
  lowTable : m'.nextLowTableIndex = m.nextLowTableIndex
  highDirectory : m'.nextHighDirectoryIndex = m.nextHighDirectoryIndex
  highTable : m'.nextHighTableIndex = m.nextHighTableIndex
  next : m'.nextTableIndex = m.nextTableIndex + if isFirstTable then 1 else 0

theorem wrote_of_mapPage {d i : ℕ} {isFirstTable checked : Bool}
    (hcall : m.mapPage d i isFirstTable checked physical options = some (virtualAddress, m')) :
    Wrote m isFirstTable m' := by
  obtain ⟨m₁, table, hbegin, -, -, rfl⟩ := eq_of_mapPage hcall
  cases isFirstTable with
  | false =>
    obtain rfl : m = m₁ := Option.some.inj hbegin
    exact ⟨rfl, rfl, rfl, rfl, rfl, rfl⟩
  | true =>
    rw [if_pos rfl, beginTable] at hbegin
    split at hbegin
    · cases hbegin
    · split at hbegin
      · cases hbegin
      · obtain rfl := Option.some.inj hbegin
        exact ⟨rfl, rfl, rfl, rfl, rfl, rfl⟩

theorem Wrote.lowPage_eq {isFirstTable : Bool} (h : Wrote m isFirstTable m') :
    m'.lowPage = m.lowPage := by
  rw [Mapping.lowPage, h.lowDirectory, h.lowTable, Mapping.lowPage]

theorem Wrote.highPage_eq {isFirstTable : Bool} (h : Wrote m isFirstTable m') :
    m'.highPage = m.highPage := by
  rw [Mapping.highPage, h.highDirectory, h.highTable, Mapping.highPage]

namespace Stands

/-- A page is at the low end, and the tables are those of one more. -/
theorem low_of_call (h : Stands pool low high m) (hlow : low < 2 ^ 20)
    (hcall : m.mapPhysicalLow physical options = some (virtualAddress, m')) :
    Stands pool (low + 1) high m' := by
  have hpage := h.lowPage
  have hhigh := h.highPage
  have hbegins := h.begins_low
  obtain ⟨⟨address, m₁⟩, hmap, hcall⟩ := Option.bind_eq_some_iff.1 hcall
  obtain ⟨-, rfl⟩ := Prod.mk.inj (Option.some.inj hcall)
  have hwrote := wrote_of_mapPage hmap
  have hsame := hwrote.lowPage_eq
  have hsame' := hwrote.highPage_eq
  have hmoved := moved_advanceLow (m := m₁) (hwrote.lowTable ▸ h.lowTable) (by omega)
    (hwrote.highTable ▸ h.highTable)
  refine ⟨hmoved.pool.trans (hwrote.pool.trans h.pool), hmoved.lowTable, hmoved.highTable, ?_, ?_,
    ?_⟩
  · rw [hmoved.lowPage, hsame, hpage]
  · rw [hmoved.highPage, hsame', hhigh]
  · have hcount : (if m.isFirstLowTable = true then 1 else 0) = if low % 1024 = 0 then 1 else 0 :=
      if_congr hbegins rfl rfl
    rw [hmoved.next, hwrote.next, h.next, lowTables_succ, hcount]
    omega

/-- The same at the high end. -/
theorem high_of_call (h : Stands pool low high m) (hhigh : high < 2 ^ 20 - 2)
    (hcall : m.mapPhysicalHigh physical options = some (virtualAddress, m')) :
    Stands pool low (high + 1) m' := by
  have hpage := h.lowPage
  have hhighPage := h.highPage
  have hbegins := h.begins_high
  obtain ⟨⟨address, m₁⟩, hmap, hcall⟩ := Option.bind_eq_some_iff.1 hcall
  obtain ⟨-, rfl⟩ := Prod.mk.inj (Option.some.inj hcall)
  have hwrote := wrote_of_mapPage hmap
  have hsame := hwrote.lowPage_eq
  have hsame' := hwrote.highPage_eq
  have hmoved := moved_advanceHigh (m := m₁) (hwrote.lowTable ▸ h.lowTable) (by omega) (by omega)
    (hwrote.highTable ▸ h.highTable)
  refine ⟨hmoved.pool.trans (hwrote.pool.trans h.pool), hmoved.lowTable, hmoved.highTable, ?_, ?_,
    ?_⟩
  · rw [hmoved.lowPage, hsame, hpage]
  · rw [hmoved.highPage, hsame']
    omega
  · have hcount : (if m.isFirstHighTable = true then 1 else 0) =
        if high = 0 ∨ (high + 1) % 1024 = 0 then 1 else 0 := if_congr hbegins rfl rfl
    rw [hmoved.next, hwrote.next, h.next, highTables_succ, hcount]
    omega

end Stands

/-! ## Enough tables -/

/-- The calls at a cursor. -/
def callsAt (cursor : Cursor) (ops : List PageOp) : ℕ := ops.countP fun op => op.cursor = cursor

theorem callsAt_append (cursor : Cursor) (ops ops' : List PageOp) :
    callsAt cursor (ops ++ ops') = callsAt cursor ops + callsAt cursor ops' := List.countP_append

theorem callsAt_self {cursor : Cursor} (h : ∀ op ∈ ops, op.cursor = cursor) :
    callsAt cursor ops = ops.length :=
  List.countP_eq_length.2 fun op hop => decide_eq_true (h op hop)

theorem callsAt_other {cursor cursor' : Cursor} (h : ∀ op ∈ ops, op.cursor = cursor)
    (hne : cursor ≠ cursor') : callsAt cursor' ops = 0 :=
  List.countP_eq_zero.2 fun op hop hcon => hne ((h op hop).symm.trans (of_decide_eq_true hcon))

theorem length_pageCalls (cursor : Cursor) (options : MapOptions) (next : ℕ → ℕ)
    (pages physical : ℕ) : (pageCalls cursor options next pages physical).length = pages := by
  induction pages generalizing physical with
  | zero => rfl
  | succ pages ih => rw [pageCalls, List.length_cons, ih]

theorem cursor_of_mem_pageCalls {cursor : Cursor} {next : ℕ → ℕ} {pages : ℕ}
    (hop : op ∈ pageCalls cursor options next pages physical) : op.cursor = cursor := by
  induction pages generalizing physical with
  | zero => cases hop
  | succ pages ih =>
    rcases List.mem_cons.1 hop with rfl | hop
    · rfl
    · exact ih hop

namespace Layout

theorem bootLow_cursor (layout : Layout) : ∀ op ∈ layout.bootLow, op.cursor = .low :=
  fun _ => cursor_of_mem_pageCalls

theorem bootHigh_cursor (layout : Layout) : ∀ op ∈ layout.bootHigh, op.cursor = .high :=
  fun _ => cursor_of_mem_pageCalls

theorem length_bootLow (layout : Layout) : layout.bootLow.length = layout.heap / 4096 :=
  (length_pageCalls ..).trans layout.pageCount_heap

theorem length_bootHigh (layout : Layout) :
    layout.bootHigh.length = pageCount (layout.tablesCount * 4096) := length_pageCalls ..

end Layout

namespace Stands

/-- **A call that there are tables for** finds one left. -/
theorem tableLeft (h : Stands pool low high m) {lows highs : ℕ}
    (hlow : low + callsAt .low [op] ≤ lows) (hhigh : high + callsAt .high [op] ≤ highs)
    (htables : lowTables lows + highTables highs ≤ pool.tablesCount) : TableLeft m op := by
  intro hbegins
  have hlows := lowTables_mono hlow
  have hhighs := highTables_mono hhigh
  rw [h.next, h.pool]
  obtain ⟨cursor, physical, options⟩ := op
  cases cursor with
  | low =>
    have hcount : callsAt .low [⟨.low, physical, options⟩] = 1 := rfl
    have hcount' : callsAt .high [⟨.low, physical, options⟩] = 0 := rfl
    rw [hcount, lowTables_succ, if_pos (h.begins_low.1 hbegins)] at hlows
    rw [hcount', Nat.add_zero] at hhighs
    omega
  | high =>
    have hcount : callsAt .low [⟨.high, physical, options⟩] = 0 := rfl
    have hcount' : callsAt .high [⟨.high, physical, options⟩] = 1 := rfl
    rw [hcount, Nat.add_zero] at hlows
    rw [hcount', highTables_succ, if_pos (h.begins_high.1 hbegins)] at hhighs
    omega

/-- **The step lemma.** A call maps a page or leaves everything. -/
theorem step (h : Stands pool low high m) (op : PageOp) (hlow : low + callsAt .low [op] ≤ 2 ^ 20)
    (hhigh : high + callsAt .high [op] ≤ 2 ^ 20 - 2) :
    pageStep m op = m ∨ Stands pool (low + callsAt .low [op]) (high + callsAt .high [op])
      (pageStep m op) := by
  unfold pageStep
  rcases hcall : op.call m with - | ⟨virtualAddress, m'⟩
  · left
    rw [pageCall, hcall]
    rfl
  · right
    rw [pageCall, hcall]
    obtain ⟨cursor, physical, options⟩ := op
    cases cursor with
    | low => exact h.low_of_call hlow hcall
    | high => exact h.high_of_call hhigh hcall

/-- **The run lemma.** Where there are tables for all the calls, every call
finds one left. -/
theorem along (h : Stands pool low high m) {lows highs : ℕ}
    (hlow : low + callsAt .low ops ≤ lows) (hhigh : high + callsAt .high ops ≤ highs)
    (hlows : lows ≤ 2 ^ 20) (hhighs : highs ≤ 2 ^ 20 - 2)
    (htables : lowTables lows + highTables highs ≤ pool.tablesCount) :
    Along pageStep TableLeft m ops := by
  -- by induction on the calls; one that stops leaves both counts
  induction ops generalizing low high m with
  | nil => trivial
  | cons op ops ih =>
    have happend : op :: ops = [op] ++ ops := rfl
    rw [happend, callsAt_append] at hlow hhigh
    refine ⟨h.tableLeft (by omega) (by omega) htables, ?_⟩
    rcases h.step op (by omega) (by omega) with hsame | hnext
    · rw [hsame]
      exact ih h (by omega) (by omega)
    · exact ih hnext (by omega) (by omega)

end Stands

/-- **`init` and what follows** find a table wherever they begin one. -/
theorem Layout.Enough.along (henough : layout.Enough) (tables : ℕ → ℕ → TableEntry)
    (honce : layout.Once ops) :
    Along pageStep TableLeft (.new layout.pool tables) (layout.boot ++ ops) := by
  have htables := layout.enough_iff.1 henough
  obtain ⟨hheap, hroom⟩ := layout.room
  have hsome : 0 < layout.tablesCount := by
    unfold lowTables at htables
    omega
  have hcount := layout.pageCount_high hsome
  have hlength := honce.length_le
  have hapart : Cursor.high ≠ Cursor.low := by decide
  have hlows : callsAt .low (layout.boot ++ ops) = layout.heap / 4096 := by
    rw [Layout.boot, callsAt_append, callsAt_append, callsAt_self layout.bootLow_cursor,
      callsAt_other layout.bootHigh_cursor hapart, callsAt_other honce.high hapart,
      layout.length_bootLow, Nat.add_zero]
  have hhighs : callsAt .high (layout.boot ++ ops) =
      pageCount (layout.tablesCount * 4096) + ops.length := by
    rw [Layout.boot, callsAt_append, callsAt_append, callsAt_self layout.bootHigh_cursor,
      callsAt_self honce.high, callsAt_other layout.bootLow_cursor hapart.symm,
      layout.length_bootHigh, Nat.zero_add]
  have hbound : 0 + callsAt .high (layout.boot ++ ops) ≤ layout.heapSize / 4096 + 1 := by omega
  exact (stands_new layout.pool tables).along (by rw [hlows, Nat.zero_add]) hbound (by omega)
    (by omega) htables

/-! ## A table too few -/

/-- **A page can be mapped at the cursor**: its entry is free, and the
directory's where a table is begun. -/
structure Ready (cursor : Cursor) (pool : TablePool) (low high : ℕ) (m : Mapping) : Prop
    extends Stands pool low high m where
  paged : ∃ t, Paged m t
  unbegun : Begins m cursor → (entryAt m cursor).isPresent = false

/-- The entry a cursor comes to is made not present. -/
theorem unbegun_of_low
    (hcall : m.mapPhysicalLow physical options = some (virtualAddress, m')) :
    Begins m' .low → (entryAt m' .low).isPresent = false := by
  obtain ⟨⟨address, m₁⟩, hmap, hcall⟩ := Option.bind_eq_some_iff.1 hcall
  obtain ⟨-, rfl⟩ := Prod.mk.inj (Option.some.inj hcall)
  intro hbegins
  simp only [Begins, isFirstLowTable, decide_eq_true_eq] at hbegins
  unfold entryAt
  dsimp only
  unfold advanceLow at hbegins ⊢
  split
  · simp only [prepEntry, Function.update_self]
  · rename_i hnext
    rw [if_neg hnext] at hbegins
    exact absurd hbegins (Nat.succ_ne_zero _)

/-- The same at the high cursor, which the last page of all is not of. -/
theorem unbegun_of_high (htable : m.nextHighTableIndex < 1024) (hlast : m.highPage < 2 ^ 20 - 1)
    (hcall : m.mapPhysicalHigh physical options = some (virtualAddress, m')) :
    Begins m' .high → (entryAt m' .high).isPresent = false := by
  obtain ⟨⟨address, m₁⟩, hmap, hcall⟩ := Option.bind_eq_some_iff.1 hcall
  obtain ⟨-, rfl⟩ := Prod.mk.inj (Option.some.inj hcall)
  have hwrote := wrote_of_mapPage hmap
  have hdirectory := hwrote.highDirectory
  have hindex := hwrote.highTable
  intro hbegins
  simp only [Begins, isFirstHighTable, decide_eq_true_eq] at hbegins
  unfold entryAt
  dsimp only
  unfold highPage at hlast
  unfold advanceHigh at hbegins ⊢
  split
  · simp only [prepEntry, Function.update_self]
  · rename_i hnext
    rw [if_neg hnext] at hbegins
    dsimp only at hbegins
    omega

/-- A call at the high cursor that finds its table returns, whether the
page is free or not. -/
theorem Mapping.Paged.mapPhysicalHigh_returns {t : TwoLevel TableEntry} (h : Paged m t)
    (htables : Begins m .high → m.nextTableIndex < m.pool.tablesCount)
    (hunbegun : Begins m .high → (entryAt m .high).isPresent = false) (physical : ℕ)
    (options : MapOptions) :
    ∃ called, m.mapPhysicalHigh physical options = some called := by
  have hlast := h.last
  obtain ⟨hdirectory, htable⟩ := h.highIndices
  rw [Mapping.mapPhysicalHigh, hdirectory, htable]
  unfold Begins entryAt at hunbegun
  unfold Begins at htables
  dsimp only at htables hunbegun
  rw [hdirectory] at hunbegun
  by_cases hfirst : m.isFirstHighTable = true
  · rw [hfirst, h.mapPage_begin_eq false (by omega) (hunbegun hfirst) (htables hfirst)]
    exact ⟨_, rfl⟩
  · -- the page after is taken, and is of the same table
    have hnot : m.isFirstHighTable = false := Bool.eq_false_iff.2 hfirst
    simp only [isFirstHighTable, hdirectory, htable, decide_eq_false_iff_not] at hnot
    have htaken : Taken m (m.highPage + 1) := Or.inr ⟨by omega, by omega⟩
    have hsame : (m.highPage + 1) / 1024 = m.highPage / 1024 := by omega
    obtain ⟨s, hslot⟩ := Option.ne_none_iff_exists'.1 (hsame ▸ h.slot_of_taken htaken)
    have htoVirtual := h.toVirtual hslot
    rw [Bool.eq_false_iff.2 hfirst]
    simp only [Mapping.mapPage, Option.bind_eq_bind, Bool.false_eq_true, if_false,
      Option.bind_some, htoVirtual, Bool.false_and]
    exact ⟨_, rfl⟩

namespace Ready

theorem new (pool : TablePool) (tables : ℕ → ℕ → TableEntry) :
    Ready .low pool 0 0 (.new pool tables) where
  toStands := stands_new pool tables
  paged := ⟨_, paged_new pool tables⟩
  unbegun _ := rfl

/-- **The next low page.** -/
theorem nextLow (h : Ready .low pool low high m) (hcursor : op.cursor = .low)
    (hleft : TableLeft m op) (hroom : low + high < 2 ^ 20 - 1) :
    Ready .low pool (low + 1) high (pageStep m op) := by
  obtain ⟨t, ht⟩ := h.paged
  have hlow := h.lowPage
  have hhigh := h.highPage
  obtain ⟨cursor, physical, options⟩ := op
  obtain rfl : cursor = .low := hcursor
  obtain ⟨m', t', hcall, ht', -, -⟩ := ht.nextLow (by omega) hleft h.unbegun physical options
  have hstep : pageStep m ⟨.low, physical, options⟩ = m' := by
    rw [pageStep, pageCall_low, hcall, Option.map_some, Option.getD_some]
  rw [hstep]
  exact ⟨h.toStands.low_of_call (by omega) hcall, ⟨t', ht'⟩, unbegun_of_low hcall⟩

/-- **The next high page**, the cursors having met or not. -/
theorem nextHigh (h : Ready .high pool low high m) (hcursor : op.cursor = .high)
    (hleft : TableLeft m op) (hhighs : high < 2 ^ 20 - 2) :
    Stands pool low (high + 1) (pageStep m op) ∧
      (low + high < 2 ^ 20 - 1 → Ready .high pool low (high + 1) (pageStep m op)) := by
  obtain ⟨t, ht⟩ := h.paged
  have hlow := h.lowPage
  have hhigh := h.highPage
  obtain ⟨cursor, physical, options⟩ := op
  obtain rfl : cursor = .high := hcursor
  obtain ⟨⟨virtualAddress, m'⟩, hcall⟩ :=
    ht.mapPhysicalHigh_returns hleft h.unbegun physical options
  have hstep : pageStep m ⟨.high, physical, options⟩ = m' := by
    rw [pageStep, pageCall_high, hcall, Option.map_some, Option.getD_some]
  have hstands := h.toStands.high_of_call hhighs hcall
  rw [hstep]
  refine ⟨hstands, fun hroom => ⟨hstands, ?_, ?_⟩⟩
  · obtain ⟨m'', t', hcall', ht', -, -⟩ :=
      ht.nextHigh (by omega) (by omega) hleft h.unbegun physical options
    rw [hcall] at hcall'
    obtain ⟨-, rfl⟩ := Prod.mk.inj (Option.some.inj hcall')
    exact ⟨t', ht'⟩
  · exact unbegun_of_high h.highTable (by omega) hcall

/-- **Pages at the low cursor.** -/
theorem lows (h : Ready .low pool low high m) (hcursor : ∀ op ∈ ops, op.cursor = .low)
    (hleft : Along pageStep TableLeft m ops) (hroom : low + ops.length + high ≤ 2 ^ 20 - 1) :
    Ready .low pool (low + ops.length) high (run pageStep m ops) := by
  induction ops generalizing low m with
  | nil => exact h
  | cons op ops ih =>
    rw [List.length_cons] at hroom ⊢
    have hnext := h.nextLow (hcursor op List.mem_cons_self) hleft.1 (by omega)
    have hrest := ih hnext (fun op hop => hcursor op (List.mem_cons_of_mem _ hop)) hleft.2
      (by omega)
    rwa [Nat.add_assoc, Nat.add_comm 1] at hrest

/-- The first table at the high end is of a directory entry that the low
cursor has not come to. -/
theorem turn (h : Ready .low pool low 0 m) (hlow : low ≤ 1023 * 1024) :
    Ready .high pool low 0 m where
  toStands := h.toStands
  paged := h.paged
  unbegun _ := by
    obtain ⟨t, ht⟩ := h.paged
    have hpage := h.lowPage
    have hhigh := h.highPage
    have hdirectory := ht.highIndices.1
    have habsent := ht.present (m.highPage / 1024) ((ht.begun _).2 fun page htaken => by
      unfold Taken at htaken
      omega)
    unfold entryAt
    dsimp only
    rw [hdirectory]
    exact habsent

end Ready

/-- Where a table is left, there is one for the next page as well. -/
theorem Stands.highTables_le (h : Stands pool low high m) (hcursor : op.cursor = .high)
    (hleft : TableLeft m op) (hbefore : lowTables low + highTables high ≤ pool.tablesCount) :
    lowTables low + highTables (high + 1) ≤ pool.tablesCount := by
  rw [highTables_succ]
  split
  · rename_i hfirst
    have hroom := hleft (hcursor ▸ h.begins_high.2 hfirst)
    rw [h.next, h.pool] at hroom
    omega
  · exact hbefore

/-- **Calls that find a table left are not more than there are tables
for.** The last may be at a page that the low cursor has mapped, and what
it leaves is not looked at. -/
theorem Stands.count_of_along (h : Stands pool low high m) {pages : ℕ}
    (hready : high < pages → Ready .high pool low high m) (hpages : low + pages ≤ 2 ^ 20)
    (hlow : 4 ≤ low) (hbefore : lowTables low + highTables high ≤ pool.tablesCount)
    (hcursor : ∀ op ∈ ops, op.cursor = .high) (hlength : high + ops.length ≤ pages + 1)
    (hleft : Along pageStep TableLeft m ops) :
    lowTables low + highTables (high + ops.length) ≤ pool.tablesCount := by
  induction ops generalizing high m with
  | nil => exact hbefore
  | cons op ops ih =>
    rw [List.length_cons] at hlength ⊢
    have hfirst := hcursor op List.mem_cons_self
    have hnext := h.highTables_le hfirst hleft.1 hbefore
    rw [Nat.add_comm ops.length, ← Nat.add_assoc]
    -- after the last call nothing is asked of the mapping
    rcases Nat.eq_zero_or_pos ops.length with hlast | hmore
    · rwa [hlast]
    · obtain ⟨hstands, hready'⟩ := (hready (by omega)).nextHigh hfirst hleft.1 (by omega)
      exact ih hstands (fun hmore' => hready' (by omega)) hnext
        (fun op hop => hcursor op (List.mem_cons_of_mem _ hop)) (by omega) hleft.2

namespace Layout

/-- All that is mapped after `init`. -/
def rest (layout : Layout) : List PageOp := layout.pages.map fun physical => ⟨.high, physical, {}⟩

theorem once_rest (layout : Layout) : layout.Once layout.rest where
  high op hop := by
    obtain ⟨physical, -, rfl⟩ := List.mem_map.1 hop
    rfl
  page op hop := by
    obtain ⟨physical, hphysical, rfl⟩ := List.mem_map.1 hop
    exact hphysical
  nodup := by
    have hself : layout.rest.map PageOp.physical = layout.pages := by
      rw [rest, List.map_map]
      exact List.map_id _
    rw [hself, pages, List.nodup_cons]
    refine ⟨fun hmem => ?_, List.Nodup.map (fun i j heq => ?_) List.nodup_range⟩
    · -- the heap is behind the stack
      obtain ⟨i, -, heq⟩ := List.mem_map.1 hmem
      unfold heap at heq
      omega
    · omega

theorem length_rest (layout : Layout) : layout.rest.length = layout.remainingPages + 1 := by
  rw [rest, List.length_map, length_pages]

/-- **Tables left at every call** are tables for all of them. -/
theorem enough_of_along (layout : Layout) (tables : ℕ → ℕ → TableEntry)
    (hleft : Along pageStep TableLeft (.new layout.pool tables) (layout.boot ++ layout.rest)) :
    layout.Enough := by
  obtain ⟨hheap, hroom⟩ := layout.room
  have hlength := layout.length_bootLow
  rw [boot, List.append_assoc, along_append] at hleft
  obtain ⟨hlow, hhigh⟩ := hleft
  have hsome : 0 < layout.tablesCount := by
    -- the first call of all begins a table
    rcases hcalls : layout.bootLow with - | ⟨op, ops⟩
    · rw [hcalls, List.length_nil] at hlength
      omega
    · have hfirst := layout.bootLow_cursor op (hcalls ▸ List.mem_cons_self)
      rw [hcalls] at hlow
      exact hlow.1 (hfirst ▸ (stands_new layout.pool tables).begins_low.2 rfl)
  have hle := layout.tablesCount_le
  have hready := (Ready.new layout.pool tables).lows layout.bootLow_cursor hlow (by omega)
  rw [hlength, Nat.zero_add] at hready
  obtain ⟨t, ht⟩ := hready.paged
  have hcount := ht.count
  rw [hready.next, hready.pool] at hcount
  -- the low cursor has taken fewer tables than there are entries
  have hturn := hready.turn (by
    have hcount : lowTables (layout.heap / 4096) + highTables 0 ≤ layout.tablesCount := hcount
    unfold lowTables at hcount
    omega)
  have hcalls : (layout.bootHigh ++ layout.rest).length = layout.heapSize / 4096 + 1 := by
    rw [List.length_append, length_bootHigh, length_rest, ← Nat.add_assoc,
      layout.pageCount_high hsome]
  have hcursor : ∀ op ∈ layout.bootHigh ++ layout.rest, op.cursor = .high := fun op hop =>
    (List.mem_append.1 hop).elim (layout.bootHigh_cursor op) (layout.once_rest.high op)
  have hneeded := hturn.toStands.count_of_along (fun _ => hturn) hroom hheap hcount hcursor
    (by rw [hcalls, Nat.zero_add]) hhigh
  rw [hcalls, Nat.zero_add] at hneeded
  exact layout.enough_iff.2 hneeded

theorem Suffices.enough (h : layout.Suffices) : layout.Enough :=
  layout.enough_of_along (fun _ _ => default) (h.2 _ _ layout.once_rest)

/-- What is counted without the page of `memory::init` is no more. -/
theorem Enough.count (h : layout.Enough) :
    lowTables (pageCount layout.heap) +
        highTables (pageCount (layout.tablesCount * 4096) + layout.remainingPages) ≤
      layout.tablesCount := by
  have htables := layout.enough_iff.1 h
  have hmono : highTables (layout.heapSize / 4096) ≤ highTables (layout.heapSize / 4096 + 1) :=
    highTables_mono (Nat.le_succ _)
  have hsome : 0 < layout.tablesCount := by
    rw [highTables_succ] at htables
    unfold lowTables at htables
    have hroom := layout.room
    omega
  rw [pageCount_heap, layout.pageCount_high hsome]
  omega

/-- **The pool suffices exactly when an eighth of the heap is enough for
the image.** -/
theorem suffices_iff_enough (layout : Layout) : layout.Suffices ↔ layout.Enough :=
  ⟨fun h => h.enough, fun h => ⟨h.count, fun tables _ honce => h.along tables honce⟩⟩

/-- A megabyte of kernel, in 32 megabytes of memory. -/
def small : Layout := ⟨0x300000, 0x2000000 - 0x304000, by decide, by decide⟩

/-- **Eight tables are made where nine are taken**: one for the image, and
eight for the heap from the end of the address space down. -/
theorem not_suffices_small : ¬ small.Suffices := by
  intro h
  have henough := h.enough
  revert henough
  decide

end Layout

end Mmu

end Uberos
