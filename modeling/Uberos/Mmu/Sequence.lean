import Uberos.Mmu.Pages
import Mathlib.Data.List.Nodup
/-!
# The addresses come in order

`kernel/mmu.hpp` promises that low mappings return addresses one after
the other and high mappings in reverse, so that pages mapped in turn are
one range. Each cursor moves by a page a call, from one directory entry
to the next, whatever the other does. The one thing that stops a call is
a directory entry that is already present when its first table is begun:
an entry is made not present as a cursor comes to it, not as the cursor
begins it, and the first entry of either end is never made so. Where the
other cursor has begun the entry in between, the assertion fails.
-/

namespace Uberos

namespace Mmu

open Library Mapping

/-- The end a page is mapped at. -/
inductive Cursor
  | low
  | high
  deriving DecidableEq, Repr

/-- The mapping of a page. -/
structure PageOp where
  cursor : Cursor
  physical : ℕ
  options : MapOptions
  deriving DecidableEq, Repr

/-- What it does. -/
def PageOp.call (op : PageOp) (m : Mapping) : Option (ℕ × Mapping) :=
  match op.cursor with
  | .low => m.mapPhysicalLow op.physical op.options
  | .high => m.mapPhysicalHigh op.physical op.options

/-- A mapping and the addresses that were returned at either end, the
last one first. -/
structure Addresses where
  mapping : Mapping
  low : List ℕ
  high : List ℕ

namespace Addresses

/-- Before any page is mapped. -/
def new (pool : TablePool) (tables : ℕ → ℕ → TableEntry) : Addresses :=
  ⟨Mapping.new pool tables, [], []⟩

/-- A page is mapped, or the call does not return. -/
def step (s : Addresses) (op : PageOp) : Addresses :=
  match op.call s.mapping, op.cursor with
  | some (virtualAddress, m), .low => ⟨m, virtualAddress :: s.low, s.high⟩
  | some (virtualAddress, m), .high => ⟨m, s.low, virtualAddress :: s.high⟩
  | none, _ => s

end Addresses

variable {m : Mapping} {t : TwoLevel TableEntry} {s : Addresses} {op : PageOp}

/-! ## What it is for -/

/-- The call begins the first table of its directory entry. -/
def Begins (m : Mapping) : Cursor → Prop
  | .low => m.isFirstLowTable = true
  | .high => m.isFirstHighTable = true

instance Begins.decidable (m : Mapping) : ∀ cursor, Decidable (Begins m cursor)
  | .low => inferInstanceAs (Decidable (_ = true))
  | .high => inferInstanceAs (Decidable (_ = true))

/-- The directory entry the cursor stands in. -/
def entryAt (m : Mapping) : Cursor → DirectoryEntry
  | .low => m.directory m.nextLowDirectoryIndex
  | .high => m.directory m.nextHighDirectoryIndex

/-- **The cursors have not met, and a table remains where one is begun.**
The high cursor leaves the address space behind the first page. -/
def Available (s : Addresses) (op : PageOp) : Prop :=
  (s.mapping.lowPage ≤ s.mapping.highPage ∧ s.mapping.highPage < 2 ^ 20) ∧
    (Begins s.mapping op.cursor → s.mapping.nextTableIndex < s.mapping.pool.tablesCount)

/-- **The call returns the next page**: one that was never returned, right
above the last low one or right below the last high one. -/
def Sequential (s : Addresses) (op : PageOp) : Prop :=
  ∃ virtualAddress m', op.call s.mapping = some (virtualAddress, m') ∧
    (∀ other ∈ s.low ++ s.high, virtualAddress / 4096 ≠ other / 4096) ∧
    match op.cursor with
    | .low => ∀ last ∈ s.low.head?, virtualAddress / 4096 = last / 4096 + 1
    | .high => ∀ last ∈ s.high.head?, virtualAddress / 4096 + 1 = last / 4096

/-- **The pages of either end lie next to each other**: the high ones are
a range that starts at the last one returned, the low ones a range that
ends there. -/
def Contiguous (s : Addresses) : Prop :=
  (∀ last ∈ s.high.head?,
    s.high.map (· / 4096) = List.range' (last / 4096) s.high.length) ∧
  (∀ last ∈ s.low.head?,
    s.low.reverse.map (· / 4096) = List.range' (last / 4096 + 1 - s.low.length) s.low.length) ∧
  ((s.low ++ s.high).map (· / 4096)).Nodup

/-- **No call begins a table for an entry that is present.** -/
def Unbegun (s : Addresses) (op : PageOp) : Prop :=
  Begins s.mapping op.cursor → (entryAt s.mapping op.cursor).isPresent = false

instance (s : Addresses) (op : PageOp) : Decidable (Available s op) :=
  inferInstanceAs (Decidable ((_ ∧ _) ∧ (_ → _)))

instance (s : Addresses) (op : PageOp) : Decidable (Unbegun s op) :=
  inferInstanceAs (Decidable (_ → _))

/-! ## A page at either cursor -/

namespace Mapping

/-- **Writing a page and moving one cursor past it** keeps the taken pages
and their tables in step. -/
theorem Paged.writeOut {page : ℕ} (h : Paged m t) (isFirstTable checked : Bool)
    (hslot : isFirstTable = false → t.slot (page / 1024) ≠ none)
    (hfirst : isFirstTable = true →
      (m.directory (page / 1024)).isPresent = false ∧ m.nextTableIndex < m.pool.tablesCount)
    (hlow : m.lowPage ≤ page) (hhigh : page ≤ m.highPage) (physical : ℕ) (options : MapOptions) :
    ∃ m₁ t', m.mapPage (page / 1024) (page % 1024) isFirstTable checked physical options =
        some (page * 4096 + physical % 4096, m₁) ∧
      (m₁.nextLowDirectoryIndex = m.nextLowDirectoryIndex ∧
        m₁.nextLowTableIndex = m.nextLowTableIndex ∧
        m₁.nextHighDirectoryIndex = m.nextHighDirectoryIndex ∧
        m₁.nextHighTableIndex = m.nextHighTableIndex) ∧
      ∀ m' low high, Moved m₁ low high m' →
        m.lowPage = page ∧ low = page + 1 ∧ high = m.highPage ∨
          m.highPage = page ∧ page = high + 1 ∧ low = m.lowPage →
        Paged m' t' := by
  have hapart := h.apart
  have hlast := h.last
  obtain ⟨m₁, t', hcall, hwritten⟩ := h.writePage isFirstTable checked (by omega) hslot hfirst
    (h.free _ hlow hhigh) physical options
  refine ⟨m₁, t', hcall, ⟨hwritten.lowDirectory, hwritten.lowTable, hwritten.highDirectory,
    hwritten.highTable⟩, fun m' low high hmoved hends => ?_⟩
  have hlow' := hmoved.lowPage
  have hhigh' := hmoved.highPage
  refine h.advance hwritten (hmoved.keeps _ hwritten.keeps) hmoved.present (fun q => ?_)
    (fun q hq hq' => ?_) hmoved.lowTable hmoved.highTable ?_ ?_
  · unfold Taken
    omega
  · omega
  · omega
  · omega

/-- **The next low page.** -/
theorem Paged.nextLow (h : Paged m t) (hroom : m.lowPage ≤ m.highPage)
    (htables : Begins m .low → m.nextTableIndex < m.pool.tablesCount)
    (hunbegun : Begins m .low → (entryAt m .low).isPresent = false) (physical : ℕ)
    (options : MapOptions) :
    ∃ m' t', m.mapPhysicalLow physical options =
        some (m.lowPage * 4096 + physical % 4096, m') ∧
      Paged m' t' ∧ m'.lowPage = m.lowPage + 1 ∧ m'.highPage = m.highPage := by
  have hlast := h.last
  obtain ⟨hdirectory, htable⟩ := h.lowIndices
  have hslot : m.isFirstLowTable = false → t.slot (m.lowPage / 1024) ≠ none := by
    intro hfirst
    -- the page before is taken, and is of the same table
    simp only [isFirstLowTable, htable, decide_eq_false_iff_not] at hfirst
    have htaken : Taken m (m.lowPage - 1) := Or.inl (by omega)
    have hsame : (m.lowPage - 1) / 1024 = m.lowPage / 1024 := by omega
    exact hsame ▸ h.slot_of_taken htaken
  unfold entryAt at hunbegun
  rw [hdirectory] at hunbegun
  obtain ⟨m₁, t', hcall, ⟨hld, hlt, hhd, hht⟩, hout⟩ := h.writeOut m.isFirstLowTable true hslot
    (fun hfirst => ⟨hunbegun hfirst, htables hfirst⟩) le_rfl hroom physical options
  have hsame : m₁.lowPage = m.lowPage := by rw [lowPage, hld, hlt, lowPage]
  have hsame' : m₁.highPage = m.highPage := by rw [highPage, hhd, hht, highPage]
  have hmoved := moved_advanceLow (m := m₁) (hlt ▸ h.lowTable) (by omega) (hht ▸ h.highTable)
  rw [hsame, hsame'] at hmoved
  refine ⟨m₁.advanceLow, t', ?_, hout _ _ _ hmoved (Or.inl ⟨rfl, rfl, rfl⟩), hmoved.lowPage,
    hmoved.highPage⟩
  rw [Mapping.mapPhysicalLow, hdirectory, htable, hcall]
  rfl

/-- The next high page, before its cursor moves on. -/
theorem Paged.nextHigh_written (h : Paged m t) (hroom : m.lowPage ≤ m.highPage)
    (htables : Begins m .high → m.nextTableIndex < m.pool.tablesCount)
    (hunbegun : Begins m .high → (entryAt m .high).isPresent = false) (physical : ℕ)
    (options : MapOptions) :
    ∃ m₁ t', m.mapPhysicalHigh physical options =
        some (m.highPage * 4096 + physical % 4096, m₁.advanceHigh) ∧
      (m₁.nextLowDirectoryIndex = m.nextLowDirectoryIndex ∧
        m₁.nextLowTableIndex = m.nextLowTableIndex ∧
        m₁.nextHighDirectoryIndex = m.nextHighDirectoryIndex ∧
        m₁.nextHighTableIndex = m.nextHighTableIndex) ∧
      ∀ m' low high, Moved m₁ low high m' → m.highPage = high + 1 ∧ low = m.lowPage →
        Paged m' t' := by
  have hlast := h.last
  obtain ⟨hdirectory, htable⟩ := h.highIndices
  have hslot : m.isFirstHighTable = false → t.slot (m.highPage / 1024) ≠ none := by
    intro hfirst
    -- the page after is taken, and is of the same table
    simp only [isFirstHighTable, hdirectory, htable, decide_eq_false_iff_not] at hfirst
    have htaken : Taken m (m.highPage + 1) := Or.inr ⟨by omega, by omega⟩
    have hsame : (m.highPage + 1) / 1024 = m.highPage / 1024 := by omega
    exact hsame ▸ h.slot_of_taken htaken
  unfold entryAt at hunbegun
  rw [hdirectory] at hunbegun
  obtain ⟨m₁, t', hcall, hsame, hout⟩ := h.writeOut m.isFirstHighTable false hslot
    (fun hfirst => ⟨hunbegun hfirst, htables hfirst⟩) hroom le_rfl physical options
  refine ⟨m₁, t', ?_, hsame, fun m' low high hmoved hends => ?_⟩
  · rw [Mapping.mapPhysicalHigh, hdirectory, htable, hcall]
    rfl
  · exact hout m' low high hmoved (Or.inr ⟨rfl, hends.1, hends.2⟩)

/-- **The next high page.** -/
theorem Paged.nextHigh (h : Paged m t) (hroom : m.lowPage ≤ m.highPage) (hnext : m.highPage ≠ 0)
    (htables : Begins m .high → m.nextTableIndex < m.pool.tablesCount)
    (hunbegun : Begins m .high → (entryAt m .high).isPresent = false) (physical : ℕ)
    (options : MapOptions) :
    ∃ m' t', m.mapPhysicalHigh physical options =
        some (m.highPage * 4096 + physical % 4096, m') ∧
      Paged m' t' ∧ m'.lowPage = m.lowPage ∧ m'.highPage = m.highPage - 1 := by
  have hlast := h.last
  obtain ⟨m₁, t', hcall, ⟨hld, hlt, hhd, hht⟩, hout⟩ :=
    h.nextHigh_written hroom htables hunbegun physical options
  have hsame : m₁.lowPage = m.lowPage := by rw [lowPage, hld, hlt, lowPage]
  have hsame' : m₁.highPage = m.highPage := by rw [highPage, hhd, hht, highPage]
  have hmoved := moved_advanceHigh (m := m₁) (hlt ▸ h.lowTable) (by omega) (by omega)
    (hht ▸ h.highTable)
  rw [hsame, hsame'] at hmoved
  exact ⟨m₁.advanceHigh, t', hcall, hout _ _ _ hmoved ⟨by omega, rfl⟩, hmoved.lowPage,
    hmoved.highPage⟩

/-- **The first page of all** is the last one the high cursor returns: the
directory index goes round. -/
theorem Paged.nextHigh_last (h : Paged m t) (hroom : m.lowPage ≤ m.highPage)
    (hnext : m.highPage = 0)
    (htables : Begins m .high → m.nextTableIndex < m.pool.tablesCount)
    (hunbegun : Begins m .high → (entryAt m .high).isPresent = false) (physical : ℕ)
    (options : MapOptions) :
    ∃ m', m.mapPhysicalHigh physical options = some (physical % 4096, m') ∧
      m'.lowPage = m.lowPage ∧ 2 ^ 20 ≤ m'.highPage := by
  obtain ⟨m₁, t', hcall, ⟨hld, hlt, hhd, hht⟩, -⟩ :=
    h.nextHigh_written hroom htables hunbegun physical options
  obtain ⟨hdirectory, htable⟩ := h.highIndices
  rw [hnext] at hdirectory htable
  rw [hnext, Nat.zero_mul, Nat.zero_add] at hcall
  have hround : m₁.advanceHigh.nextHighDirectoryIndex = 2 ^ 16 - 1 := by
    unfold advanceHigh
    rw [if_pos (hht.trans htable)]
    simp only [prepEntry, hhd, hdirectory]
    omega
  refine ⟨m₁.advanceHigh, hcall, ?_, ?_⟩
  · unfold advanceHigh lowPage
    rw [if_pos (hht.trans htable)]
    simp only [prepEntry, hld, hlt]
  · unfold highPage
    rw [hround]
    omega

/-- Either is a call for the page the high cursor stands at. -/
theorem Paged.nextHigh_cases (h : Paged m t) (hroom : m.lowPage ≤ m.highPage)
    (htables : Begins m .high → m.nextTableIndex < m.pool.tablesCount)
    (hunbegun : Begins m .high → (entryAt m .high).isPresent = false) (physical : ℕ)
    (options : MapOptions) :
    ∃ m', m.mapPhysicalHigh physical options =
        some (m.highPage * 4096 + physical % 4096, m') ∧ m'.lowPage = m.lowPage ∧
      ((∃ t', Paged m' t') ∧ m'.highPage + 1 = m.highPage ∨
        m.highPage = 0 ∧ 2 ^ 20 ≤ m'.highPage) := by
  by_cases hnext : m.highPage = 0
  · obtain ⟨m', hcall, hlow, hhigh⟩ := h.nextHigh_last hroom hnext htables hunbegun physical options
    refine ⟨m', ?_, hlow, Or.inr ⟨hnext, hhigh⟩⟩
    rw [hcall, hnext, Nat.zero_mul, Nat.zero_add]
  · obtain ⟨m', t', hcall, ht', hlow, hhigh⟩ :=
      h.nextHigh hroom hnext htables hunbegun physical options
    exact ⟨m', hcall, hlow, Or.inl ⟨⟨t', ht'⟩, by omega⟩⟩

end Mapping

/-- **A call that would begin a table for a present entry returns
nothing.** -/
theorem call_of_present (hbegins : Begins m op.cursor)
    (hpresent : (entryAt m op.cursor).isPresent = true) : op.call m = none := by
  obtain ⟨cursor, physical, options⟩ := op
  cases cursor with
  | low =>
    have hbegins : m.isFirstLowTable = true := hbegins
    simp only [PageOp.call, mapPhysicalLow, hbegins]
    rw [mapPage_of_present true hpresent]
    rfl
  | high =>
    have hbegins : m.isFirstHighTable = true := hbegins
    simp only [PageOp.call, mapPhysicalHigh, hbegins]
    rw [mapPage_of_present false hpresent]
    rfl

/-! ## The invariant -/

/-- **The pages returned so far** are those below the low cursor and those
above the high one, in the order of the calls. -/
structure Spelled (s : Addresses) : Prop where
  low : s.low.map (· / 4096) = (List.range s.low.length).reverse
  high : s.high.map (· / 4096) = List.range' (2 ^ 20 - 1 - s.high.length) s.high.length
  room : s.low.length + s.high.length ≤ 2 ^ 20 - 1
  lowPage : s.mapping.lowPage = s.low.length
  highPage : (∃ t, Paged s.mapping t) ∧ s.mapping.highPage + s.high.length = 2 ^ 20 - 2 ∨
    s.high.length = 2 ^ 20 - 1 ∧ 2 ^ 20 ≤ s.mapping.highPage

theorem spelled_new (pool : TablePool) (tables : ℕ → ℕ → TableEntry) :
    Spelled (Addresses.new pool tables) where
  low := rfl
  high := rfl
  room := Nat.zero_le _
  lowPage := lowPage_new pool tables
  highPage := by
    refine Or.inl ⟨⟨_, paged_new pool tables⟩, ?_⟩
    simp only [Addresses.new, highPage_new, List.length_nil, Nat.add_zero]

namespace Spelled

/-- While the cursors have not met the high one stands below the pages it
has returned. -/
theorem paged (h : Spelled s) (havailable : Available s op) :
    ∃ t, Paged s.mapping t ∧ s.mapping.highPage + s.high.length = 2 ^ 20 - 2 := by
  rcases h.highPage with ⟨⟨t, ht⟩, hhigh⟩ | ⟨-, hround⟩
  · exact ⟨t, ht, hhigh⟩
  · exact absurd havailable.1.2 (Nat.not_lt.2 hround)

theorem low_lt (h : Spelled s) {other : ℕ} (hother : other ∈ s.low) :
    other / 4096 < s.low.length := by
  have hmem := List.mem_map_of_mem (f := (· / 4096)) hother
  rw [h.low, List.mem_reverse, List.mem_range] at hmem
  exact hmem

theorem le_high (h : Spelled s) {other : ℕ} (hother : other ∈ s.high) :
    2 ^ 20 - 1 - s.high.length ≤ other / 4096 := by
  have hmem := List.mem_map_of_mem (f := (· / 4096)) hother
  rw [h.high, List.mem_range'_1] at hmem
  exact hmem.1

/-- A page between the cursors was never returned. -/
theorem fresh (h : Spelled s) {page other : ℕ} (hlow : s.low.length ≤ page)
    (hhigh : page + s.high.length < 2 ^ 20 - 1) (hother : other ∈ s.low ++ s.high) :
    page ≠ other / 4096 := by
  rcases List.mem_append.1 hother with hother | hother
  · have := h.low_lt hother
    omega
  · have := h.le_high hother
    omega

theorem low_head (h : Spelled s) {last : ℕ} (hlast : last ∈ s.low.head?) :
    last / 4096 + 1 = s.low.length := by
  obtain ⟨rest, hrest⟩ := List.head?_eq_some_iff.1 hlast
  have hlow := h.low
  rw [hrest, List.map_cons, List.length_cons, List.range_succ, List.reverse_concat,
    List.cons.injEq] at hlow
  rw [hrest, hlow.1, List.length_cons]

theorem high_head (h : Spelled s) {last : ℕ} (hlast : last ∈ s.high.head?) :
    last / 4096 = 2 ^ 20 - 1 - s.high.length := by
  obtain ⟨rest, hrest⟩ := List.head?_eq_some_iff.1 hlast
  have hhigh := h.high
  rw [hrest, List.map_cons, List.length_cons, List.range'_succ, List.cons.injEq] at hhigh
  rw [hrest, hhigh.1, List.length_cons]

/-- **The invariant gives the blocks.** -/
theorem contiguous (h : Spelled s) : Contiguous s := by
  refine ⟨fun last hlast => ?_, fun last hlast => ?_, ?_⟩
  · rw [h.high_head hlast, h.high]
  · rw [h.low_head hlast, List.map_reverse, h.low, List.reverse_reverse, Nat.sub_self,
      List.range_eq_range']
  · rw [List.map_append, h.low, h.high]
    refine List.nodup_append.2 ⟨List.nodup_reverse.2 List.nodup_range, List.nodup_range', ?_⟩
    intro a ha b hb heq
    have hroom := h.room
    rw [List.mem_reverse, List.mem_range] at ha
    rw [List.mem_range'_1] at hb
    omega

end Spelled

/-! ## A call -/

/-- What a call returns is an address of the page its cursor stands at. -/
theorem div_of_page (page physical : ℕ) : (page * 4096 + physical % 4096) / 4096 = page := by
  omega

/-- **The step lemma.** A call that begins no table for a present entry
returns the next page and keeps the invariant. -/
theorem Spelled.step (h : Spelled s) (havailable : Available s op) (hunbegun : Unbegun s op) :
    Sequential s op ∧ Spelled (s.step op) := by
  obtain ⟨t, ht, hhigh⟩ := h.paged havailable
  obtain ⟨⟨hroom, -⟩, htables⟩ := havailable
  have hlow := h.lowPage
  obtain ⟨cursor, physical, options⟩ := op
  unfold Sequential Addresses.step PageOp.call
  cases cursor with
  | low =>
    obtain ⟨m', t', hcall, ht', hlow', hhigh'⟩ := ht.nextLow hroom htables hunbegun physical options
    dsimp only
    rw [hcall]
    refine ⟨⟨_, _, rfl, fun other hother => ?_, fun last hlast => ?_⟩, ?_, h.high, ?_, ?_, ?_⟩
    · rw [div_of_page]
      exact h.fresh (by omega) (by omega) hother
    · rw [div_of_page, h.low_head hlast, hlow]
    · simp only [List.map_cons, div_of_page, h.low, hlow, List.length_cons, List.range_succ,
        List.reverse_concat]
    · simp only [List.length_cons]
      omega
    · simp only [List.length_cons]
      omega
    · exact Or.inl ⟨⟨t', ht'⟩, by simp only; omega⟩
  | high =>
    have hpages : (s.mapping.highPage * 4096 + physical % 4096) / 4096 = s.mapping.highPage :=
      div_of_page _ _
    have hspelled : (2 ^ 20 - 1 - (s.high.length + 1)) :: List.range' (2 ^ 20 - 1 - s.high.length)
        s.high.length = List.range' (2 ^ 20 - 1 - (s.high.length + 1)) (s.high.length + 1) := by
      rw [List.range'_succ]
      congr 2
      omega
    obtain ⟨m', hcall, hlow', hmoved⟩ := ht.nextHigh_cases hroom htables hunbegun physical options
    dsimp only
    rw [hcall]
    refine ⟨⟨_, _, rfl, fun other hother => ?_, fun last hlast => ?_⟩, h.low, ?_, ?_, ?_, ?_⟩
    · rw [hpages]
      exact h.fresh (by omega) (by omega) hother
    · rw [hpages, h.high_head hlast]
      omega
    · simp only [List.map_cons, hpages, h.high, List.length_cons, ← hspelled]
      exact List.cons_eq_cons.2 ⟨by omega, rfl⟩
    · simp only [List.length_cons]
      omega
    · exact hlow'.trans hlow
    · simp only [List.length_cons]
      rcases hmoved with ⟨htables', hhigh'⟩ | ⟨hnext, hhigh'⟩
      · exact Or.inl ⟨htables', by omega⟩
      · exact Or.inr ⟨by omega, hhigh'⟩

/-- **A call returns the next page exactly when it begins no table for a
present entry.** -/
theorem sequential_iff_unbegun (h : Spelled s) (havailable : Available s op) :
    Sequential s op ↔ Unbegun s op := by
  refine ⟨fun hsequential hbegins => ?_, fun hunbegun => (h.step havailable hunbegun).1⟩
  by_contra hpresent
  rw [Bool.not_eq_false] at hpresent
  obtain ⟨virtualAddress, m', hcall, -⟩ := hsequential
  rw [call_of_present hbegins hpresent] at hcall
  cases hcall

/-- **In every run made while the cursors have not met and tables remain**
the addresses come in order, no page twice, exactly when no call begins a
table for an entry that is present. -/
theorem sequential_run_iff (pool : TablePool) (tables : ℕ → ℕ → TableEntry) (ops : List PageOp)
    (havailable : Along Addresses.step Available (.new pool tables) ops) :
    Along Addresses.step Sequential (.new pool tables) ops ∧
        Throughout Addresses.step Contiguous (.new pool tables) ops ↔
      Along Addresses.step Unbegun (.new pool tables) ops := by
  have hiff : Along Addresses.step Sequential (.new pool tables) ops ↔
      Along Addresses.step Unbegun (.new pool tables) ops :=
    along_iff_of_invariant havailable (spelled_new pool tables)
      (fun _ _ h havailable => sequential_iff_unbegun h havailable)
      fun _ _ h havailable hunbegun => (h.step havailable hunbegun).2
  refine ⟨fun h => hiff.1 h.1, fun hunbegun => ⟨hiff.2 hunbegun, ?_⟩⟩
  exact throughout_of_invariant (havailable.and hunbegun) (spelled_new pool tables)
    (fun _ _ h hop => (h.step hop.1 hop.2).2) fun _ h => h.contiguous

/-- The tables `init` makes for a heap of 4 GiB less a megabyte, behind the
first two megabytes. -/
def heapTables : TablePool := ⟨0x200000, 1151, by decide, by decide⟩

/-- Both ends in turn. -/
theorem sequential_run_mixed :
    Along Addresses.step Sequential (.new heapTables fun _ _ => default)
        [⟨.low, 0, {}⟩, ⟨.high, 0x7123, {}⟩, ⟨.high, 0x5000, {}⟩, ⟨.low, 0x1000, {}⟩] ∧
      Throughout Addresses.step Contiguous (.new heapTables fun _ _ => default)
        [⟨.low, 0, {}⟩, ⟨.high, 0x7123, {}⟩, ⟨.high, 0x5000, {}⟩, ⟨.low, 0x1000, {}⟩] :=
  (sequential_run_iff heapTables _ _ (by decide +kernel)).2 (by decide +kernel)

/-! ## A call that does not return -/

/-- So many high pages were mapped, and nothing else. -/
structure HighOnly (n : ℕ) (s : Addresses) : Prop extends Spelled s where
  none_low : s.low = []
  length_high : s.high.length = n
  pool : s.mapping.pool = heapTables
  first : n = 0 → s.mapping.nextTableIndex = 0
  tables : s.mapping.nextTableIndex + (s.mapping.highPage + 1) / 1024 ≤ 1024

theorem highOnly_new : HighOnly 0 (.new heapTables fun _ _ => default) where
  toSpelled := spelled_new _ _
  none_low := rfl
  length_high := rfl
  pool := rfl
  first _ := rfl
  tables := by
    simp only [Addresses.new, highPage_new]
    simp only [Mapping.new]
    omega

/-- A table is begun where one is needed, from a pool that has more than
the directory has entries. -/
theorem HighOnly.available {n : ℕ} (h : HighOnly n s) (hn : n < 2 ^ 20 - 1) :
    Available s op := by
  have hlow := h.lowPage
  rw [h.none_low, List.length_nil] at hlow
  have hlength := h.length_high
  have htables := h.tables
  have hpool := h.pool
  rcases h.highPage with ⟨-, hpage⟩ | ⟨hround, -⟩
  · refine ⟨by omega, fun _ => ?_⟩
    rw [hpool]
    change s.mapping.nextTableIndex < 1151
    omega
  · omega

theorem HighOnly.step {n : ℕ} (h : HighOnly n s) (hn : n < 2 ^ 20 - 2) (hhigh : op.cursor = .high) :
    HighOnly (n + 1) (s.step op) := by
  have havailable : Available s op := h.available (by omega)
  obtain ⟨t, ht, hpage⟩ := h.toSpelled.paged havailable
  have hlow := h.lowPage
  rw [h.none_low, List.length_nil] at hlow
  have hlength := h.length_high
  have htables := h.tables
  have hfirst := h.first
  obtain ⟨cursor, physical, options⟩ := op
  subst hhigh
  have hbegins : FirstHigh s.mapping.highPage → s.mapping.nextTableIndex < s.mapping.pool.tablesCount :=
    fun _ => by
      rw [h.pool]
      change s.mapping.nextTableIndex < 1151
      omega
  obtain ⟨m', t', hcall, hout, hlow', hhigh'⟩ := ht.mapPhysicalHigh havailable.1.1 hbegins
    (fun _ => by
      unfold BegunLow
      omega) (by omega) physical options
  have hunbegun : Unbegun s ⟨.high, physical, options⟩ := by
    intro hbegins
    by_contra hpresent
    rw [Bool.not_eq_false] at hpresent
    have hnone : PageOp.call ⟨.high, physical, options⟩ _ = none :=
      call_of_present hbegins hpresent
    rw [PageOp.call, hcall] at hnone
    cases hnone
  have hspelled := (h.toSpelled.step havailable hunbegun).2
  unfold Addresses.step PageOp.call at hspelled ⊢
  dsimp only at hspelled ⊢
  rw [hcall] at hspelled ⊢
  refine ⟨hspelled, h.none_low, by rw [List.length_cons, hlength], hout.pool.trans h.pool, nofun, ?_⟩
  dsimp only
  rw [hout.next, hhigh']
  simp only [decide_eq_true_eq]
  by_cases hend : FirstHigh s.mapping.highPage
  · rw [if_pos hend]
    unfold FirstHigh at hend
    omega
  · rw [if_neg hend]
    omega

/-- **High pages only are always mapped.** -/
theorem highOnly_run (op : PageOp) {n : ℕ} (hn : n ≤ 2 ^ 20 - 2) (hhigh : op.cursor = .high) :
    Along Addresses.step Available (.new heapTables fun _ _ => default) (List.replicate n op) ∧
      HighOnly n (run Addresses.step (.new heapTables fun _ _ => default) (List.replicate n op)) := by
  induction n with
  | zero => exact ⟨trivial, highOnly_new⟩
  | succ n ih =>
    obtain ⟨havailable, h⟩ := ih (by omega)
    rw [List.replicate_succ', along_append, run_append]
    exact ⟨⟨havailable, h.available (by omega), trivial⟩, h.step (by omega) hhigh⟩

/-- The entry of a table that was begun is present, and stays so while its
cursor is in it. -/
theorem present_of_begun {virtualAddress physical : ℕ} {options : MapOptions} {m' : Mapping}
    (ht : Paged m t) (hbegins : Begins m .high) (htable : m.nextHighTableIndex ≠ 0)
    (hcall : m.mapPhysicalHigh physical options = some (virtualAddress, m')) :
    (m'.directory m.nextHighDirectoryIndex).isPresent = true := by
  have hlast := ht.last
  obtain ⟨hdirectory, hindex⟩ := ht.highIndices
  have hunbegun : (m.directory (m.highPage / 1024)).isPresent = false := by
    by_contra hpresent
    rw [Bool.not_eq_false, ← hdirectory] at hpresent
    have hnone : PageOp.call ⟨.high, physical, options⟩ _ = none :=
      call_of_present hbegins hpresent
    rw [PageOp.call, hcall] at hnone
    cases hnone
  have hroom : m.nextTableIndex < m.pool.tablesCount := by
    by_contra hfull
    have hnone : m.mapPage (m.highPage / 1024) (m.highPage % 1024) true false physical options =
        none := mapPage_of_full false (not_lt.1 hfull)
    have hbegins : m.isFirstHighTable = true := hbegins
    rw [Mapping.mapPhysicalHigh, hbegins, hdirectory, hindex, hnone] at hcall
    cases hcall
  have hmapped := ht.mapPage_begin_eq false (by omega : m.highPage < 2 ^ 20) hunbegun hroom physical
    options
  have hbegins : m.isFirstHighTable = true := hbegins
  rw [Mapping.mapPhysicalHigh, hbegins, hdirectory, hindex, hmapped, Option.bind_eq_bind,
    Option.bind_some, Option.some.injEq, Prod.mk.injEq] at hcall
  obtain ⟨-, rfl⟩ := hcall
  have hstay : (setEntry (m.startTable (m.highPage / 1024)) (m.highPage / 1024) m.nextTableIndex
      (m.highPage % 1024) (physical - physical % 4096) options).nextHighTableIndex ≠ 0 := htable
  rw [advanceHigh, if_neg hstay, hdirectory]
  simp [setEntry, Mapping.startTable]

/-- With a page of the first directory entry left to map, mapping it
begins the entry. -/
theorem HighOnly.present_first {n : ℕ} (h : HighOnly n s) (hn : n + 1025 = 2 ^ 20) :
    ((s.step ⟨.high, 0, {}⟩).mapping.directory 0).isPresent = true := by
  have hnext : HighOnly (n + 1) (s.step ⟨.high, 0, {}⟩) := h.step (by omega) rfl
  have havailable : Available s ⟨.high, 0, {}⟩ := h.available (by omega)
  obtain ⟨t, ht, hpage⟩ := h.toSpelled.paged havailable
  obtain ⟨hdirectory, htable⟩ := ht.highIndices
  have hlength := h.length_high
  have hbegins : Begins s.mapping .high := by
    simp only [Begins, isFirstHighTable, decide_eq_true_eq]
    omega
  rcases hcall : s.mapping.mapPhysicalHigh 0 {} with - | ⟨virtualAddress, m'⟩
  · have hstay : s.step ⟨.high, 0, {}⟩ = s := by
      simp only [Addresses.step, PageOp.call, hcall]
    rw [hstay] at hnext
    have := hnext.length_high
    omega
  · have hpresent := present_of_begun ht hbegins (by omega) hcall
    have hzero : s.mapping.nextHighDirectoryIndex = 0 := by omega
    rw [hzero] at hpresent
    simpa only [Addresses.step, PageOp.call, hcall] using hpresent

/-- The low cursor has not moved. -/
theorem HighOnly.low_indices {n : ℕ} (h : HighOnly n s) :
    Begins s.mapping .low ∧ s.mapping.nextLowDirectoryIndex = 0 := by
  have hlow := h.lowPage
  rw [h.none_low, List.length_nil] at hlow
  unfold lowPage at hlow
  simp only [Begins, isFirstLowTable, decide_eq_true_eq]
  omega

/-- After the first high page of the first directory entry, the low
cursor's first call fails. -/
theorem not_sequential_of_replicate {n : ℕ} (hn : n + 1025 = 2 ^ 20) :
    Along Addresses.step Available (.new heapTables fun _ _ => default)
        (List.replicate (n + 1) ⟨.high, 0, {}⟩ ++ [⟨.low, 0, {}⟩]) ∧
      ¬ Along Addresses.step Sequential (.new heapTables fun _ _ => default)
          (List.replicate (n + 1) ⟨.high, 0, {}⟩ ++ [⟨.low, 0, {}⟩]) := by
  obtain ⟨-, hbefore⟩ := highOnly_run ⟨.high, 0, {}⟩ (n := n) (by omega) rfl
  obtain ⟨havailable, hafter⟩ := highOnly_run ⟨.high, 0, {}⟩ (n := n + 1) (by omega) rfl
  have hlow : Available (run Addresses.step (.new heapTables fun _ _ => default)
      (List.replicate (n + 1) ⟨.high, 0, {}⟩)) ⟨.low, 0, {}⟩ := hafter.available (by omega)
  rw [along_append, along_append]
  refine ⟨⟨havailable, hlow, trivial⟩, fun h => ?_⟩
  have hunbegun := (sequential_iff_unbegun hafter.toSpelled hlow).1 h.2.1
  obtain ⟨hbegins, hzero⟩ := hafter.low_indices
  have habsent := hunbegun hbegins
  unfold entryAt at habsent
  dsimp only at habsent
  rw [hzero, List.replicate_succ', run_append, run_cons, run_nil, hbefore.present_first hn] at habsent
  cases habsent

/-- **A low call fails between cursors that have not met**: when the high
cursor has mapped a page of the first directory entry before the low
cursor any, the low cursor's first call finds the entry present. -/
theorem sequential_run_halted :
    Along Addresses.step Available (.new heapTables fun _ _ => default)
        (List.replicate (1023 * 1024) ⟨.high, 0, {}⟩ ++ [⟨.low, 0, {}⟩]) ∧
      ¬ (Along Addresses.step Sequential (.new heapTables fun _ _ => default)
          (List.replicate (1023 * 1024) ⟨.high, 0, {}⟩ ++ [⟨.low, 0, {}⟩]) ∧
        Throughout Addresses.step Contiguous (.new heapTables fun _ _ => default)
          (List.replicate (1023 * 1024) ⟨.high, 0, {}⟩ ++ [⟨.low, 0, {}⟩])) := by
  have hcount : 1047551 + 1 = 1023 * 1024 := by omega
  have hhalted := not_sequential_of_replicate (n := 1047551) (by omega)
  rw [hcount] at hhalted
  exact ⟨hhalted.1, fun h => hhalted.2 h.1⟩

end Mmu

end Uberos
