import Uberos.Mmu.Ranges
import Uberos.Mmu.Permissions
/-!
# What was mapped is translated

A call maps as many pages as its range has in size, from the page its
range starts in. Where the range starts inside a page it may reach a page
more, which is then whatever was mapped there. In a run in which no range
does, and in which neither cursor begins a table for a directory entry
the other has begun, every range that was mapped is translated byte by
byte, whatever was mapped after it.
-/

namespace Uberos

namespace Mmu

open Library Mapping

/-! ## What it is for -/

/-- Every byte of a range is translated to its own. -/
def Translated (m : Mapping) (a : Mapped) : Prop :=
  ∀ k < a.size, m.getPhysical (a.virtualAddress + k) = some ((a.physical + k) % 2 ^ 32)

/-- **Every range that was mapped is translated**, those of earlier calls
included. -/
def Faithful (r : Run) : Prop := ∀ a ∈ r.mapped, Translated r.mapping a

/-- The call returns. -/
def Returns (r : Run) (op : Op) : Prop := call r.mapping op ≠ none

/-! ## The conditions -/

/-- The pages a call maps. -/
def Op.pages : Op → ℕ
  | .mapPhysicalLow _ _ | .mapPhysicalHigh _ _ => 1
  | .mapPhysicalLowRange _ size _ | .mapPhysicalHighRange _ size _ => pageCount size

/-- The call exhausts neither the tables nor the pages between the cursors. -/
def Room (r : Run) (op : Op) : Prop :=
  match op with
  | .mapPhysicalLow _ _ | .mapPhysicalLowRange _ _ _ => r.mapping.LowRoom op.pages
  | .mapPhysicalHigh _ _ | .mapPhysicalHighRange _ _ _ => r.mapping.HighRoom op.pages

/-- **The range ends in a page that is mapped**, and the call begins no
table that the other cursor has begun. -/
def Kept (r : Run) (op : Op) : Prop :=
  op.range.1 % 4096 + op.range.2 ≤ 4096 * op.pages ∧
    match op with
    | .mapPhysicalLow _ _ | .mapPhysicalLowRange _ _ _ => r.mapping.LowKept op.pages
    | .mapPhysicalHigh _ _ | .mapPhysicalHighRange _ _ _ => r.mapping.HighKept op.pages

instance (r : Run) (op : Op) : Decidable (Room r op) := by
  cases op <;> simp only [Room] <;> infer_instance

instance (r : Run) (op : Op) : Decidable (Kept r op) := by
  cases op <;> simp only [Kept] <;> infer_instance

/-! ## A call -/

/-- **A range is held**: taken pages next to each other hold the pages it
lies in. -/
structure Held (m : Mapping) (t : TwoLevel TableEntry) (a : Mapped) (page pages : ℕ) : Prop where
  virtualAddress : a.virtualAddress = page * 4096 + a.physical % 4096
  covers : a.physical % 4096 + a.size ≤ 4096 * pages
  frames : Frames t page pages (a.physical / 4096)
  taken : ∀ i < pages, Taken m (page + i)

variable {m m' : Mapping} {t t' : TwoLevel TableEntry} {a : Mapped} {page pages : ℕ}

/-- A taken page lies in the address space. -/
theorem Mapping.Paged.lt_of_taken (h : Paged m t) (htaken : Taken m page) : page < 2 ^ 20 := by
  have hapart := h.apart
  have hlast := h.last
  unfold Taken at htaken
  omega

/-- **A held range is translated.** -/
theorem Held.translated (hheld : Held m t a page pages) (h : Paged m t) : Translated m a := by
  intro k hk
  have hcovers := hheld.covers
  have hi : (a.physical % 4096 + k) / 4096 < pages := by omega
  obtain ⟨entry, hentry, haddress⟩ := hheld.frames _ hi
  have hpage := h.lt_of_taken (hheld.taken _ hi)
  have hvirtual := hheld.virtualAddress
  have hquotient : (a.virtualAddress + k) / 4096 = page + (a.physical % 4096 + k) / 4096 := by
    omega
  rw [← hquotient] at hentry
  rw [h.getPhysical (by omega) hentry, haddress]
  congr 1
  omega

/-- What was held stays held. -/
theorem Mapping.Extended.held (h : Extended m t m' t') (hheld : Held m t a page pages) :
    Held m' t' a page pages where
  virtualAddress := hheld.virtualAddress
  covers := hheld.covers
  frames := h.frames hheld.frames hheld.taken
  taken i hi := h.taken _ (hheld.taken i hi)

/-- **A call returns, and its range is held.** -/
theorem Mapping.Paged.call {r : Run} {op : Op} (h : Paged r.mapping t) (hroom : Room r op)
    (hkept : Kept r op) :
    ∃ virtualAddress m' t', call r.mapping op = some (virtualAddress, m') ∧
      Extended r.mapping t m' t' ∧
      ∃ page pages, Held m' t' ⟨virtualAddress, op.range.1, op.range.2⟩ page pages := by
  have hlast := h.last
  obtain ⟨hcovers, hkept⟩ := hkept
  cases op with
  | mapPhysicalLow physical options =>
    obtain ⟨m', t', hcall, hextended, hframes, hlow, -⟩ :=
      h.lowPage_spec hroom hkept physical options
    refine ⟨_, m', t', hcall, hextended, _, 1, rfl, hcovers, hframes, fun i hi => ?_⟩
    exact Or.inl (by omega)
  | mapPhysicalLowRange physical size options =>
    obtain ⟨m', t', hcall, hextended, hlow, -, hframes⟩ :=
      h.mapPhysicalLowRange hroom hkept physical options
    refine ⟨_, m', t', hcall, hextended, _, pageCount size, rfl, hcovers, hframes, fun i hi => ?_⟩
    exact Or.inl (by omega)
  | mapPhysicalHigh physical options =>
    obtain ⟨m', t', hcall, hextended, hframes, -, hhigh, -⟩ :=
      h.highPage_spec hroom hkept physical options
    have hnext : 1 ≤ r.mapping.highPage := hkept.1
    refine ⟨_, m', t', hcall, hextended, _, 1, rfl, hcovers, hframes, fun i hi => ?_⟩
    exact Or.inr (by omega)
  | mapPhysicalHighRange physical size options =>
    obtain ⟨m', t', hcall, hextended, -, hhigh, hframes⟩ :=
      h.mapPhysicalHighRange hroom hkept physical options
    have hnext : pageCount size ≤ r.mapping.highPage := hkept.1
    refine ⟨_, m', t', hcall, hextended, _, pageCount size, rfl, hcovers, hframes, fun i hi => ?_⟩
    exact Or.inr (by omega)

/-! ## Runs -/

/-- The ranges that were mapped are held. -/
def Holding (r : Run) (t : TwoLevel TableEntry) : Prop :=
  Paged r.mapping t ∧ ∀ a ∈ r.mapped, ∃ page pages, Held r.mapping t a page pages

theorem holding_new (pool : TablePool) (tables : ℕ → ℕ → TableEntry) :
    Holding (Run.new pool tables) ⟨fun _ => none, tables⟩ :=
  ⟨paged_new pool tables, fun _ ha => absurd ha List.not_mem_nil⟩

theorem Holding.faithful {r : Run} (h : Holding r t) : Faithful r := by
  intro a ha
  obtain ⟨page, pages, hheld⟩ := h.2 a ha
  exact hheld.translated h.1

/-- **The step lemma.** -/
theorem Holding.step {r : Run} {op : Op} (h : Holding r t) (hroom : Room r op)
    (hkept : Kept r op) : (∃ t', Holding (step r op) t') ∧ Returns r op := by
  obtain ⟨virtualAddress, m', t', hcall, hextended, hnew⟩ := h.1.call hroom hkept
  unfold Mmu.step Returns
  rw [hcall]
  refine ⟨⟨t', hextended.paged, fun a ha => ?_⟩, by simp⟩
  rcases List.mem_cons.1 ha with rfl | ha
  · exact hnew
  · obtain ⟨page, pages, hheld⟩ := h.2 a ha
    exact ⟨page, pages, hextended.held hheld⟩

/-- **In every state of a run** that exhausts neither tables nor pages, in
which every range ends in a page that is mapped for it and no call begins
a table that the other cursor has begun, every range that was mapped is
translated; and every call returns. -/
theorem translated_run (pool : TablePool) (tables : ℕ → ℕ → TableEntry) (ops : List Op)
    (hroom : Along step Room (Run.new pool tables) ops)
    (hkept : Along step Kept (Run.new pool tables) ops) :
    Throughout step Faithful (Run.new pool tables) ops ∧
      Along step Returns (Run.new pool tables) ops := by
  have hnew : ∃ t, Holding (Run.new pool tables) t := ⟨_, holding_new pool tables⟩
  have hstep : ∀ r op, (∃ t, Holding r t) → Room r op ∧ Kept r op → ∃ t, Holding (step r op) t :=
    fun r op ⟨t, h⟩ hop => (h.step hop.1 hop.2).1
  constructor
  · exact throughout_of_invariant (hroom.and hkept) hnew hstep fun r ⟨t, h⟩ => h.faithful
  · exact along_of_invariant (hroom.and hkept) hnew hstep
      fun r op ⟨t, h⟩ hop => (h.step hop.1 hop.2).2

theorem fourTables_fits : 0x200000 + 4 * 4096 ≤ 2 ^ 32 := by decide

/-- Four tables after the first two megabytes. -/
def fourTables : TablePool := ⟨0x200000, 4, rfl, fourTables_fits⟩

/-- Pages and ranges from both ends, aligned and not. -/
theorem translated_run_mixed :
    Throughout step Faithful (Run.new fourTables fun _ _ => default)
        [.mapPhysicalLowRange 0x0 0x3000 {}, .mapPhysicalHigh 0x7123 {},
          .mapPhysicalHighRange 0x1ffe 2 {}, .mapPhysicalLow 0xb8000 { isUserspace := true },
          .mapPhysicalHighRange 0x5800 0x1800 {}] ∧
      Along step Returns (Run.new fourTables fun _ _ => default)
        [.mapPhysicalLowRange 0x0 0x3000 {}, .mapPhysicalHigh 0x7123 {},
          .mapPhysicalHighRange 0x1ffe 2 {}, .mapPhysicalLow 0xb8000 { isUserspace := true },
          .mapPhysicalHighRange 0x5800 0x1800 {}] :=
  translated_run fourTables _ _ (by decide +kernel) (by decide +kernel)

/-- **Two bytes across the end of a page get one page**: the second is
read from the page that was mapped before. -/
theorem translated_run_broken :
    Along step Room (Run.new fourTables fun _ _ => default)
        [.mapPhysicalHigh 0x5000 {}, .mapPhysicalHighRange 0x1fff 2 {}] ∧
      ¬ Throughout step Faithful (Run.new fourTables fun _ _ => default)
        [.mapPhysicalHigh 0x5000 {}, .mapPhysicalHighRange 0x1fff 2 {}] := by
  refine ⟨by decide +kernel, fun h => ?_⟩
  have hrange := h.last ⟨0xffffdfff, 0x1fff, 2⟩ (by decide +kernel) 1 (by decide)
  exact absurd hrange (by decide +kernel)

end Mmu

end Uberos

/-!
## What is read of a range

A range mapped at the high cursor, and what is then read of its addresses,
whatever the other cursor has begun: a table the high cursor writes in is one
it has begun itself or one that stands in its place, and no page above it is
written. What the range has past the pages of its size is read in the page that
was handed out last.
-/

namespace Uberos

namespace Mmu

open Library Mapping

/-- **An address reads as this**: it is translated to the physical address,
and its page has the caching. -/
structure Reads (m : Mapping) (virtualAddress physical : ℕ) (caching : Caching) : Prop where
  physical : m.getPhysical virtualAddress = some physical
  caching : ∃ options, m.getVirtualOptions virtualAddress = some (.ok options) ∧
    options.caching = caching

/-- **What a range has past its pages was there already**: the page handed out
last, if there was one, holds it. -/
def Continues (m : Mapping) (start size : ℕ) (caching : Caching) : Prop :=
  ∀ k < size, 4096 * pageCount size ≤ start % 4096 + k →
    m.highPage ≠ 2 ^ 20 - 2 ∧
      Reads m ((m.highPage + 1 - pageCount size) * 4096 + start % 4096 + k) (start + k) caching

variable {m m' m'' : Mapping} {t t' t'' : TwoLevel TableEntry}
variable {page pages frame physical start size virtualAddress : ℕ} {options : MapOptions}
variable {caching : Caching} {isFirstTable checked : Bool} {entry : TableEntry}

/-! ## Reading in the tables -/

namespace Mapping

/-- Both are read of the entry of the page. -/
theorem Tabled.readsPage_iff (h : Tabled m t) (hvirtual : virtualAddress < 2 ^ 32) :
    Reads m virtualAddress physical caching ↔
      ∃ entry, t.lookup 1024 (virtualAddress / 4096) = some entry ∧ entry.isPresent = true ∧
        (entry.getAddress + virtualAddress % 4096) % 2 ^ 32 = physical ∧
          entry.getOptions.caching = caching := by
  have hpage : virtualAddress / 4096 < 2 ^ 20 := by omega
  cases hentry : t.lookup 1024 (virtualAddress / 4096) with
  | none =>
    constructor
    · intro hreads
      have hslot := TwoLevel.lookup_eq_none_iff.1 hentry
      have hphysical := hreads.physical
      have htable : m.toVirtual (m.directory (directoryIndex virtualAddress)).getTable = none := by
        rw [directoryIndex_eq hpage rfl, h.toVirtual_eq, hslot]
      unfold directoryIndex at htable
      simp only [getPhysical, htable, Option.bind_eq_bind, Option.bind_none] at hphysical
      cases hphysical
    · rintro ⟨entry, hcon, -⟩
      cases hcon
  | some entry =>
    have hphysical := h.getPhysical hvirtual hentry
    have hoptions := h.getVirtualOptions_eq hpage rfl hentry
    constructor
    · intro hreads
      refine ⟨entry, rfl, ?_⟩
      obtain ⟨read, hread, hcaching⟩ := hreads.caching
      rw [hoptions] at hread
      split at hread
      · rename_i hpresent
        rw [Option.some.injEq, Except.ok.injEq] at hread
        have hsame := hreads.physical
        rw [hphysical, Option.some.injEq] at hsame
        exact ⟨hpresent, hsame, hread ▸ hcaching⟩
      · cases hread
    · rintro ⟨found, heq, hpresent, haddress, hcaching⟩
      obtain rfl := Option.some.inj heq
      rw [if_pos hpresent] at hoptions
      exact ⟨haddress ▸ hphysical, _, hoptions, hcaching⟩

/-! ## Writing a page -/

/-- **A page was put in a table**, which is begun for it where it is the first,
and then has no other page. -/
structure Put (m : Mapping) (t : TwoLevel TableEntry) (page : ℕ) (entry : TableEntry)
    (isFirstTable : Bool) (m' : Mapping) (t' : TwoLevel TableEntry) : Prop extends
    Tabled m' t' where
  self : t'.lookup 1024 page = some entry
  slots : ∀ d, t.slot d ≠ none → t'.slot d ≠ none
  others : ∀ q ≠ page, ¬(isFirstTable = true ∧ q / 1024 = page / 1024) →
    t'.lookup 1024 q = t.lookup 1024 q
  dropped : isFirstTable = true → ∀ q ≠ page, q / 1024 = page / 1024 →
    ∀ entry, t'.lookup 1024 q = some entry → entry.isPresent = false
  highPage : m'.highPage = m.highPage

/-- A page whose table is there. -/
theorem Tabled.put (h : Tabled m t) {s : ℕ} (hslot : t.slot (page / 1024) = some s)
    (physical : ℕ) (options : MapOptions) :
    Put m t page (pageEntry physical options) false
      (m.setEntry (page / 1024) s (page % 1024) physical options)
      (t.write s (page % 1024) (pageEntry physical options)) where
  toTabled := h.write _ rfl rfl rfl (setEntry_getTable m _ _ _ _ _) h.lowTable h.highTable
  self := TwoLevel.lookup_write_self hslot
  slots d hd := hd
  others q hq _ := h.distinct.lookup_write hslot hq
  dropped hcon := by cases hcon
  highPage := rfl

/-- A page whose table is begun. -/
theorem Tabled.put_begin (h : Tabled m t) (hroom : m.nextTableIndex < m.pool.tablesCount)
    (page physical : ℕ) (options : MapOptions) :
    Put m t page (pageEntry physical options) true
      ((m.startTable (page / 1024)).setEntry (page / 1024) m.nextTableIndex (page % 1024)
        physical options)
      ((t.install (page / 1024) m.nextTableIndex m.cleared).write m.nextTableIndex (page % 1024)
        (pageEntry physical options)) := by
  have hstart := h.startTable hroom (page / 1024)
  have hslot : (t.install (page / 1024) m.nextTableIndex m.cleared).slot (page / 1024) =
      some m.nextTableIndex := TwoLevel.install_slot_self _
  have hput := hstart.put hslot physical options
  refine ⟨hput.toTabled, hput.self, fun d hd => ?_, fun q hq hother => ?_,
    fun _ q hq hsame entry hentry => ?_, rfl⟩
  · by_cases hsame : d = page / 1024
    · rw [hsame, TwoLevel.write_slot, hslot]
      exact Option.some_ne_none _
    · rwa [TwoLevel.write_slot, TwoLevel.install_slot_of_ne _ hsame]
  · rw [hput.others q hq fun hcon => Bool.false_ne_true hcon.1,
      TwoLevel.lookup_install_of_ne h.toKeeps.next_fresh _ fun hsame => hother ⟨rfl, hsame⟩]
  · rw [hput.others q hq (fun hcon => Bool.false_ne_true hcon.1),
      TwoLevel.lookup_install_self _ hsame, Option.some.injEq] at hentry
    rw [← hentry]
    rfl

/-- **A call that returns has put its page.** -/
theorem Tabled.put_of_mapPage (h : Tabled m t) (hpage : page < 2 ^ 20)
    (hcall : m.mapPage (page / 1024) (page % 1024) isFirstTable checked physical options =
      some (virtualAddress, m')) :
    virtualAddress = page * 4096 + physical % 4096 ∧
      ∃ t', Put m t page (pageEntry physical options) isFirstTable m' t' := by
  obtain ⟨m₁, table, hbegin, htable, hvirtual, rfl⟩ := eq_of_mapPage hcall
  rw [virtualAddress_eq hpage] at hvirtual
  refine ⟨hvirtual, ?_⟩
  rw [← pageEntry_aligned physical options]
  cases isFirstTable with
  | false =>
    obtain rfl : m = m₁ := Option.some.inj hbegin
    exact ⟨_, h.put (h.toVirtual_eq _ ▸ htable) (physical - physical % 4096) options⟩
  | true =>
    rw [if_pos rfl, beginTable] at hbegin
    split at hbegin
    · cases hbegin
    · split at hbegin
      · cases hbegin
      · rename_i hroom
        obtain rfl := Option.some.inj hbegin
        have hstart := h.startTable (not_not.1 hroom) (page / 1024)
        have hnext : m.nextTableIndex = table := by
          rw [hstart.toVirtual_eq, TwoLevel.install_slot_self] at htable
          exact Option.some.inj htable
        subst hnext
        exact ⟨_, h.put_begin (not_not.1 hroom) page (physical - physical % 4096) options⟩

/-! ## The high cursor's next page -/

/-- **The high cursor has a table to write in**, unless it begins one, and is
in the directory or has left it. -/
structure Ready (m : Mapping) (t : TwoLevel TableEntry) : Prop extends Tabled m t where
  high : m.highPage < 2 ^ 20 - 1 ∨ 2 ^ 20 ≤ m.highPage
  begun : ¬FirstHigh m.highPage → t.slot (m.highPage / 1024) ≠ none

/-- An entry of a new directory names no table. -/
theorem getTable_default : (default : DirectoryEntry).getTable = 0 := by
  have haddress : (default : DirectoryEntry).address = 0 := rfl
  rw [DirectoryEntry.getTable, haddress, Nat.zero_shiftLeft, Nat.zero_mod]

theorem ready_new (pool : TablePool) (hheap : 0 < pool.tablesPhysical)
    (tables : ℕ → ℕ → TableEntry) : Ready (new pool tables) ⟨fun _ => none, tables⟩ where
  toKeeps := (paged_new pool tables).toKeeps
  heap := hheap
  unnamed _ _ := getTable_default
  lowTable := (paged_new pool tables).lowTable
  highTable := (paged_new pool tables).highTable
  high := by
    rw [highPage_new]
    omega
  begun hfirst := by
    rw [highPage_new] at hfirst
    exact absurd (Or.inr rfl) hfirst

/-- Where the high cursor goes from a page. -/
theorem highPage_advanceHigh (hhigh : m.nextHighTableIndex < 1024) (hpage : m.highPage < 2 ^ 20) :
    (m.highPage = 0 → m.advanceHigh.highPage = 2 ^ 26 - 1) ∧
      (m.highPage ≠ 0 → m.advanceHigh.highPage = m.highPage - 1) := by
  simp only [highPage] at hpage ⊢
  unfold advanceHigh
  split
  · rename_i hlast
    simp only [prepEntry]
    omega
  · rename_i hbefore
    simp only
    omega

/-- The low cursor's moves are not the high one's. -/
theorem highPage_advanceLow : m.advanceLow.highPage = m.highPage := by
  unfold advanceLow
  split <;> rfl

theorem Tabled.isFirstHighTable_iff (h : Tabled m t) :
    m.isFirstHighTable = true ↔ FirstHigh m.highPage := by
  have hhigh := h.highTable
  unfold isFirstHighTable FirstHigh highPage
  rw [decide_eq_true_eq]
  omega

/-- **A page at the high cursor is put there**, and the cursor has a table for
the next. -/
theorem Ready.mapPhysicalHigh (h : Ready m t) (hpage : m.highPage < 2 ^ 20)
    (hcall : m.mapPhysicalHigh physical options = some (virtualAddress, m')) :
    virtualAddress = m.highPage * 4096 + physical % 4096 ∧
      ((m.highPage = 0 → m'.highPage = 2 ^ 26 - 1) ∧
          (m.highPage ≠ 0 → m'.highPage = m.highPage - 1)) ∧
        ∃ t', Ready m' t' ∧ t'.lookup 1024 m.highPage = some (pageEntry physical options) ∧
          (∀ q, m.highPage < q → m.highPage ≠ 2 ^ 20 - 2 → t'.lookup 1024 q = t.lookup 1024 q) ∧
            (m.highPage = 2 ^ 20 - 2 → ∀ entry, t'.lookup 1024 (2 ^ 20 - 1) = some entry →
              entry.isPresent = false) := by
  have hop : PageOp.call ⟨.high, physical, options⟩ m = some (virtualAddress, m') := hcall
  obtain ⟨m₁, isFirstTable, checked, hfirst, hmap, rfl⟩ :=
    Permissions.mapPage_of_call h.lowTable h.highTable hop
  have hfirst : isFirstTable = true ↔ FirstHigh m.highPage :=
    hfirst.trans h.isFirstHighTable_iff
  have hmap : m.mapPage (m.highPage / 1024) (m.highPage % 1024) isFirstTable checked physical
      options = some (virtualAddress, m₁) := hmap
  obtain ⟨hvirtual, t', hput⟩ := h.toTabled.put_of_mapPage hpage hmap
  have hmoved := highPage_advanceHigh hput.highTable (by rw [hput.highPage]; exact hpage)
  rw [hput.highPage] at hmoved
  obtain ⟨hround, hnext⟩ := hmoved
  have hhigh := h.high
  refine ⟨hvirtual, ⟨hround, hnext⟩, t', ⟨(hput.toTabled.advance .high).1, ?_, fun hnot => ?_⟩,
    hput.self, fun q hq htop => hput.others q (by omega) ?_, fun htop => ?_⟩
  · simp only [Mapping.advance]
    omega
  · -- the next page is in the table of this one unless it begins its own
    simp only [Mapping.advance] at hnot ⊢
    have hsame : m₁.advanceHigh.highPage / 1024 = m.highPage / 1024 := by
      unfold FirstHigh at hnot
      omega
    intro hnone
    have hself := hput.self
    rw [hsame] at hnone
    rw [TwoLevel.lookup_eq_none_iff.2 hnone] at hself
    cases hself
  · -- a table that is begun holds no page above the one it is begun at
    rintro ⟨hbegins, hsame⟩
    have hends := hfirst.1 hbegins
    unfold FirstHigh at hends
    omega
  · have hends : FirstHigh m.highPage := Or.inr htop
    exact hput.dropped (hfirst.2 hends) (2 ^ 20 - 1) (by omega) (by omega)

/-! ## A range -/

/-- A page holds a frame with its options. -/
def Holds (t : TwoLevel TableEntry) (page frame : ℕ) (options : MapOptions) : Prop :=
  ∃ entry, t.lookup 1024 page = some entry ∧ entry.isPresent = true ∧
    entry.getAddress = frame % 2 ^ 20 * 4096 ∧ entry.getOptions.caching = options.caching

theorem holds_pageEntry (hentry : t.lookup 1024 page = some (pageEntry physical options)) :
    Holds t page (physical / 4096) options := by
  refine ⟨_, hentry, rfl, pageEntry_getAddress physical options, ?_⟩
  rw [getOptions_pageEntry]

theorem Holds.congr {frame' : ℕ} (h : Holds t page frame options)
    (hframe : frame % 2 ^ 20 = frame' % 2 ^ 20) : Holds t page frame' options := by
  obtain ⟨entry, hentry, hpresent, haddress, hcaching⟩ := h
  exact ⟨entry, hentry, hpresent, hframe ▸ haddress, hcaching⟩

/-- **The pages of a range at the high cursor**, each put below the one before.
Those above are as they were; above the first of all there is none. -/
theorem Ready.mapPhysicalHighPages (h : Ready m t) (frame : ℕ)
    (hroom : pages = 0 ∨ m.highPage < 2 ^ 20 ∧ pages ≤ m.highPage + 1)
    (hframe : (frame + pages) % 2 ^ 20 = (physical / 4096 + 1) % 2 ^ 20) {first : ℕ}
    (hcall : Mapping.mapPhysicalHighPages options pages first m physical =
      some (virtualAddress, m')) :
    virtualAddress = (if pages = 0 then first
        else (m.highPage + 1 - pages) * 4096 + physical % 4096) ∧
      ∃ t', Ready m' t' ∧
        (∀ i < pages, Holds t' (m.highPage + 1 - pages + i) (frame + i) options) ∧
          (∀ q, (pages ≠ 0 → m.highPage < q ∧ m.highPage ≠ 2 ^ 20 - 2) →
            t'.lookup 1024 q = t.lookup 1024 q) ∧
              (pages ≠ 0 → m.highPage = 2 ^ 20 - 2 → ∀ entry,
                t'.lookup 1024 (2 ^ 20 - 1) = some entry → entry.isPresent = false) := by
  induction pages generalizing m t physical first with
  | zero =>
    rw [Mapping.mapPhysicalHighPages, Option.some.injEq, Prod.mk.injEq] at hcall
    obtain ⟨rfl, rfl⟩ := hcall
    exact ⟨(if_pos rfl).symm, t, h, fun i hi => absurd hi (Nat.not_lt_zero i), fun _ _ => rfl,
      fun hcon => absurd rfl hcon⟩
  | succ pages ih =>
    have hhigh := h.high
    obtain ⟨hpage, hroom⟩ := hroom.resolve_left (Nat.succ_ne_zero pages)
    obtain ⟨⟨address, m₁⟩, hone, hrest⟩ := Option.bind_eq_some_iff.1 hcall
    obtain ⟨haddress, ⟨-, hnext⟩, t₁, hready, hself, habove, htop⟩ := h.mapPhysicalHigh hpage hone
    have hbelow : pages ≠ 0 → m₁.highPage = m.highPage - 1 := fun hpages => hnext (by omega)
    obtain ⟨hvirtual, t', hready', hholds, habove', -⟩ := ih hready
      (by
        by_cases hpages : pages = 0
        · exact Or.inl hpages
        · have hstands := hbelow hpages
          omega)
      (by omega) hrest
    -- the page just put stays, and so do those above it
    have hkept : ∀ q, m.highPage ≤ q → t'.lookup 1024 q = t₁.lookup 1024 q := by
      intro q hq
      refine habove' q fun hpages => ?_
      have hstands := hbelow hpages
      omega
    refine ⟨?_, t', hready', fun i hi => ?_, fun q hq => ?_, fun _ hend => ?_⟩
    · rw [hvirtual, if_neg (Nat.succ_ne_zero pages), haddress]
      split
      · rename_i hpages
        rw [hpages, Nat.zero_add, Nat.add_sub_cancel]
      · rename_i hpages
        have hstands := hbelow hpages
        omega
    · by_cases hlast : i = pages
      · have hstands : m.highPage + 1 - (pages + 1) + i = m.highPage := by omega
        rw [hstands, Holds, hkept _ le_rfl]
        exact (holds_pageEntry hself).congr (by omega)
      · have hstands := hbelow (by omega)
        have hheld := hholds i (by omega)
        have hsame : m₁.highPage + 1 - pages = m.highPage + 1 - (pages + 1) := by omega
        rwa [hsame] at hheld
    · obtain ⟨hlt, hne⟩ := hq (Nat.succ_ne_zero pages)
      rw [hkept q hlt.le, habove q hlt hne]
    · rw [hkept _ (by omega)]
      exact htop hend

/-- The call for a range is the loop over its pages, from the last. -/
theorem mapPhysicalHighRange_eq (hroom : pageCount size < 2 ^ 20) (start : ℕ) :
    m.mapPhysicalHighRange start size options =
      Mapping.mapPhysicalHighPages options (pageCount size) 0 m
        ((start + (pageCount size + 2 ^ 32 - 1) * 4096) % 2 ^ 32) := by
  have hpages : (((if size < 1 then 1 else size) + 4095) % 2 ^ 32) / 4096 = pageCount size := by
    unfold pageCount at hroom ⊢
    split <;> omega
  unfold Mapping.mapPhysicalHighRange
  simp only [hpages]

/-- What is held is read, at every address of the page. -/
theorem Holds.reads (h : Holds t page frame options) (htabled : Tabled m t)
    (hvirtual : virtualAddress < 2 ^ 32) (hpage : virtualAddress / 4096 = page)
    (hphysical : physical < 2 ^ 32) (hframe : physical / 4096 = frame)
    (hoffset : virtualAddress % 4096 = physical % 4096) :
    Reads m virtualAddress physical options.caching := by
  obtain ⟨entry, hentry, hpresent, haddress, hcaching⟩ := h
  refine (htabled.readsPage_iff hvirtual).2 ⟨entry, hpage ▸ hentry, hpresent, ?_, hcaching⟩
  rw [haddress]
  omega

/-- **A range at the high cursor is read all through** exactly when what it has
past its pages is, in the page handed out last. -/
theorem Ready.reads_mapPhysicalHighRange (h : Ready m t) (hpage : m.highPage < 2 ^ 20)
    (hroom : pageCount size ≤ m.highPage + 1) (hwrap : start + size ≤ 2 ^ 32)
    (hcall : m.mapPhysicalHighRange start size options = some (virtualAddress, m')) :
    (∃ t', Ready m' t') ∧
      ((∀ k < size, Reads m' (virtualAddress + k) (start + k) options.caching) ↔
        Continues m start size options.caching) := by
  have hhigh := h.high
  have hone : pageCount size ≠ 0 := by
    unfold pageCount
    omega
  rw [mapPhysicalHighRange_eq (by omega)] at hcall
  obtain ⟨hvirtual, t', hready, hholds, habove, htop⟩ :=
    h.mapPhysicalHighPages (start / 4096) (Or.inr ⟨hpage, hroom⟩) (by omega) hcall
  rw [if_neg hone] at hvirtual
  have hlast : start % 4096 + size ≤ 4096 * pageCount size + 4095 := by
    unfold pageCount
    omega
  have haddress : virtualAddress =
      (m.highPage + 1 - pageCount size) * 4096 + start % 4096 := by omega
  subst haddress
  -- a byte of the pages of the size is read, and one past them as it was before
  have hwithin : ∀ k < size, start % 4096 + k < 4096 * pageCount size →
      Reads m' ((m.highPage + 1 - pageCount size) * 4096 + start % 4096 + k) (start + k)
        options.caching := fun k hk hin =>
    (hholds ((start % 4096 + k) / 4096) (by omega)).reads hready.toTabled (by omega) (by omega)
      (by omega) (by omega) (by omega)
  have hpast : ∀ k < size, 4096 * pageCount size ≤ start % 4096 + k →
      (Reads m' ((m.highPage + 1 - pageCount size) * 4096 + start % 4096 + k) (start + k)
          options.caching ↔
        m.highPage ≠ 2 ^ 20 - 2 ∧
          Reads m ((m.highPage + 1 - pageCount size) * 4096 + start % 4096 + k) (start + k)
            options.caching) := by
    intro k hk hout
    have hpast : ((m.highPage + 1 - pageCount size) * 4096 + start % 4096 + k) / 4096 =
        m.highPage + 1 := by omega
    rw [hready.readsPage_iff (by omega), h.readsPage_iff (by omega), hpast]
    by_cases hend : m.highPage = 2 ^ 20 - 2
    · refine iff_of_false (fun ⟨entry, hentry, hpresent, _⟩ => ?_) fun hcon => hcon.1 hend
      have hsum : m.highPage + 1 = 2 ^ 20 - 1 := by omega
      have habsent := htop hone hend entry (hsum ▸ hentry)
      rw [hpresent] at habsent
      cases habsent
    · rw [habove _ fun _ => ⟨Nat.lt_succ_self _, hend⟩, and_iff_right hend]
  refine ⟨⟨t', hready⟩, fun hreads k hk hout => (hpast k hk hout).1 (hreads k hk), ?_⟩
  intro hcontinues k hk
  rcases Nat.lt_or_ge (start % 4096 + k) (4096 * pageCount size) with hin | hout
  · exact hwithin k hk hin
  · exact (hpast k hk hout).2 (hcontinues k hk hout)

/-! ## A page at either cursor -/

/-- **Whatever page is mapped**, the high cursor still has its table. -/
theorem Ready.call {op : PageOp} (h : Ready m t)
    (hpage : Permissions.pageAt m op.cursor < 2 ^ 20)
    (hcall : op.call m = some (virtualAddress, m')) : ∃ t', Ready m' t' := by
  obtain ⟨cursor, physical, options⟩ := op
  cases cursor with
  | high =>
    obtain ⟨-, -, t', hready, -⟩ := h.mapPhysicalHigh hpage hcall
    exact ⟨t', hready⟩
  | low =>
    obtain ⟨m₁, isFirstTable, checked, -, hmap, rfl⟩ :=
      Permissions.mapPage_of_call h.lowTable h.highTable hcall
    obtain ⟨-, t', hput⟩ := h.toTabled.put_of_mapPage hpage hmap
    have hstays : (m₁.advance .low).highPage = m.highPage :=
      highPage_advanceLow.trans hput.highPage
    refine ⟨t', (hput.toTabled.advance .low).1, ?_, fun hnot => ?_⟩
    · rw [hstays]
      exact h.high
    · rw [hstays] at hnot ⊢
      exact hput.slots _ (h.begun hnot)

end Mapping

end Mmu

end Uberos
