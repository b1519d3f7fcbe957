import Uberos.Mmu.Options
/-!
# The access the hardware grants

Pages are mapped at either end and given other options later, in any
order. The access to a page is what its last options say while its
directory entry covers them: where an option is set that the entry does
not cover, the hardware keeps to the entry, as nothing widens it then; and
a cursor that comes to an entry in which the other has pages takes back
what it covers, and drops the pages with the first it maps there. Ranged
calls are calls for each page of the range.
-/

namespace Uberos

namespace Mmu

open Library Mapping

/-- A call for a page. -/
inductive PermissionOp
  | mapPhysical (op : PageOp)
  | setVirtualOptions (virtualAddress : ℕ) (options : MapOptions)
  deriving DecidableEq, Repr

/-- A mapping, and the options last given for each page that is mapped. -/
structure Permissions where
  mapping : Mapping
  given : ℕ → Option MapOptions

namespace Permissions

/-- No page is mapped. -/
def new (pool : TablePool) (tables : ℕ → ℕ → TableEntry) : Permissions :=
  ⟨Mapping.new pool tables, fun _ => none⟩

/-- The page an address is in, of 32 bits. -/
def pageOf (virtualAddress : ℕ) : ℕ := virtualAddress / 4096 % 2 ^ 20

/-- One call, unless it does not return. -/
def step (s : Permissions) : PermissionOp → Permissions
  | .mapPhysical op =>
    match op.call s.mapping with
    | some (virtualAddress, m) =>
      ⟨m, Function.update s.given (virtualAddress / 4096) (some op.options)⟩
    | none => s
  | .setVirtualOptions virtualAddress options =>
    match s.mapping.setVirtualOptions virtualAddress options with
    | some m =>
      ⟨m, if (s.given (pageOf virtualAddress)).isSome then
        Function.update s.given (pageOf virtualAddress) (some options) else s.given⟩
    | none => s

/-! ## What it is for -/

/-- **The options last given for a page are in effect**, of every page
that is mapped. -/
def Enforced (s : Permissions) : Prop :=
  ∀ page options, s.given page = some options → s.mapping.Effective page options

/-- The page a cursor stands at. -/
def pageAt (m : Mapping) : Cursor → ℕ
  | .low => m.lowPage
  | .high => m.highPage

/-- The cursor is in the directory, and no assertion fails. -/
def Returns (s : Permissions) : PermissionOp → Prop
  | .mapPhysical op => pageAt s.mapping op.cursor < 2 ^ 20 ∧ (op.call s.mapping).isSome = true
  | .setVirtualOptions virtualAddress options =>
    (s.mapping.setVirtualOptions virtualAddress options).isSome = true

/-- **A page is mapped at no other's expense**: where its table is begun
no other page of the directory entry is mapped, and none that grants
anything in the entry the cursor then comes to. **Options that are set for
a mapped page** are covered by its directory entry. -/
def Granted (s : Permissions) : PermissionOp → Prop
  | .mapPhysical op =>
    (Begins s.mapping op.cursor → ∀ page options, s.given page = some options →
      page / 1024 = pageAt s.mapping op.cursor / 1024 → page = pageAt s.mapping op.cursor) ∧
    ∀ d ∈ comesTo s.mapping op.cursor, ∀ page options, s.given page = some options →
      page / 1024 = d → options.isWritable = false ∧ options.isUserspace = false
  | .setVirtualOptions virtualAddress options =>
    (s.given (pageOf virtualAddress)).isSome = true →
      Covers (s.mapping.directory (pageOf virtualAddress / 1024)) options

instance (s : Permissions) : ∀ op, Decidable (Returns s op)
  | .mapPhysical op =>
    inferInstanceAs (Decidable (pageAt s.mapping op.cursor < 2 ^ 20 ∧ _ = true))
  | .setVirtualOptions _ _ => inferInstanceAs (Decidable (_ = true))

variable {s : Permissions} {op : PageOp} {m m' m'' : Mapping} {t : TwoLevel TableEntry}
variable {virtualAddress : ℕ} {options : MapOptions}

/-! ## Ranges -/

/-- Calls for pages take one mapping to the other. -/
def Reaches (m m' : Mapping) : Prop :=
  ∀ given, ∃ ops, (run step ⟨m, given⟩ ops).mapping = m'

theorem Reaches.refl (m : Mapping) : Reaches m m := fun _ => ⟨[], rfl⟩

theorem Reaches.trans (h : Reaches m m') (h' : Reaches m' m'') : Reaches m m'' := by
  intro given
  obtain ⟨ops, rfl⟩ := h given
  obtain ⟨ops', hops'⟩ := h' (run step ⟨m, given⟩ ops).given
  exact ⟨ops ++ ops', by rw [run_append]; exact hops'⟩

theorem Reaches.mapPhysical (hcall : op.call m = some (virtualAddress, m')) : Reaches m m' := by
  intro given
  exact ⟨[.mapPhysical op], by simp only [run_cons, run_nil, step, hcall]⟩

theorem Reaches.setVirtualOptions (hcall : m.setVirtualOptions virtualAddress options = some m') :
    Reaches m m' := by
  intro given
  exact ⟨[.setVirtualOptions virtualAddress options], by
    simp only [run_cons, run_nil, step, hcall]⟩

theorem reaches_mapPhysicalLowRest {physical size : ℕ}
    (hcall : mapPhysicalLowRest options m physical size = some m') : Reaches m m' := by
  induction size using Nat.strong_induction_on generalizing m physical with
  | _ size ih =>
    rw [mapPhysicalLowRest] at hcall
    split at hcall
    · obtain ⟨⟨address, m₁⟩, hpage, hrest⟩ := Option.bind_eq_some_iff.1 hcall
      have hcall : PageOp.call ⟨.low, (physical + 4096) % 2 ^ 32, options⟩ m = some (address, m₁) :=
        hpage
      exact (Reaches.mapPhysical hcall).trans (ih (size - 4096) (by omega) hrest)
    · exact Option.some.inj hcall ▸ Reaches.refl m

theorem reaches_mapPhysicalHighPages {pages address physical : ℕ}
    (hcall : mapPhysicalHighPages options pages address m physical = some (virtualAddress, m')) :
    Reaches m m' := by
  induction pages generalizing m address physical with
  | zero =>
    rw [mapPhysicalHighPages, Option.some.injEq, Prod.mk.injEq] at hcall
    exact hcall.2 ▸ Reaches.refl m
  | succ pages ih =>
    obtain ⟨⟨address', m₁⟩, hpage, hrest⟩ := Option.bind_eq_some_iff.1 hcall
    have hcall : PageOp.call ⟨.high, physical, options⟩ m = some (address', m₁) := hpage
    exact (Reaches.mapPhysical hcall).trans (ih hrest)

theorem reaches_setVirtualOptionsLoop {stop turns : ℕ}
    (hcall : setVirtualOptionsLoop stop options turns virtualAddress m = some m') :
    Reaches m m' := by
  induction turns generalizing m virtualAddress with
  | zero =>
    rw [setVirtualOptionsLoop] at hcall
    split at hcall
    · cases hcall
    · exact Option.some.inj hcall ▸ Reaches.refl m
  | succ turns ih =>
    rw [setVirtualOptionsLoop] at hcall
    split at hcall
    · obtain ⟨m₁, hpage, hrest⟩ := Option.bind_eq_some_iff.1 hcall
      exact (Reaches.setVirtualOptions hpage).trans (ih hrest)
    · exact Option.some.inj hcall ▸ Reaches.refl m

/-- **A ranged call is calls for pages**: at the low end, -/
theorem reaches_mapPhysicalLowRange {physical size : ℕ}
    (hcall : m.mapPhysicalLowRange physical size options = some (virtualAddress, m')) :
    Reaches m m' := by
  obtain ⟨⟨address, m₁⟩, hpage, hcall⟩ := Option.bind_eq_some_iff.1 hcall
  obtain ⟨m₂, hrest, hcall⟩ := Option.bind_eq_some_iff.1 hcall
  rw [Option.some.injEq, Prod.mk.injEq] at hcall
  obtain ⟨-, rfl⟩ := hcall
  have hfirst : PageOp.call ⟨.low, physical, options⟩ m = some (address, m₁) := hpage
  exact (Reaches.mapPhysical hfirst).trans (reaches_mapPhysicalLowRest hrest)

/-- at the high end, -/
theorem reaches_mapPhysicalHighRange {physical size : ℕ}
    (hcall : m.mapPhysicalHighRange physical size options = some (virtualAddress, m')) :
    Reaches m m' := reaches_mapPhysicalHighPages hcall

/-- and of options. -/
theorem reaches_setVirtualOptionsRange {address size turns : ℕ}
    (hcall : m.setVirtualOptionsRange address size options turns = some m') : Reaches m m' :=
  reaches_setVirtualOptionsLoop hcall

/-! ## The invariant -/

/-- **What is given is shown**, by tables the directory names. -/
def Shown (s : Permissions) : Prop :=
  ∃ t, Tabled s.mapping t ∧ ∀ page options, s.given page = some options →
    page < 2 ^ 20 ∧ Shows s.mapping t page options

theorem Shown.enforced (h : Shown s) : Enforced s := by
  obtain ⟨t, htabled, hshows⟩ := h
  intro page options hgiven
  obtain ⟨hpage, hpageShows⟩ := hshows page options hgiven
  exact (htabled.effective_iff hpage).2 hpageShows

theorem shown_new (pool : TablePool) (hheap : 0 < pool.tablesPhysical)
    (tables : ℕ → ℕ → TableEntry) : Shown (new pool tables) := by
  refine ⟨⟨fun _ => none, tables⟩, ⟨(paged_new pool tables).toKeeps, hheap, fun _ _ => rfl, ?_, ?_⟩,
    fun page options hgiven => by cases hgiven⟩
  · exact (paged_new pool tables).lowTable
  · exact (paged_new pool tables).highTable

/-! ## Calls -/

/-- A page is mapped where the cursor stands, which then moves on. -/
theorem mapPage_of_call (hlow : m.nextLowTableIndex < 1024) (hhigh : m.nextHighTableIndex < 1024)
    (hcall : op.call m = some (virtualAddress, m')) :
    ∃ m₁ isFirstTable checked, (isFirstTable = true ↔ Begins m op.cursor) ∧
      m.mapPage (pageAt m op.cursor / 1024) (pageAt m op.cursor % 1024) isFirstTable checked
        op.physical op.options = some (virtualAddress, m₁) ∧ m' = m₁.advance op.cursor := by
  obtain ⟨cursor, physical, options⟩ := op
  cases cursor with
  | low =>
    have hd : m.lowPage / 1024 = m.nextLowDirectoryIndex := by
      unfold lowPage
      omega
    have hi : m.lowPage % 1024 = m.nextLowTableIndex := by
      unfold lowPage
      omega
    simp only [PageOp.call, mapPhysicalLow, Option.bind_eq_bind, Option.bind_eq_some_iff] at hcall
    obtain ⟨⟨address, m₁⟩, hmap, hcall⟩ := hcall
    rw [Option.some.injEq, Prod.mk.injEq] at hcall
    obtain ⟨rfl, rfl⟩ := hcall
    refine ⟨m₁, m.isFirstLowTable, true, Iff.rfl, ?_, rfl⟩
    rw [pageAt, hd, hi]
    exact hmap
  | high =>
    have hd : m.highPage / 1024 = m.nextHighDirectoryIndex := by
      unfold highPage
      omega
    have hi : m.highPage % 1024 = m.nextHighTableIndex := by
      unfold highPage
      omega
    simp only [PageOp.call, mapPhysicalHigh, Option.bind_eq_bind, Option.bind_eq_some_iff] at hcall
    obtain ⟨⟨address, m₁⟩, hmap, hcall⟩ := hcall
    rw [Option.some.injEq, Prod.mk.injEq] at hcall
    obtain ⟨rfl, rfl⟩ := hcall
    refine ⟨m₁, m.isFirstHighTable, false, Iff.rfl, ?_, rfl⟩
    rw [pageAt, hd, hi]
    exact hmap

/-- A cursor comes to another entry than it is in. -/
theorem ne_of_comesTo {cursor : Cursor} (hpage : pageAt m cursor < 2 ^ 20) :
    comesTo m cursor ≠ some (pageAt m cursor / 1024) := by
  cases cursor with
  | low =>
    rw [pageAt, lowPage] at hpage ⊢
    rw [comesTo]
    split
    · intro hcon
      have heq := Option.some.inj hcon
      omega
    · exact (Option.some_ne_none _).symm
  | high =>
    rw [pageAt, highPage] at hpage ⊢
    rw [comesTo]
    split
    · intro hcon
      have heq := Option.some.inj hcon
      omega
    · exact (Option.some_ne_none _).symm

/-- Where the pages that are given lie in the address space, they are in
effect just where they are shown. -/
theorem enforced_iff (htabled : Tabled s.mapping t)
    (hpages : ∀ page options, s.given page = some options → page < 2 ^ 20) :
    Enforced s ↔ ∀ page options, s.given page = some options →
      Shows s.mapping t page options := by
  constructor
  · intro h page options hgiven
    exact (htabled.effective_iff (hpages page options hgiven)).1 (h page options hgiven)
  · intro h page options hgiven
    exact (htabled.effective_iff (hpages page options hgiven)).2 (h page options hgiven)

/-- **Mapping a page** leaves tables in which what is given is shown
exactly when no other page pays for it. -/
theorem Shown.mapPhysical (h : Shown s) (hreturns : Returns s (.mapPhysical op)) :
    ∃ t, Tabled (s.step (.mapPhysical op)).mapping t ∧
      (∀ page options, (s.step (.mapPhysical op)).given page = some options → page < 2 ^ 20) ∧
      ((∀ page options, (s.step (.mapPhysical op)).given page = some options →
          Shows (s.step (.mapPhysical op)).mapping t page options) ↔
        Granted s (.mapPhysical op)) := by
  obtain ⟨t, htabled, hshows⟩ := h
  obtain ⟨hpage, hsome⟩ := hreturns
  obtain ⟨⟨virtualAddress, m'⟩, hcall⟩ := Option.isSome_iff_exists.1 hsome
  obtain ⟨m₁, isFirstTable, checked, hfirst, hmap, rfl⟩ :=
    mapPage_of_call htabled.lowTable htabled.highTable hcall
  obtain ⟨haddress, hcomes, t', htabled₁, hself, hothers⟩ := htabled.mapPage hpage hmap
  obtain ⟨htabled', hadvanced⟩ := htabled₁.advance op.cursor
  have hstep : s.step (.mapPhysical op) = ⟨m₁.advance op.cursor,
      Function.update s.given (pageAt s.mapping op.cursor) (some op.options)⟩ := by
    rw [step, hcall, ← haddress]
  rw [hstep]
  refine ⟨t', htabled', fun page options hgiven => ?_, fun hall => ⟨?_, ?_⟩, ?_⟩
  · by_cases hsame : page = pageAt s.mapping op.cursor
    · exact hsame ▸ hpage
    · simp only [Function.update_of_ne hsame] at hgiven
      exact (hshows page options hgiven).1
  · -- a table that is begun no longer has the other pages of its entry
    intro hbegins page options hgiven hentry
    by_contra hne
    have hpageShows := hall page options (by simpa only [Function.update_of_ne hne] using hgiven)
    rw [hadvanced, hothers page hne options (hshows page options hgiven).2] at hpageShows
    exact hpageShows.1 ⟨hfirst.2 hbegins, hentry⟩
  · -- the entry the cursor comes to covers nothing
    intro d hd page options hgiven hentry
    have hne : page ≠ pageAt s.mapping op.cursor := by
      intro heq
      rw [← hentry, heq] at hd
      exact ne_of_comesTo hpage hd
    have hpageShows := hall page options (by simpa only [Function.update_of_ne hne] using hgiven)
    rw [hadvanced, hcomes] at hpageShows
    exact hpageShows.2 (hentry ▸ hd)
  · rintro ⟨hbegun, hprepared⟩ page options hgiven
    rw [hadvanced, hcomes]
    by_cases hsame : page = pageAt s.mapping op.cursor
    · subst hsame
      simp only [Function.update_self, Option.some.injEq] at hgiven
      exact ⟨hgiven ▸ hself, fun hcon => absurd hcon (ne_of_comesTo hpage)⟩
    · simp only [Function.update_of_ne hsame] at hgiven
      rw [hothers page hsame options (hshows page options hgiven).2]
      refine ⟨fun hcon => ?_, fun hd => hprepared _ hd page options hgiven rfl⟩
      exact hsame (hbegun (hfirst.1 hcon.1) page options hgiven hcon.2)

/-- **Setting options** does exactly where the directory's entry covers
them, or the page is not mapped. -/
theorem Shown.setVirtualOptions (h : Shown s)
    (hreturns : Returns s (.setVirtualOptions virtualAddress options)) :
    ∃ t, Tabled (s.step (.setVirtualOptions virtualAddress options)).mapping t ∧
      (∀ page options', (s.step (.setVirtualOptions virtualAddress options)).given page =
        some options' → page < 2 ^ 20) ∧
      ((∀ page options', (s.step (.setVirtualOptions virtualAddress options)).given page =
            some options' →
          Shows (s.step (.setVirtualOptions virtualAddress options)).mapping t page options') ↔
        Granted s (.setVirtualOptions virtualAddress options)) := by
  obtain ⟨t, htabled, hshows⟩ := h
  obtain ⟨m', hcall⟩ := Option.isSome_iff_exists.1 hreturns
  obtain ⟨t', htabled', hdirectory, hself, hothers⟩ := htabled.setVirtualOptions hcall rfl
  have hstep : s.step (.setVirtualOptions virtualAddress options) = ⟨m',
      if (s.given (pageOf virtualAddress)).isSome then
        Function.update s.given (pageOf virtualAddress) (some options) else s.given⟩ := by
    rw [step, hcall]
  rw [hstep]
  by_cases hmapped : (s.given (pageOf virtualAddress)).isSome = true
  · obtain ⟨old, hold⟩ := Option.isSome_iff_exists.1 hmapped
    obtain ⟨hpage, hrecorded, -⟩ := hshows _ old hold
    simp only [if_pos hmapped]
    refine ⟨t', htabled', fun page options' hgiven => ?_, fun hall _ => ?_, fun hcovers page options'
      hgiven => ?_⟩
    · by_cases hsame : page = pageOf virtualAddress
      · exact hsame ▸ hpage
      · rw [Function.update_of_ne hsame] at hgiven
        exact (hshows page options' hgiven).1
    · have hpageShows := hall _ options (Function.update_self ..)
      rw [← hdirectory]
      exact hpageShows.2
    · by_cases hsame : page = pageOf virtualAddress
      · subst hsame
        rw [Function.update_self, Option.some.injEq] at hgiven
        subst hgiven
        refine ⟨hself old hrecorded, ?_⟩
        rw [hdirectory]
        exact hcovers hmapped
      · rw [Function.update_of_ne hsame] at hgiven
        exact (hothers page hsame options').2 (hshows page options' hgiven).2
  · -- the page is of no account, and the others are as they were
    simp only [if_neg hmapped]
    refine ⟨t', htabled', fun page options' hgiven => (hshows page options' hgiven).1,
      iff_of_true (fun page options' hgiven => ?_) fun hcon => absurd hcon hmapped⟩
    refine (hothers page (fun hsame => hmapped ?_) options').2 (hshows page options' hgiven).2
    rw [pageOf, ← hsame, hgiven]
    rfl

/-- **A call leaves the options in effect exactly when it is granted.** -/
theorem Shown.enforced_step_iff (h : Shown s) {op : PermissionOp} (hreturns : Returns s op) :
    (Enforced (s.step op) ↔ Granted s op) ∧ (Granted s op → Shown (s.step op)) := by
  obtain ⟨t, htabled, hpages, hiff⟩ : ∃ t, Tabled (s.step op).mapping t ∧
      (∀ page options, (s.step op).given page = some options → page < 2 ^ 20) ∧
      ((∀ page options, (s.step op).given page = some options →
        Shows (s.step op).mapping t page options) ↔ Granted s op) := by
    cases op with
    | mapPhysical op => exact h.mapPhysical hreturns
    | setVirtualOptions virtualAddress options => exact h.setVirtualOptions hreturns
  refine ⟨(enforced_iff htabled hpages).trans hiff, fun hgranted => ⟨t, htabled, ?_⟩⟩
  exact fun page options hgiven => ⟨hpages page options hgiven, hiff.2 hgranted page options hgiven⟩

/-- **In every run whose calls return** the options last given for each
page are in effect in every state exactly when every call is granted. -/
theorem enforced_run_iff (pool : TablePool) (hheap : 0 < pool.tablesPhysical)
    (tables : ℕ → ℕ → TableEntry) (ops : List PermissionOp)
    (hreturns : Along step Returns (new pool tables) ops) :
    Throughout step Enforced (new pool tables) ops ↔
      Along step Granted (new pool tables) ops :=
  throughout_iff_along_of_legal hreturns (shown_new pool hheap tables) (fun _ h => h.enforced)
    (fun _ _ h hreturns => (h.enforced_step_iff hreturns).1)
    fun _ _ h hreturns hgranted => (h.enforced_step_iff hreturns).2 hgranted

/-- Two pages are mapped, one for reading, and the other made so. -/
theorem enforced_run_iff_narrowed :
    Throughout step Enforced (new heapTables fun _ _ => default)
        [.mapPhysical ⟨.low, 0, {}⟩, .mapPhysical ⟨.high, 0x5000, { isWritable := false }⟩,
          .setVirtualOptions 0 { isWritable := false }] ↔
      Along step Granted (new heapTables fun _ _ => default)
        [.mapPhysical ⟨.low, 0, {}⟩, .mapPhysical ⟨.high, 0x5000, { isWritable := false }⟩,
          .setVirtualOptions 0 { isWritable := false }] :=
  enforced_run_iff heapTables (by decide) _ _ (by decide +kernel)

/-- **A page is mapped for reading, and then made writable.** The options
read back say so, and the hardware denies it. -/
theorem not_enforced_run :
    let ops : List PermissionOp := [.mapPhysical ⟨.low, 0, { isWritable := false }⟩,
      .setVirtualOptions 0 {}]
    ¬ Throughout step Enforced (new heapTables fun _ _ => default) ops ∧
      ((run step (new heapTables fun _ _ => default) ops).mapping.getVirtualOptions 0).map
        Except.toOption = some (some { isExecutable := true }) ∧
      (run step (new heapTables fun _ _ => default) ops).mapping.grants 0 = some (false, false) := by
  intro ops
  refine ⟨fun h => ?_, by decide +kernel, by decide +kernel⟩
  have hgrants := (h.last 0 {} (by decide +kernel) 0 (Nat.zero_div 4096)).1
  exact absurd hgrants (by decide +kernel)

end Permissions

end Mmu

end Uberos
