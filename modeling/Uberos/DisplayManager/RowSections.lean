import Uberos.DisplayManager.Sectioned
/-!
# The sections of a whole row

That the loop over a row ends, that its sections are those of the topmost
displays, and just when each is marked transparent where it is.
-/

namespace Uberos

open Relation

variable {Colour : Type} {display : ℕ → ShapedDisplay Colour} {n fuel : ℕ} {x x1 y x2 : ℤ}
variable {s s' : RowScan} {sections : List RowSection}

/-! ## What it is for -/

section

variable (display : ℕ → ShapedDisplay Colour) (n : ℕ) (y x2 : ℤ)

/-- **The sections of a row from `x1` on are those of the topmost
displays**, in order, and leave out no place that is covered. -/
structure IsSectioned (x1 : ℤ) (sections : List RowSection) : Prop where
  sorted : sections.Pairwise fun a b => a.right ≤ b.left
  within : ∀ a ∈ sections, x1 ≤ a.left ∧ a.left ≤ a.right ∧ a.right ≤ x2
  covered : ∀ x, x1 ≤ x → x < x2 → (∃ i < n, (display i).Covers x y) →
    ∃ a ∈ sections, a.left ≤ x ∧ x < a.right
  topmost : ∀ a ∈ sections, ∀ x, a.left ≤ x → x < a.right → IsTopmost display n x y a.display

/-- **A section is marked transparent outside of the solid area** of its
display, and only there. -/
def RowSection.IsMarked (a : RowSection) : Prop :=
  ∀ x, a.left ≤ x → x < a.right → (a.isTransparent = true ↔
    ¬ (display a.display).solidArea.contains (x - (display a.display).x)
      (y - (display a.display).y))

/-- **The row is scanned exactly**: the loop over it ends, with sections
of that kind. -/
def ScansRow (x1 : ℤ) : Prop :=
  ∃ fuel sections, rowSections display n y x2 fuel (rowStart x1) = some sections ∧
    IsSectioned display n y x2 x1 sections ∧ ∀ a ∈ sections, a.IsMarked display y

/-- **The scan goes on to a display further to the right**: none above the
current one is where it is, and of those that start before the section
ends this one starts next. -/
structure RowScan.GoesTo (s : RowScan) (i : ℕ) : Prop where
  free : IsFree display n s.scanX y s.display
  next : IsNext display n s.scanX y s.display i
  before : (display i).left y < foundLeft display s.scanX y x2 s.display
  lt : (display i).left y < x2

/-- One turn leads to the next. -/
def RowScan.Step (s s' : RowScan) : Prop := s.scanX < x2 ∧ s' = s.next display n y x2

/-- **A display that is gone on to has the same mark where the scan is as
where it starts.** -/
def RowScan.IsJudged (s : RowScan) : Prop :=
  ∀ i, s.GoesTo display n y x2 i → (display i).left y < (display i).right y →
    ((display i).sectionAt s.scanX y).2 = ((display i).sectionAt ((display i).left y) y).2

/-- That is so in every turn from a state on. -/
def RowScan.AllJudged (s : RowScan) : Prop :=
  ∀ s', ReflTransGen (RowScan.Step display n y x2) s s' → s'.IsJudged display n y x2

/-- The mark of the current section is right. -/
def RowScan.IsMarked (s : RowScan) : Prop :=
  ∀ c ∈ s.display, s.scanX < (display c).right y →
    s.isTransparent = ((display c).sectionAt s.scanX y).2

end

/-! ## A section -/

/-- What a turn goes past is not covered by what is above the current
display. -/
theorem RowScan.Turns.not_covers (h : s.Turns display n y x2 s') (hx : s.scanX ≤ x)
    (hlt : x < s'.scanX) {j : ℕ} (hj : j < n) (habove : ∀ c ∈ s.display, c < j) :
    ¬ (display j).Covers x y := by
  intro hcovers
  cases h with
  | inside => exact absurd hlt (not_lt.2 hx)
  | nothing hfree hbeyond =>
    obtain ⟨hahead, hle⟩ := hcovers.isAhead hx (hfree j hj habove)
    have hend := hbeyond j hj habove hahead
    dsimp only at hlt
    omega
  | next hfree hnext hlti =>
    obtain ⟨hahead, hle⟩ := hcovers.isAhead hx (hfree j hj habove)
    have hfirst := (hnext.first j hj habove hahead).1
    dsimp only at hlt
    omega

/-- **A section is of the topmost display**, and of one kind. -/
theorem RowScan.Turns.section (h : s.Turns display n y x2 s') (hheld : s.Held display n y)
    (hx2 : s.scanX < x2) {c : ℕ} (hc : c ∈ s.display) (hx : s.scanX ≤ x) (hlt : x < s'.scanX) :
    IsTopmost display n x y c ∧
      ((display c).sectionAt x y).2 = ((display c).sectionAt s.scanX y).2 := by
  rcases (hheld c hc).2.2 with htop | ⟨hleft, hright⟩
  · have hend : x < (display c).sectionEnd s.scanX y x2 := by
      have hfound : foundLeft display s.scanX y x2 s.display =
          (display c).sectionEnd s.scanX y x2 := by rw [Option.mem_def.1 hc]; rfl
      cases h with
      | inside => exact absurd hlt (not_lt.2 hx)
      | nothing =>
        dsimp only at hlt
        omega
      | next hfree hnext hlti =>
        dsimp only at hlt
        omega
    obtain ⟨hvisible, hrow, hleft, -⟩ := htop.covers
    obtain ⟨hsame, hright⟩ := ShapedDisplay.sectionAt_of_lt_end hleft hx hend
    refine ⟨⟨htop.lt, ⟨hvisible, hrow, by omega, hright⟩, fun j hj hcj => ?_⟩, hsame⟩
    refine h.not_covers hx hlt hj fun c' hc' => ?_
    rw [Option.mem_unique hc' hc]
    exact hcj
  · have hsame := h.eq hx2 hc hleft hright
    omega

theorem RowScan.Turns.le (h : s.Turns display n y x2 s') (hheld : s.Held display n y)
    (hx2 : s.scanX < x2) : s.scanX ≤ s'.scanX ∧ s'.scanX ≤ x2 := by
  have hnone : s.display = none → foundLeft display s.scanX y x2 s.display = x2 := by
    intro hdisplay
    rw [hdisplay]
    rfl
  constructor
  · cases hdisplay : s.display with
    | none =>
      cases h with
      | inside => exact le_refl _
      | nothing =>
        have hend := hnone hdisplay
        dsimp only
        omega
      | next hfree hnext hlt =>
        have hahead := hnext.ahead.2.2
        dsimp only
        omega
    | some c =>
      rcases (hheld c hdisplay).2.2 with htop | ⟨hleft, hright⟩
      · exact (h.lt hx2 hdisplay htop).le
      · exact (h.eq hx2 hdisplay hleft hright).ge
  · cases h with
    | inside => exact hx2.le
    | nothing => exact min_le_right _ _
    | next => exact min_le_right _ _

/-! ## The row -/

/-- **The loop ends.** -/
theorem exists_rowSections (hheld : s.scanX < x2 → s.Held display n y)
    (hfuel : s.measure display y x2 < fuel) :
    ∃ sections, rowSections display n y x2 fuel s = some sections := by
  induction fuel generalizing s with
  | zero => exact absurd hfuel (Nat.not_lt_zero _)
  | succ fuel ih =>
    rw [rowSections]
    by_cases hx2 : s.scanX < x2
    · have hturns : s.Turns display n y x2 (s.next display n y x2) := (hheld hx2).turns
      have hrest : (s.display = none → (s.next display n y x2).display ≠ none) →
          ∃ sections, rowSections display n y x2 fuel (s.next display n y x2) = some sections := by
        intro hgoes
        have hlt := hturns.measure_lt (hheld hx2) hx2 hgoes
        exact ih hturns.held (by omega)
      rw [if_pos hx2]
      dsimp only
      split
      · exact ⟨[], rfl⟩
      · rename_i d hnone hsome
        refine hrest fun _ => ?_
        rw [hsome]
        exact Option.some_ne_none d
      · rename_i d hsome
        obtain ⟨rest, hrest⟩ := hrest fun hnone => absurd (hsome.symm.trans hnone)
          (Option.some_ne_none d)
        rw [hrest]
        exact ⟨_, rfl⟩
    · rw [if_neg hx2]
      exact ⟨[], rfl⟩

/-- What the loop comes to from a state of the row. -/
theorem rowSections_cases (h : rowSections display n y x2 (fuel + 1) s = some sections)
    (hx2 : s.scanX < x2) :
    (s.display = none ∧ (s.next display n y x2).display = none ∧ sections = []) ∨
      (s.display = none ∧
        rowSections display n y x2 fuel (s.next display n y x2) = some sections) ∨
      ∃ d rest, s.display = some d ∧
        rowSections display n y x2 fuel (s.next display n y x2) = some rest ∧
        sections = ⟨d, s.isTransparent, s.scanX, (s.next display n y x2).scanX⟩ :: rest := by
  rw [rowSections, if_pos hx2] at h
  dsimp only at h
  split at h
  · rename_i hnone hnext
    exact Or.inl ⟨hnone, hnext, (Option.some.inj h).symm⟩
  · rename_i hnone hnext
    exact Or.inr (Or.inl ⟨hnone, h⟩)
  · rename_i d hsome
    obtain ⟨rest, hrest, hcons⟩ := Option.map_eq_some_iff.1 h
    exact Or.inr (Or.inr ⟨d, rest, hsome, hrest, hcons.symm⟩)

theorem rowSections_past (h : rowSections display n y x2 (fuel + 1) s = some sections)
    (hx2 : ¬ s.scanX < x2) : sections = [] := by
  rw [rowSections, if_neg hx2] at h
  exact (Option.some.inj h).symm

/-- A row that nothing covers has no sections. -/
theorem isSectioned_nil (hnone : ∀ x, x1 ≤ x → x < x2 → ¬ ∃ i < n, (display i).Covers x y) :
    IsSectioned display n y x2 x1 [] :=
  ⟨.nil, fun _ ha => absurd ha List.not_mem_nil,
    fun x h1 h2 hcovered => absurd hcovered (hnone x h1 h2),
    fun _ ha => absurd ha List.not_mem_nil⟩

/-- The sections from further on are all, where nothing is before. -/
theorem IsSectioned.from {start : ℤ} (h : IsSectioned display n y x2 start sections)
    (hle : x1 ≤ start)
    (hbare : ∀ x, x1 ≤ x → x < start → ¬ ∃ i < n, (display i).Covers x y) :
    IsSectioned display n y x2 x1 sections := by
  refine ⟨h.sorted, fun a ha => ?_, fun x h1 h2 hcovered => ?_, h.topmost⟩
  · have hin := h.within a ha
    exact ⟨hle.trans hin.1, hin.2⟩
  · refine h.covered x ?_ h2 hcovered
    by_contra hcon
    exact hbare x h1 (by omega) hcovered

/-- A section, and those from where it ends. -/
theorem IsSectioned.cons {a : RowSection} (h : IsSectioned display n y x2 a.right sections)
    (hle : a.left ≤ a.right ∧ a.right ≤ x2)
    (htop : ∀ x, a.left ≤ x → x < a.right → IsTopmost display n x y a.display) :
    IsSectioned display n y x2 a.left (a :: sections) := by
  refine ⟨List.pairwise_cons.2 ⟨fun b hb => (h.within b hb).1, h.sorted⟩, fun b hb => ?_,
    fun x h1 h2 hcovered => ?_, fun b hb x h1 h2 => ?_⟩
  · rcases List.mem_cons.1 hb with rfl | hb
    · exact ⟨le_refl _, hle⟩
    · have hin := h.within b hb
      exact ⟨hle.1.trans hin.1, hin.2⟩
  · rcases lt_or_ge x a.right with hfirst | hpast
    · exact ⟨a, List.mem_cons_self, h1, hfirst⟩
    · obtain ⟨b, hb, hx⟩ := h.covered x hpast h2 hcovered
      exact ⟨b, List.mem_cons_of_mem _ hb, hx⟩
  · rcases List.mem_cons.1 hb with rfl | hb
    · exact htop x h1 h2
    · exact h.topmost b hb x h1 h2

/-- **Its sections are those of the topmost displays.** -/
theorem isSectioned_rowSections (h : rowSections display n y x2 fuel s = some sections)
    (hheld : s.scanX < x2 → s.Held display n y) :
    IsSectioned display n y x2 s.scanX sections := by
  induction fuel generalizing s sections with
  | zero => cases h
  | succ fuel ih =>
    by_cases hx2 : s.scanX < x2
    swap
    · rw [rowSections_past h hx2]
      exact isSectioned_nil fun x h1 h2 => absurd (h1.trans_lt h2) hx2
    have hturns : s.Turns display n y x2 (s.next display n y x2) := (hheld hx2).turns
    have hle := hturns.le (hheld hx2) hx2
    have hbare : s.display = none → ∀ x, s.scanX ≤ x → x < (s.next display n y x2).scanX →
        ¬ ∃ i < n, (display i).Covers x y := by
      rintro hnone x h1 h2 ⟨i, hi, hcovers⟩
      refine hturns.not_covers h1 h2 hi (fun c hc => ?_) hcovers
      rw [hnone] at hc
      cases hc
    rcases rowSections_cases h hx2 with ⟨hnone, hnext, rfl⟩ | ⟨hnone, hrest⟩ |
      ⟨d, rest, hsome, hrest, rfl⟩
    · refine isSectioned_nil fun x h1 h2 => hbare hnone x h1 ?_
      generalize s.next display n y x2 = s' at hturns hnext
      cases hturns with
      | inside => cases hnext
      | nothing =>
        have hend : foundLeft display s.scanX y x2 s.display = x2 := by rw [hnone]; rfl
        dsimp only
        omega
      | next => cases hnext
    · exact (ih hrest hturns.held).from hle.1 (hbare hnone)
    · refine IsSectioned.cons (a := ⟨d, s.isTransparent, s.scanX, (s.next display n y x2).scanX⟩)
        (ih hrest hturns.held) hle fun x h1 h2 => ?_
      exact (hturns.section (hheld hx2) hx2 hsome h1 h2).1

/-! ## Marks -/

/-- **The mark of a section is right where that of the scan is.** -/
theorem RowScan.Turns.isMarked_iff (h : s.Turns display n y x2 s') (hheld : s.Held display n y)
    (hx2 : s.scanX < x2) {c : ℕ} (hc : s.display = some c) :
    RowSection.IsMarked display y ⟨c, s.isTransparent, s.scanX, s'.scanX⟩ ↔
      s.IsMarked display y := by
  have hkind : ∀ x, s.scanX ≤ x → x < s'.scanX → (((display c).sectionAt s.scanX y).2 = true ↔
      ¬ (display c).solidArea.contains (x - (display c).x) (y - (display c).y)) := by
    intro x h1 h2
    obtain ⟨htop, hsame⟩ := h.section hheld hx2 hc h1 h2
    rw [← hsame]
    exact ShapedDisplay.sectionAt_transparent htop.covers.2.2.1
  constructor
  · intro hmarked c' hc' hright
    obtain rfl := Option.some.inj (hc.symm.trans hc')
    have hlt : s.scanX < s'.scanX := by
      rcases (hheld c hc).2.2 with htop | ⟨-, hempty⟩
      · exact h.lt hx2 hc htop
      · omega
    exact Bool.eq_iff_iff.2 ((hmarked s.scanX (le_refl _) hlt).trans
      (hkind s.scanX (le_refl _) hlt).symm)
  · intro hmarked x h1 h2
    have hright : s.scanX < (display c).right y := by
      obtain ⟨htop, -⟩ := h.section hheld hx2 hc (le_refl _) (h1.trans_lt h2)
      exact htop.covers.2.2.2
    rw [hmarked c hc hright]
    exact hkind x h1 h2

/-- **The next mark is right where the display gone on to has the mark of
where the scan is.** -/
theorem RowScan.Turns.isJudged_iff (h : s.Turns display n y x2 s') :
    (s'.scanX < x2 → s'.IsMarked display y) ↔ s.IsJudged display n y x2 := by
  cases h with
  | inside htop habove =>
    refine iff_of_true (fun _ c hc _ => ?_) fun i hgoes _ => ?_
    · obtain rfl := Option.some.inj hc
      rfl
    · exact absurd htop.covers (hgoes.free _ htop.lt habove)
  | nothing hfree hbeyond =>
    refine iff_of_true (fun _ c hc => ?_) fun i hgoes _ => ?_
    · cases hc
    · have hend := hbeyond i hgoes.next.lt hgoes.next.above hgoes.next.ahead
      exact absurd hgoes.before (not_lt.2 hend)
  | @next i hfree hnext hlt =>
    constructor
    · intro hmarked j hgoes hright
      have hij : j = i := by
        have hfirst := hnext.first j hgoes.next.lt hgoes.next.above hgoes.next.ahead
        have hfirst' := hgoes.next.first i hnext.lt hnext.above hnext.ahead
        rcases Nat.lt_trichotomy i j with hij | hij | hij
        · have hless := hfirst.2 hij
          omega
        · exact hij.symm
        · have hless := hfirst'.2 hij
          omega
      subst hij
      have hleft : min ((display j).left y) x2 = (display j).left y := min_eq_left hgoes.lt.le
      dsimp only at hmarked
      rw [hleft] at hmarked
      exact hmarked hgoes.lt j rfl hright
    · intro hjudged hx2 c hc hright
      obtain rfl := Option.some.inj hc
      dsimp only at hx2 hright ⊢
      have hleft : min ((display i).left y) x2 = (display i).left y := by omega
      rw [hleft] at hx2 hright ⊢
      exact hjudged i ⟨hfree, hnext, hlt, hx2⟩ hright

/-- What goes for every turn from a state on goes for the first and for
those after. -/
theorem RowScan.allJudged_iff (hx2 : s.scanX < x2) : s.AllJudged display n y x2 ↔
    s.IsJudged display n y x2 ∧ (s.next display n y x2).AllJudged display n y x2 := by
  constructor
  · intro h
    exact ⟨h s .refl, fun s' hreach => h s' (.head ⟨hx2, rfl⟩ hreach)⟩
  · rintro ⟨hfirst, hlater⟩ s' hreach
    rcases ReflTransGen.cases_head hreach with rfl | ⟨t, ⟨-, rfl⟩, hrest⟩
    · exact hfirst
    · exact hlater s' hrest

/-- Past the row there are no turns. -/
theorem RowScan.allJudged_past (hx2 : ¬ s.scanX < x2) : s.AllJudged display n y x2 := by
  intro s' hreach i hgoes
  have hsame : s' = s := by
    rcases ReflTransGen.cases_head hreach with rfl | ⟨t, ⟨hlt, -⟩, -⟩
    · rfl
    · exact absurd hlt hx2
  subst hsame
  exact absurd (hgoes.next.ahead.2.2.trans hgoes.lt) hx2

/-- **Each section is marked right just where each turn judges right**
what it goes on to. -/
theorem isMarked_rowSections_iff (h : rowSections display n y x2 fuel s = some sections)
    (hheld : s.scanX < x2 → s.Held display n y) :
    (∀ a ∈ sections, a.IsMarked display y) ↔
      (s.scanX < x2 → s.IsMarked display y) ∧ s.AllJudged display n y x2 := by
  induction fuel generalizing s sections with
  | zero => cases h
  | succ fuel ih =>
    by_cases hx2 : s.scanX < x2
    swap
    · rw [rowSections_past h hx2]
      exact iff_of_true (fun a ha => absurd ha List.not_mem_nil)
        ⟨fun hlt => absurd hlt hx2, RowScan.allJudged_past hx2⟩
    have hturns : s.Turns display n y x2 (s.next display n y x2) := (hheld hx2).turns
    rw [forall_prop_of_true hx2, RowScan.allJudged_iff hx2, ← hturns.isJudged_iff]
    have hnone : s.display = none → s.IsMarked display y := by
      intro hnone c hc
      rw [hnone] at hc
      cases hc
    rcases rowSections_cases h hx2 with ⟨hbare, hnext, rfl⟩ | ⟨hbare, hrest⟩ |
      ⟨d, rest, hsome, hrest, rfl⟩
    · refine iff_of_true (fun a ha => absurd ha List.not_mem_nil) ⟨hnone hbare, ?_, ?_⟩
      · intro _ c hc
        rw [hnext] at hc
        cases hc
      · refine RowScan.allJudged_past ?_
        generalize s.next display n y x2 = s' at hturns hnext
        cases hturns with
        | inside => cases hnext
        | nothing =>
          have hend : foundLeft display s.scanX y x2 s.display = x2 := by rw [hbare]; rfl
          dsimp only
          omega
        | next => cases hnext
    · rw [and_iff_right (hnone hbare)]
      exact ih hrest hturns.held
    · rw [List.forall_mem_cons, hturns.isMarked_iff (hheld hx2) hx2 hsome, ih hrest hturns.held]

/-! ## A corner that reaches into the solid area -/

/-- A display with a transparent edge of two pixels on its left, of which
a corner takes three. -/
def rounded : ShapedDisplay Unit where
  x := 0
  y := 0
  layer := 0
  scale := 1
  width := 8
  height := 4
  buffer := fun _ _ => ()
  isVisible := true
  solidArea := ⟨2, 0, 8, 4⟩
  topLeftCorner := fun _ => 3
  topRightCorner := fun _ => 0
  bottomLeftCorner := fun _ => 0
  bottomRightCorner := fun _ => 0

end Uberos
