import Uberos.DisplayManager.Model
import Mathlib.Logic.Relation
/-!
# The sections of a row

`_find_display_section_in_row`, and the loop over it by which
`_update_area_transparency` goes through a row. The displays are numbered
by their place in the list, from `head` to `tail`, and are gone through
from the last down. Coordinates do not wrap.
-/

namespace Uberos

variable {Colour : Type}

namespace ShapedDisplay

variable (d : ShapedDisplay Colour)

/-- The row is above or below its solid area. -/
def IsBeyondSolid (y : ℤ) : Prop := y - d.y < d.solidArea.y1 ∨ d.solidArea.y2 ≤ y - d.y

instance (y : ℤ) : Decidable (d.IsBeyondSolid y) := inferInstanceAs (Decidable (_ ∨ _))

/-- `displayLeft` and `transparent`, of the section that a place to scan
from is in. Where that ends is not looked at. -/
def sectionAt (x y : ℤ) : ℤ × Bool :=
  if d.IsBeyondSolid y then (d.left y, true)
  else if 0 < d.solidArea.x1 ∧ x - d.x < d.solidArea.x1 then (d.left y, true)
  else if x - d.x < d.solidArea.x2 then (max (d.left y) (d.x + d.solidArea.x1), false)
  else (max (d.left y) (d.x + d.solidArea.x2), true)

/-- Where the section ends that is gone through, in a row up to `x2`. -/
def sectionEnd (x y x2 : ℤ) : ℤ :=
  let foundLeft :=
    if d.IsBeyondSolid y then x2
    else if 0 < d.solidArea.x1 ∧ x - d.x < d.solidArea.x1 then d.x + d.solidArea.x1
    else if x - d.x < d.solidArea.x2 then d.x + d.solidArea.x2
    else d.x + d.getWidth
  min (max foundLeft (d.left y)) (d.right y)

end ShapedDisplay

/-- What `_find_display_section_in_row` has found. -/
structure Found where
  foundLeft : ℤ
  found : Option ℕ
  foundTransparent : Bool

/-- A section of a row. -/
structure RowSection where
  display : ℕ
  isTransparent : Bool
  left : ℤ
  right : ℤ
  deriving DecidableEq, Repr

/-- The variables of the loop over a row. -/
structure RowScan where
  display : Option ℕ
  isTransparent : Bool
  scanX : ℤ
  deriving DecidableEq, Repr

section

variable (display : ℕ → ShapedDisplay Colour) (n : ℕ) (x y x2 : ℤ) (current : Option ℕ)

/-- The loop over the displays, down from one. On the left is what it is
left with by `goto done`. -/
def findFrom : ℕ → Found → Found ⊕ Found
  | 0, f => .inr f
  | i + 1, f =>
    if (display i).isVisible = false then findFrom i f
    else if some i = current then .inr f
    else if ¬ (display i).HasRow y then findFrom i f
    else if (display i).right y ≤ x then findFrom i f
    else
      let (displayLeft, transparent) := (display i).sectionAt x y
      if displayLeft ≤ x then
        .inl { f with found := some i, foundTransparent := transparent }
      else if displayLeft < f.foundLeft then findFrom i ⟨displayLeft, some i, transparent⟩
      else findFrom i f

/-- Where a display that is further to the right must start before. -/
def foundLeft : ℤ :=
  match current with
  | none => x2
  | some c => (display c).sectionEnd x y x2

/-- `_find_display_section_in_row`: `x`, what is found, and
`isTransparent`. -/
def findDisplaySectionInRow : ℤ × Option ℕ × Bool :=
  match findFrom display x y current n ⟨foundLeft display x y x2 current, none, false⟩ with
  | .inl f => (x, f.found, f.foundTransparent)
  | .inr f => (min f.foundLeft x2, f.found, f.foundTransparent)

/-- What the variables are in the next turn. -/
def RowScan.next (s : RowScan) : RowScan :=
  let (nextScanX, nextDisplay, nextIsTransparent) :=
    findDisplaySectionInRow display n s.scanX y x2 s.display
  ⟨nextDisplay, nextIsTransparent, nextScanX⟩

/-- The loop over a row: the sections of it. -/
def rowSections : ℕ → RowScan → Option (List RowSection)
  | 0, _ => none
  | fuel + 1, s =>
    if s.scanX < x2 then
      let next := s.next display n y x2
      match s.display, next.display with
      | none, none => some []
      | none, some _ => rowSections fuel next
      | some d, _ =>
        (rowSections fuel next).map (⟨d, s.isTransparent, s.scanX, next.scanX⟩ :: ·)
    else some []

/-- The variables at the start of a row. -/
def rowStart (x1 : ℤ) : RowScan := ⟨none, false, x1⟩

end

/-! ## A section -/

namespace ShapedDisplay

variable {d : ShapedDisplay Colour} {x x' y x2 : ℤ}

/-- What a section starts at is behind just where the display is. -/
theorem sectionAt_le_iff : (d.sectionAt x y).1 ≤ x ↔ d.left y ≤ x := by
  have hleft := d.x_le_left y
  rw [sectionAt]
  split
  · exact Iff.rfl
  · split
    · exact Iff.rfl
    · split <;> dsimp only <;> omega

/-- A section of a display further to the right starts where that
does. -/
theorem sectionAt_eq (h : x < d.left y) : (d.sectionAt x y).1 = d.left y := by
  have hleft := d.x_le_left y
  rw [sectionAt]
  split
  · rfl
  · split
    · rfl
    · split <;> dsimp only <;> omega

/-- **In the display, a section is transparent outside of its solid
area.** -/
theorem sectionAt_transparent (h : d.left y ≤ x) :
    (d.sectionAt x y).2 = true ↔ ¬ d.solidArea.contains (x - d.x) (y - d.y) := by
  have hleft := d.x_le_left y
  have hrows : d.IsBeyondSolid y ↔
      y - d.y < d.solidArea.y1 ∨ d.solidArea.y2 ≤ y - d.y := Iff.rfl
  rw [sectionAt, Rect.contains]
  by_cases hbeyond : d.IsBeyondSolid y
  · rw [if_pos hbeyond]
    have hrow := hrows.1 hbeyond
    exact iff_of_true rfl (by omega)
  · rw [if_neg hbeyond]
    rw [hrows] at hbeyond
    split
    · exact iff_of_true rfl (by omega)
    · split
      · exact iff_of_false Bool.noConfusion (by omega)
      · exact iff_of_true rfl (by omega)

/-- **Up to its end a section is of one kind.** -/
theorem sectionAt_of_lt_end (hx : d.left y ≤ x) (hle : x ≤ x') (h : x' < d.sectionEnd x y x2) :
    (d.sectionAt x' y).2 = (d.sectionAt x y).2 ∧ x' < d.right y := by
  have hleft := d.x_le_left y
  rw [sectionEnd] at h
  rw [sectionAt, sectionAt]
  by_cases hbeyond : d.IsBeyondSolid y
  · rw [if_pos hbeyond] at h
    rw [if_pos hbeyond, if_pos hbeyond]
    exact ⟨rfl, by omega⟩
  rw [if_neg hbeyond] at h
  rw [if_neg hbeyond, if_neg hbeyond]
  by_cases hedge : 0 < d.solidArea.x1 ∧ x - d.x < d.solidArea.x1
  · rw [if_pos hedge] at h
    rw [if_pos (by omega), if_pos hedge]
    exact ⟨rfl, by omega⟩
  rw [if_neg hedge] at h
  rw [if_neg (by omega), if_neg hedge]
  by_cases hsolid : x - d.x < d.solidArea.x2
  · rw [if_pos hsolid] at h
    rw [if_pos (by omega), if_pos hsolid]
    exact ⟨rfl, by omega⟩
  · rw [if_neg hsolid] at h
    rw [if_neg (by omega), if_neg hsolid]
    exact ⟨rfl, by omega⟩

/-- **And it ends further on.** -/
theorem lt_sectionEnd (hx : d.left y ≤ x) (hright : x < d.right y) (hx2 : x < x2) :
    x < d.sectionEnd x y x2 := by
  have hwidth := d.right_le y
  rw [sectionEnd]
  split
  · omega
  · split
    · omega
    · split <;> omega

/-- It does not where the display has nothing of the row. -/
theorem sectionEnd_of_empty (hleft : d.left y = x) (hright : d.right y = x) :
    d.sectionEnd x y x2 = x := by
  rw [sectionEnd]
  omega

end ShapedDisplay

end Uberos

/-!
## Rows are gone through by sections

The loop over a row ends: it goes to the right but where it comes to a
display that has nothing of the row, to none or to the topmost display
there. Its sections are those of the topmost displays, in order. A section
is labelled where the scan is when it is found, which for a display
further to the right is not where the display starts.
-/

namespace Uberos

variable {Colour : Type} {display : ℕ → ShapedDisplay Colour} {n k i j : ℕ} {x y x2 p : ℤ}
variable {current : Option ℕ} {f : Found} {r : Found ⊕ Found} {s : RowScan}

/-! ## What is found -/

/-- It starts further to the right. -/
def ShapedDisplay.IsAhead (d : ShapedDisplay Colour) (x y : ℤ) : Prop :=
  d.isVisible = true ∧ d.HasRow y ∧ x < d.left y

/-- **A place that is covered neither is nor is after one that is not, up
to a display ahead.** -/
theorem ShapedDisplay.Covers.isAhead {d : ShapedDisplay Colour} (h : d.Covers p y) (hp : x ≤ p)
    (hnot : ¬ d.Covers x y) : d.IsAhead x y ∧ d.left y ≤ p := by
  obtain ⟨hvisible, hrow, hleft, hright⟩ := h
  refine ⟨⟨hvisible, hrow, ?_⟩, hleft⟩
  by_contra hcon
  exact hnot ⟨hvisible, hrow, by omega, by omega⟩

section

variable (display : ℕ → ShapedDisplay Colour) (k : ℕ) (x y : ℤ) (current : Option ℕ)

/-- **The topmost display at a place**, of the first of them. -/
structure IsTopmost (i : ℕ) : Prop where
  lt : i < k
  covers : (display i).Covers x y
  top : ∀ j < k, i < j → ¬ (display j).Covers x y

/-- **The display that starts next** above the current one, the topmost if
there are several. -/
structure IsNext (i : ℕ) : Prop where
  lt : i < k
  above : ∀ c ∈ current, c < i
  ahead : (display i).IsAhead x y
  first : ∀ j < k, (∀ c ∈ current, c < j) → (display j).IsAhead x y →
    (display i).left y ≤ (display j).left y ∧ (i < j → (display i).left y < (display j).left y)

/-- None above the current one covers the place. -/
def IsFree : Prop := ∀ j < k, (∀ c ∈ current, c < j) → ¬ (display j).Covers x y

/-- What the loop over the displays comes to. -/
inductive Finds (f : Found) : Found ⊕ Found → Prop
  | inside {i : ℕ} {foundLeft : ℤ} : IsTopmost display k x y i → (∀ c ∈ current, c < i) →
      Finds f (.inl ⟨foundLeft, some i, ((display i).sectionAt x y).2⟩)
  | nothing : IsFree display k x y current → (∀ j < k, (∀ c ∈ current, c < j) →
      (display j).IsAhead x y → f.foundLeft ≤ (display j).left y) → Finds f (.inr f)
  | next {i : ℕ} : IsFree display k x y current → IsNext display k x y current i →
      (display i).left y < f.foundLeft →
      Finds f (.inr ⟨(display i).left y, some i, ((display i).sectionAt x y).2⟩)

end

/-- A display is passed. -/
theorem Finds.skip {f : Found} (h : Finds display k x y current f r)
    (hcovers : ¬ (display k).Covers x y)
    (hahead : (display k).IsAhead x y → f.foundLeft ≤ (display k).left y) :
    Finds display (k + 1) x y current f r := by
  have hfree : IsFree display k x y current → IsFree display (k + 1) x y current := by
    intro hfree j hj habove
    rcases Nat.lt_succ_iff_lt_or_eq.1 hj with hlt | rfl
    · exact hfree j hlt habove
    · exact hcovers
  cases h with
  | inside htop habove =>
    refine .inside ⟨Nat.lt_succ_of_lt htop.lt, htop.covers, fun j hj hij => ?_⟩ habove
    rcases Nat.lt_succ_iff_lt_or_eq.1 hj with hlt | rfl
    · exact htop.top j hlt hij
    · exact hcovers
  | nothing hnone hbeyond =>
    refine .nothing (hfree hnone) fun j hj habove haheadj => ?_
    rcases Nat.lt_succ_iff_lt_or_eq.1 hj with hlt | rfl
    · exact hbeyond j hlt habove haheadj
    · exact hahead haheadj
  | next hnone hnext hlt =>
    refine .next (hfree hnone) ⟨Nat.lt_succ_of_lt hnext.lt, hnext.above, hnext.ahead,
      fun j hj habove haheadj => ?_⟩ hlt
    rcases Nat.lt_succ_iff_lt_or_eq.1 hj with hltj | rfl
    · exact hnext.first j hltj habove haheadj
    · have hle := hahead haheadj
      omega

/-- A display is taken for now. -/
theorem Finds.take {f : Found} (hahead : (display k).IsAhead x y)
    (habove : ∀ c ∈ current, c < k) (hlt : (display k).left y < f.foundLeft)
    (h : Finds display k x y current
      ⟨(display k).left y, some k, ((display k).sectionAt x y).2⟩ r) :
    Finds display (k + 1) x y current f r := by
  have hcovers : ¬ (display k).Covers x y := by
    rintro ⟨-, -, hleft, -⟩
    exact absurd hahead.2.2 (by omega)
  cases h with
  | inside htop habove' =>
    refine .inside ⟨Nat.lt_succ_of_lt htop.lt, htop.covers, fun j hj hij => ?_⟩ habove'
    rcases Nat.lt_succ_iff_lt_or_eq.1 hj with hltj | rfl
    · exact htop.top j hltj hij
    · exact hcovers
  | nothing hnone hbeyond =>
    refine .next (fun j hj habovej => ?_) ⟨Nat.lt_succ_self k, habove, hahead,
      fun j hj habovej haheadj => ?_⟩ hlt
    · rcases Nat.lt_succ_iff_lt_or_eq.1 hj with hltj | rfl
      · exact hnone j hltj habovej
      · exact hcovers
    · rcases Nat.lt_succ_iff_lt_or_eq.1 hj with hltj | rfl
      · exact ⟨hbeyond j hltj habovej haheadj, fun hkj => absurd hltj (by omega)⟩
      · exact ⟨le_refl _, fun hkj => absurd hkj (Nat.lt_irrefl _)⟩
  | next hnone hnext hlti =>
    refine .next (fun j hj habovej => ?_) ⟨Nat.lt_succ_of_lt hnext.lt, hnext.above, hnext.ahead,
      fun j hj habovej haheadj => ?_⟩ (hlti.trans hlt)
    · rcases Nat.lt_succ_iff_lt_or_eq.1 hj with hltj | rfl
      · exact hnone j hltj habovej
      · exact hcovers
    · rcases Nat.lt_succ_iff_lt_or_eq.1 hj with hltj | rfl
      · exact hnext.first j hltj habovej haheadj
      · dsimp only at hlti
        exact ⟨hlti.le, fun _ => hlti⟩

/-- The current display is below one that it is not. -/
theorem below_of_ne (hbelow : ∀ c ∈ current, c < k + 1) (hne : some k ≠ current) :
    ∀ c ∈ current, c < k := by
  intro c hc
  refine lt_of_le_of_ne (Nat.le_of_lt_succ (hbelow c hc)) ?_
  rintro rfl
  exact hne hc.symm

/-- **The loop finds the topmost display at the place, or the one that
starts next.** -/
theorem findFrom_finds (hcurrent : ∀ c ∈ current, (display c).isVisible = true)
    (hbelow : ∀ c ∈ current, c < k) :
    Finds display k x y current f (findFrom display x y current k f) := by
  induction k generalizing f with
  | zero =>
    exact .nothing (fun j hj => absurd hj (Nat.not_lt_zero j)) fun j hj => absurd hj (Nat.not_lt_zero j)
  | succ k ih =>
    rw [findFrom]
    by_cases hvisible : (display k).isVisible = false
    · rw [if_pos hvisible]
      have hnot : ¬ (display k).isVisible = true := by
        rw [hvisible]
        exact Bool.noConfusion
      have hbelow' : ∀ c ∈ current, c < k :=
        below_of_ne hbelow fun heq => hnot (hcurrent k heq.symm)
      exact (ih hbelow').skip (fun h => hnot h.1) fun h => absurd h.1 hnot
    rw [if_neg hvisible]
    by_cases hcurrently : some k = current
    · -- nothing further down is above the current one
      rw [if_pos hcurrently]
      have hnone : ∀ j < k + 1, ¬ ∀ c ∈ current, c < j := by
        intro j hj habove
        have hk := habove k hcurrently.symm
        omega
      exact .nothing (fun j hj habove => absurd habove (hnone j hj)) fun j hj habove =>
        absurd habove (hnone j hj)
    rw [if_neg hcurrently]
    have hbelow' : ∀ c ∈ current, c < k := below_of_ne hbelow hcurrently
    by_cases hrow : (display k).HasRow y
    · rw [if_neg (not_not.2 hrow)]
      have hspan := (display k).left_le_right y
      by_cases hright : (display k).right y ≤ x
      · rw [if_pos hright]
        refine (ih hbelow').skip (fun h => ?_) fun h => ?_
        · exact absurd h.2.2.2 (by omega)
        · exact absurd h.2.2 (by omega)
      rw [if_neg hright]
      dsimp only
      rw [Bool.not_eq_false] at hvisible
      by_cases hleft : (display k).left y ≤ x
      · rw [if_pos (ShapedDisplay.sectionAt_le_iff.2 hleft)]
        refine .inside ⟨Nat.lt_succ_self k, ⟨hvisible, hrow, hleft, not_le.1 hright⟩, ?_⟩ hbelow'
        intro j hj hkj
        omega
      · have hahead : (display k).IsAhead x y := ⟨hvisible, hrow, not_le.1 hleft⟩
        rw [if_neg (fun h => hleft (ShapedDisplay.sectionAt_le_iff.1 h)),
          ShapedDisplay.sectionAt_eq hahead.2.2]
        by_cases hnearer : (display k).left y < f.foundLeft
        · rw [if_pos hnearer]
          exact (ih hbelow').take hahead hbelow' hnearer
        · rw [if_neg hnearer]
          exact (ih hbelow').skip (fun h => hleft h.2.2.1) fun _ => not_lt.1 hnearer
    · rw [if_pos hrow]
      exact (ih hbelow').skip (fun h => hrow h.2.1) fun h => absurd h.2.1 hrow

/-! ## A turn of the row -/

section

variable (display : ℕ → ShapedDisplay Colour) (n : ℕ) (y x2 : ℤ) (s : RowScan)

/-- **The current display is the topmost where the scan is**, or has
nothing of the row. -/
def RowScan.Held : Prop :=
  ∀ c ∈ s.display, c < n ∧ (display c).isVisible = true ∧
    (IsTopmost display n s.scanX y c ∨ (display c).left y = s.scanX ∧ (display c).right y = s.scanX)

/-- What the next turn starts from. -/
inductive RowScan.Turns : RowScan → Prop
  | inside {i : ℕ} : IsTopmost display n s.scanX y i → (∀ c ∈ s.display, c < i) →
      Turns ⟨some i, ((display i).sectionAt s.scanX y).2, s.scanX⟩
  | nothing : IsFree display n s.scanX y s.display → (∀ j < n, (∀ c ∈ s.display, c < j) →
      (display j).IsAhead s.scanX y → foundLeft display s.scanX y x2 s.display ≤
        (display j).left y) →
      Turns ⟨none, false, min (foundLeft display s.scanX y x2 s.display) x2⟩
  | next {i : ℕ} : IsFree display n s.scanX y s.display → IsNext display n s.scanX y s.display i →
      (display i).left y < foundLeft display s.scanX y x2 s.display →
      Turns ⟨some i, ((display i).sectionAt s.scanX y).2, min ((display i).left y) x2⟩

end

variable {s' : RowScan}

/-- **What a turn does.** -/
theorem RowScan.Held.turns (h : s.Held display n y) :
    s.Turns display n y x2 (s.next display n y x2) := by
  have hfinds : Finds display n s.scanX y s.display
      ⟨foundLeft display s.scanX y x2 s.display, none, false⟩
      (findFrom display s.scanX y s.display n
        ⟨foundLeft display s.scanX y x2 s.display, none, false⟩) :=
    findFrom_finds (fun c hc => (h c hc).2.1) fun c hc => (h c hc).1
  rw [RowScan.next, findDisplaySectionInRow]
  generalize findFrom display s.scanX y s.display n
    ⟨foundLeft display s.scanX y x2 s.display, none, false⟩ = r at hfinds
  cases hfinds with
  | inside htop habove => exact .inside htop habove
  | nothing hfree hbeyond => exact .nothing hfree hbeyond
  | next hfree hnext hlt => exact .next hfree hnext hlt

/-- **From a display that is the topmost the scan goes on to the right.** -/
theorem RowScan.Turns.lt (h : s.Turns display n y x2 s') (hx2 : s.scanX < x2) {c : ℕ}
    (hc : c ∈ s.display) (htop : IsTopmost display n s.scanX y c) : s.scanX < s'.scanX := by
  have hend : s.scanX < foundLeft display s.scanX y x2 s.display := by
    rw [Option.mem_def.1 hc]
    exact ShapedDisplay.lt_sectionEnd htop.covers.2.2.1 htop.covers.2.2.2 hx2
  cases h with
  | inside htopi habove =>
    exact absurd htopi.covers (htop.top _ htopi.lt (habove c hc))
  | nothing => exact lt_min hend hx2
  | next hfree hnext hlt => exact lt_min hnext.ahead.2.2 hx2

/-- From one that has nothing of the row it stays where it is. -/
theorem RowScan.Turns.eq (h : s.Turns display n y x2 s') (hx2 : s.scanX < x2) {c : ℕ}
    (hc : c ∈ s.display) (hleft : (display c).left y = s.scanX)
    (hright : (display c).right y = s.scanX) : s'.scanX = s.scanX := by
  have hend : foundLeft display s.scanX y x2 s.display = s.scanX := by
    rw [Option.mem_def.1 hc]
    exact ShapedDisplay.sectionEnd_of_empty hleft hright
  cases h with
  | inside => rfl
  | nothing =>
    dsimp only
    omega
  | next hfree hnext hlt =>
    have hahead := hnext.ahead.2.2
    omega

/-- **A turn keeps to the topmost displays.** -/
theorem RowScan.Turns.held (h : s.Turns display n y x2 s') (hx2 : s'.scanX < x2) :
    s'.Held display n y := by
  intro i hi
  cases h with
  | inside htop habove =>
    obtain rfl := Option.some.inj hi
    exact ⟨htop.lt, htop.covers.1, Or.inl htop⟩
  | nothing => cases hi
  | @next i hfree hnext hlt =>
    obtain rfl := Option.some.inj hi
    obtain ⟨hvisible, hrow, hahead⟩ := hnext.ahead
    dsimp only at hx2
    have hleft : min ((display i).left y) x2 = (display i).left y := by omega
    refine ⟨hnext.lt, hvisible, ?_⟩
    dsimp only
    rw [hleft]
    have hspan := (display i).left_le_right y
    rcases hspan.lt_or_eq with hlt | heq
    · refine Or.inl ⟨hnext.lt, ⟨hvisible, hrow, le_refl _, hlt⟩, fun j hj hij hcovers => ?_⟩
      have habove : ∀ c ∈ s.display, c < j := fun c hc => (hnext.above c hc).trans hij
      obtain ⟨haheadj, hle⟩ := hcovers.isAhead hahead.le (hfree j hj habove)
      have hfirst := (hnext.first j hj habove haheadj).2 hij
      omega
    · exact Or.inr ⟨rfl, heq.symm⟩

/-! ## It ends -/

/-- How far a state of the scan is from going on to the right. -/
def RowScan.stage (display : ℕ → ShapedDisplay Colour) (y : ℤ) (s : RowScan) : ℕ :=
  match s.display with
  | none => 1
  | some c => if s.scanX < (display c).right y then 0 else 2

/-- **The measure of the loop.** -/
def RowScan.measure (display : ℕ → ShapedDisplay Colour) (y x2 : ℤ) (s : RowScan) : ℕ :=
  3 * (x2 - s.scanX).toNat + s.stage display y

theorem RowScan.stage_le : s.stage display y ≤ 2 := by
  rw [stage]
  split
  · omega
  · split <;> omega

/-- **It goes down in every turn that another follows.** -/
theorem RowScan.Turns.measure_lt (h : s.Turns display n y x2 s') (hheld : s.Held display n y)
    (hx2 : s.scanX < x2) (hgoes : s.display = none → s'.display ≠ none) :
    s'.measure display y x2 < s.measure display y x2 := by
  have hfurther : s.scanX < s'.scanX → s'.measure display y x2 < s.measure display y x2 := by
    intro hlt
    have hstage : s'.stage display y ≤ 2 := s'.stage_le
    rw [measure, measure]
    omega
  have hstays : s'.scanX = s.scanX → s'.stage display y < s.stage display y →
      s'.measure display y x2 < s.measure display y x2 := by
    intro hsame hstage
    rw [measure, measure, hsame]
    omega
  have hinside : ∀ {i}, IsTopmost display n s.scanX y i →
      stage display y ⟨some i, ((display i).sectionAt s.scanX y).2, s.scanX⟩ = 0 :=
    fun htop => if_pos htop.covers.2.2.2
  cases hdisplay : s.display with
  | none =>
    have hone : s.stage display y = 1 := by rw [stage, hdisplay]
    cases h with
    | inside htop habove =>
      refine hstays rfl ?_
      rw [hone, hinside htop]
      exact Nat.one_pos
    | nothing => exact absurd rfl (hgoes hdisplay)
    | next hfree hnext hlt => exact hfurther (lt_min hnext.ahead.2.2 hx2)
  | some c =>
    rcases (hheld c hdisplay).2.2 with htop | ⟨hleft, hright⟩
    · exact hfurther (h.lt hx2 hdisplay htop)
    -- a display that has nothing of the row is left for one that has, or for none
    have hsame : s'.scanX = s.scanX := h.eq hx2 hdisplay hleft hright
    have htwo : s.stage display y = 2 := by
      rw [stage, hdisplay]
      exact if_neg (by omega)
    refine hstays hsame ?_
    rw [htwo]
    cases h with
    | inside htop habove =>
      rw [hinside htop]
      exact Nat.two_pos
    | nothing => exact Nat.one_lt_two
    | next hfree hnext hlt =>
      have hahead := lt_min hnext.ahead.2.2 hx2
      dsimp only at hsame
      omega

end Uberos
