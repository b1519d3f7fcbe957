import Uberos.DisplayManager.Scan
import Uberos.DisplayManager.Paint
/-!
# What the screen should show

A pixel should be that of the topmost visible display that covers it, or
the background's. Whatever is painted gets the pixels it should, as the
displays stand, and the rest stay, so painting undoes nothing. Which pixels
a function sets is told exactly, by what the scans of its rows lose, and
from that where it is sure to paint.
-/

namespace Uberos

/-- What of an area of a display is painted of a framebuffer, within the
display. -/
def Display.cut {Colour : Type} (d : Display Colour) (displayRect area : Rect) : Rect :=
  (((displayRect.intersect d.solidArea).offset d.x d.y).intersect area).offset (-d.x) (-d.y)

namespace DisplayManager

open Framebuffer

variable {n : ℕ} {Colour : Type} {m m' m'' : DisplayManager n Colour} {i j : Fin n}
variable {x y : ℤ} {rect area : Rect} {P Q : ℤ → ℤ → Prop}

/-! ## The topmost display -/

/-- The display is visible there. -/
def covers (m : DisplayManager n Colour) (i : Fin n) (x y : ℤ) : Prop :=
  (m.display i).isVisible = true ∧ (m.display i).area.contains x y

instance (m : DisplayManager n Colour) (i : Fin n) (x y : ℤ) : Decidable (m.covers i x y) :=
  inferInstanceAs (Decidable (_ ∧ _))

/-- The topmost visible display that covers a place. -/
def topmost (m : DisplayManager n Colour) (x y : ℤ) : Option (Fin n) :=
  m.displays.reverse.find? fun i => m.covers i x y

/-- **The pixel that should be there.** -/
def compose (m : DisplayManager n Colour) (x y : ℤ) : Colour :=
  match m.topmost x y with
  | some i => (m.display i).source (x - (m.display i).x) (y - (m.display i).y)
  | none => m.sampleBackgroundAt x y

/-- **Every framebuffer pixel is the one that should be there.** -/
def Composed (m : DisplayManager n Colour) : Prop :=
  ∀ f ∈ m.framebuffers, ∀ x y, f.area.contains x y → f.pixels x y = m.compose x y

/-- Every display is in the list once. -/
structure Stacked (m : DisplayManager n Colour) : Prop where
  nodup : m.displays.Nodup
  complete : ∀ i, i ∈ m.displays

/-- Where a display stands in the list. -/
theorem Stacked.split (h : m.Stacked) (i : Fin n) :
    ∃ before, m.displays = before ++ i :: m.above i ∧ i ∉ before ∧
      m.displays.takeWhile (· ≠ i) = before := by
  obtain ⟨before, after, hlist⟩ := List.mem_iff_append.1 (h.complete i)
  have hbefore : i ∉ before := by
    intro hmem
    have hnodup := h.nodup
    rw [hlist] at hnodup
    exact List.disjoint_of_nodup_append hnodup hmem List.mem_cons_self
  have hne : ∀ j ∈ before, decide (j ≠ i) = true := fun j hj =>
    decide_eq_true fun heq => hbefore (heq ▸ hj)
  refine ⟨before, ?_, hbefore, ?_⟩
  · rw [above, hlist, List.dropWhile_append_of_pos hne]
    simp
  · rw [hlist, List.takeWhile_append_of_pos hne]
    simp

/-- **A display is topmost where it is visible and none above it is.** -/
theorem Stacked.topmost_eq_some (h : m.Stacked) :
    m.topmost x y = some i ↔ m.covers i x y ∧ ∀ j ∈ m.above i, ¬ m.covers j x y := by
  obtain ⟨before, hlist, hbefore, -⟩ := h.split i
  rw [topmost, hlist, List.reverse_append, List.reverse_cons, List.find?_append,
    List.find?_append]
  rcases hfind : (m.above i).reverse.find? (fun i => decide (m.covers i x y)) with - | j
  · have hnone : ∀ j ∈ m.above i, ¬ m.covers j x y := by
      intro j hj
      have hfalse := List.find?_eq_none.1 hfind j (List.mem_reverse.2 hj)
      simpa using hfalse
    by_cases hcovers : m.covers i x y
    · simpa [hcovers] using hnone
    · refine iff_of_false ?_ fun hcon => hcovers hcon.1
      simp only [Option.none_or, List.find?_cons, hcovers, decide_false, List.find?_nil]
      intro hcon
      exact hbefore (List.mem_reverse.1 (List.mem_of_find?_eq_some hcon))
  · have hj : j ∈ m.above i := List.mem_reverse.1 (List.mem_of_find?_eq_some hfind)
    have hcovers : m.covers j x y := by simpa using List.find?_some hfind
    refine iff_of_false ?_ fun hcon => hcon.2 j hj hcovers
    simp only [Option.some_or, Option.some.injEq]
    rintro rfl
    have hnodup := h.nodup
    rw [hlist, List.nodup_append] at hnodup
    exact (List.nodup_cons.1 hnodup.2.1).1 hj

theorem Stacked.topmost_eq_none (h : m.Stacked) :
    m.topmost x y = none ↔ ∀ i, ¬ m.covers i x y := by
  rw [topmost, List.find?_eq_none]
  simp only [decide_eq_true_eq]
  exact ⟨fun hall i => hall i (List.mem_reverse.2 (h.complete i)), fun hall i _ => hall i⟩

/-- What displays take up of a row. -/
theorem taken_rowAreas {displays : List (Fin n)} :
    Taken (m.rowAreas displays y) x ↔ ∃ i ∈ displays, m.covers i x y := by
  simp only [Taken, rowAreas, List.mem_filterMap]
  constructor
  · rintro ⟨area, ⟨i, hi, harea⟩, hx⟩
    split at harea
    · rename_i hrow
      simp only [Option.some.injEq] at harea
      subst harea
      exact ⟨i, hi, hrow.1, hx.1, hx.2, hrow.2.1, hrow.2.2⟩
    · cases harea
  · rintro ⟨i, hi, hvisible, h1, h2, h3, h4⟩
    exact ⟨_, ⟨i, hi, if_pos ⟨hvisible, h3, h4⟩⟩, h1, h2⟩

theorem compose_of_none (h : m.topmost x y = none) : m.compose x y = m.sampleBackgroundAt x y := by
  rw [compose, h]

theorem compose_of_some (h : m.topmost x y = some i) :
    m.compose x y = (m.display i).source (x - (m.display i).x) (y - (m.display i).y) := by
  rw [compose, h]

/-- No display is at a place that the background's scan paints. -/
theorem Stacked.not_taken (h : m.Stacked) :
    ¬ Taken (m.rowAreas m.displays y) x ↔ m.topmost x y = none := by
  rw [taken_rowAreas, h.topmost_eq_none, not_exists]
  exact forall_congr' fun i => not_and.trans ⟨fun hnot => hnot (h.complete i), fun hnot _ => hnot⟩

/-- A place of the screen within a display. -/
theorem contains_solidArea (d : Display Colour) :
    d.solidArea.contains (x - d.x) (y - d.y) ↔ d.area.contains x y := by
  simp only [Rect.contains, Display.solidArea, Display.area]
  omega

/-! ## What an update loses -/

/-- The background's scan of an area loses a place of a framebuffer. -/
def LosesUncovered (m : DisplayManager n Colour) (rect area : Rect) (x y : ℤ) : Prop :=
  let rect := rect.intersect area
  BackgroundLoses (m.rowAreas m.displays y) rect.x2 x (rect.x2 - rect.x1).toNat rect.x1

/-- A display is not painted at a place within it: its scale is not known,
or the scan of its row loses the place. -/
def LosesSource (m : DisplayManager n Colour) (i : Fin n) (rect : Rect) (x y : ℤ) : Prop :=
  let d := m.display i
  let startX := max rect.x1 0
  let x2 := min rect.x2 d.getWidth
  let areas := (m.rowAreas (m.above i) (d.y + y)).map fun area => (area.1 - d.x, area.2 - d.x)
  ¬ (1 ≤ d.scale ∧ d.scale ≤ 4) ∨ DisplayLoses areas x2 x (x2 - startX).toNat startX

/-- **An update of an area loses a place** of a framebuffer: the background
there, or the display that is topmost. -/
def UpdateLoses (m : DisplayManager n Colour) (rect area : Rect) (x y : ℤ) : Prop :=
  match m.topmost x y with
  | none => m.LosesUncovered rect area x y
  | some i =>
    let d := m.display i
    m.LosesSource i (d.cut ((rect.offset (-d.x) (-d.y)).intersect d.solidArea) area)
      (x - d.x) (y - d.y)

instance : Decidable (m.LosesUncovered rect area x y) :=
  inferInstanceAs (Decidable (BackgroundLoses _ _ _ _ _))

instance : Decidable (m.LosesSource i rect x y) :=
  inferInstanceAs (Decidable (_ ∨ DisplayLoses _ _ _ _ _))

instance : Decidable (m.UpdateLoses rect area x y) :=
  match h : m.topmost x y with
  | none => decidable_of_iff (m.LosesUncovered rect area x y) (by rw [UpdateLoses, h])
  | some i => decidable_of_iff (m.LosesSource i _ _ _) (by rw [UpdateLoses, h])

/-- What a display takes up of a row is not less than nothing. -/
theorem rowAreas_le {displays : List (Fin n)} {area : ℤ × ℤ} (h : area ∈ m.rowAreas displays y) :
    area.1 ≤ area.2 := by
  obtain ⟨i, -, harea⟩ := List.mem_filterMap.1 h
  rw [Option.ite_none_right_eq_some, Option.some.injEq] at harea
  obtain ⟨-, rfl⟩ := harea
  have hwidth : 0 ≤ (m.display i).getWidth :=
    Int.mul_nonneg (Int.natCast_nonneg _) (Int.natCast_nonneg _)
  dsimp only
  omega

/-! ## What an update sets -/

section Sets

variable {P Q : Rect → ℤ → ℤ → Prop}

/-- **The pixels of a manager whose displays are these**: just where `P`
says of a framebuffer's area, each is what it should be, and the others are
what they were. -/
structure Sets (m m' : DisplayManager n Colour) (P : Rect → ℤ → ℤ → Prop) : Prop where
  config : m' = { m with framebuffers := m'.framebuffers }
  pixels : ∃ repaint : Framebuffer Colour → Framebuffer Colour,
    m'.framebuffers = m.framebuffers.map repaint ∧
      ∀ f, IsSet f (repaint f) (P f.area) m.compose

namespace Sets

theorem refl (m : DisplayManager n Colour) : Sets m m fun _ _ _ => False :=
  ⟨rfl, id, (List.map_id _).symm, fun f => IsSet.none f _⟩

theorem display (h : Sets m m' P) : m'.display = m.display := by rw [h.config]

theorem displays (h : Sets m m' P) : m'.displays = m.displays := by rw [h.config]

theorem stacked (h : Sets m m' P) (hm : m.Stacked) : m'.Stacked :=
  ⟨h.displays ▸ hm.nodup, h.displays ▸ hm.complete⟩

theorem topmost (h : Sets m m' P) : m'.topmost = m.topmost := by
  rw [h.config]
  rfl

theorem compose (h : Sets m m' P) : m'.compose = m.compose := by
  rw [h.config]
  rfl

theorem updateLoses (h : Sets m m' P) : m'.UpdateLoses = m.UpdateLoses := by
  rw [h.config]
  rfl

theorem congr (h : Sets m m' P) (hPQ : ∀ area x y, P area x y ↔ Q area x y) : Sets m m' Q := by
  obtain ⟨hconfig, repaint, hmap, hset⟩ := h
  exact ⟨hconfig, repaint, hmap, fun f => (hset f).congr (hPQ f.area) fun _ _ _ => rfl⟩

theorem trans (h : Sets m m' P) (h' : Sets m' m'' Q) :
    Sets m m'' fun area x y => P area x y ∨ Q area x y := by
  have hcompose := h.compose
  obtain ⟨hconfig, repaint, hmap, hset⟩ := h
  obtain ⟨hconfig', repaint', hmap', hset'⟩ := h'
  refine ⟨by rw [hconfig', hconfig], repaint' ∘ repaint, ?_, fun f => ?_⟩
  · rw [hmap', hmap, List.map_map]
  · have hlater := hset' (repaint f)
    rw [(hset f).area, hcompose] at hlater
    exact (hset f).trans hlater

/-- **A loop** sets what each turn does. -/
theorem foldl {Item : Type} {step : DisplayManager n Colour → Item → DisplayManager n Colour}
    {R : Item → Rect → ℤ → ℤ → Prop} (h : Sets m m' P) (items : List Item)
    (hstep : ∀ m' Q item, Sets m m' Q → Sets m' (step m' item) (R item)) :
    Sets m (items.foldl step m') fun area x y => P area x y ∨ ∃ item ∈ items, R item area x y := by
  induction items generalizing m' P with
  | nil => exact h.congr fun area x y => by simp
  | cons item items ih =>
    refine (ih (h.trans (hstep m' P item h))).congr fun area x y => ?_
    rw [or_assoc, List.exists_mem_cons_iff]

end Sets

/-- `_update_background_area` sets what no display is on, and its scan does
not lose. -/
theorem sets_updateBackgroundArea (h : m.Stacked) (rect : Rect) :
    Sets m (m.updateBackgroundArea rect) fun area x y => (rect.contains x y ∧ area.contains x y) ∧
      m.topmost x y = none ∧ ¬ m.LosesUncovered rect area x y := by
  refine ⟨rfl, _, rfl, fun f => (f.isSet_paint 0 0 _ _ _ _).congr (fun x y => ?_)
    fun x y hset => ?_⟩
  · have hwide : ∀ area ∈ m.rowAreas m.displays y, area.1 ≤ area.2 := fun area harea =>
      rowAreas_le harea
    rw [Int.sub_zero, Int.sub_zero, backgroundRuns, painted_background_iff hwide (Nat.le_refl _),
      h.not_taken, ← Rect.contains_intersect, Rect.contains, LosesUncovered]
    constructor
    · rintro ⟨hy, ⟨hx, hnone⟩, hkept⟩
      exact ⟨⟨hx.1, hx.2, hy⟩, hnone, hkept⟩
    · rintro ⟨⟨h1, h2, hy⟩, hnone, hkept⟩
      exact ⟨hy, ⟨⟨h1, h2⟩, hnone⟩, hkept⟩
  · obtain ⟨-, hpainted⟩ := hset
    rw [Int.sub_zero, Int.sub_zero] at hpainted ⊢
    rw [compose_of_none (h.not_taken.1 (not_taken_of_painted hpainted).2)]

/-- What a scan of a display sets of a row: what is not taken up by those
above it. -/
theorem painted_displayRuns_iff : Painted (m.displayRuns i rect (y - (m.display i).y))
      (x - (m.display i).x) ∧ (1 ≤ (m.display i).scale ∧ (m.display i).scale ≤ 4) ↔
    ((max rect.x1 0 ≤ x - (m.display i).x ∧
        x - (m.display i).x < min rect.x2 (m.display i).getWidth) ∧
      ∀ j ∈ m.above i, ¬ m.covers j x y) ∧
      ¬ m.LosesSource i rect (x - (m.display i).x) (y - (m.display i).y) := by
  have hrow : (m.display i).y + (y - (m.display i).y) = y := by omega
  have htaken : Taken ((m.rowAreas (m.above i) y).map
      (fun area => (area.1 - (m.display i).x, area.2 - (m.display i).x))) (x - (m.display i).x) ↔
      ∃ j ∈ m.above i, m.covers j x y := by
    rw [← taken_rowAreas]
    simp only [Taken, List.mem_map, exists_exists_and_eq_and]
    refine exists_congr fun area => and_congr_right fun _ => ?_
    omega
  rw [displayRuns, hrow, painted_display_iff (Nat.le_refl _), htaken, LosesSource, hrow, not_or,
    not_not]
  simp only [not_exists, not_and]
  exact ⟨fun h => ⟨h.1.1, h.2, h.1.2⟩, fun h => ⟨⟨h.1, h.2.2⟩, h.2.1⟩⟩

/-- The places of a display's area that are painted of a framebuffer. -/
theorem painted_cut_iff (h : m.Stacked) (hvisible : (m.display i).isVisible = true)
    (hscale : 1 ≤ (m.display i).scale ∧ (m.display i).scale ≤ 4) :
    ((((m.display i).cut rect area).y1 ≤ y - (m.display i).y ∧
        y - (m.display i).y < ((m.display i).cut rect area).y2) ∧
      Painted (m.displayRuns i ((m.display i).cut rect area) (y - (m.display i).y))
        (x - (m.display i).x)) ↔
      (rect.contains (x - (m.display i).x) (y - (m.display i).y) ∧ area.contains x y) ∧
        m.topmost x y = some i ∧ ¬ m.LosesSource i ((m.display i).cut rect area)
          (x - (m.display i).x) (y - (m.display i).y) := by
  have hcut : ((m.display i).cut rect area).contains (x - (m.display i).x)
      (y - (m.display i).y) ↔ (rect.contains (x - (m.display i).x) (y - (m.display i).y) ∧
        (m.display i).area.contains x y) ∧ area.contains x y := by
    rw [Display.cut, Rect.contains_clip, contains_solidArea, Int.sub_add_cancel,
      Int.sub_add_cancel]
  refine (and_congr_right fun _ => (and_iff_left hscale).symm.trans
    painted_displayRuns_iff).trans ?_
  rw [h.topmost_eq_some, covers, and_iff_right hvisible]
  constructor
  · rintro ⟨⟨hy1, hy2⟩, ⟨⟨hx1, hx2⟩, hnone⟩, hkept⟩
    have hplace := hcut.1 ⟨(le_max_left _ _).trans hx1, lt_of_lt_of_le hx2 (min_le_left _ _),
      hy1, hy2⟩
    exact ⟨⟨hplace.1.1, hplace.2⟩, ⟨hplace.1.2, hnone⟩, hkept⟩
  · rintro ⟨⟨hrect, hcontains⟩, ⟨harea, hnone⟩, hkept⟩
    have hsolid := (contains_solidArea (m.display i)).2 harea
    obtain ⟨hx1, hx2, hy⟩ := hcut.2 ⟨⟨hrect, harea⟩, hcontains⟩
    exact ⟨hy, ⟨⟨max_le hx1 hsolid.1, lt_min hx2 hsolid.2.1⟩, hnone⟩, hkept⟩

/-- `_update_display_area_solid` sets of an area what the display is topmost
of, and is not lost. -/
theorem sets_updateDisplayAreaSolid (h : m.Stacked) (i : Fin n) (rect : Rect) :
    Sets m (m.updateDisplayAreaSolid i rect) fun area x y =>
      (rect.contains (x - (m.display i).x) (y - (m.display i).y) ∧ area.contains x y) ∧
        m.topmost x y = some i ∧ ¬ m.LosesSource i ((m.display i).cut rect area)
          (x - (m.display i).x) (y - (m.display i).y) := by
  rw [updateDisplayAreaSolid]
  split
  · rename_i hhidden
    refine (Sets.refl m).congr fun area x y => iff_of_false not_false ?_
    rintro ⟨-, htop, -⟩
    exact Bool.false_ne_true (hhidden.symm.trans (h.topmost_eq_some.1 htop).1.1)
  · rename_i hvisible
    rw [Bool.not_eq_false] at hvisible
    split
    · rename_i hscale
      refine ⟨rfl, _, rfl, fun f => (f.isSet_paint _ _ _ _ _ _).congr
        (fun x y => painted_cut_iff h hvisible hscale) fun x y hset => ?_⟩
      rw [compose_of_some ((painted_cut_iff h hvisible hscale).1 hset).2.1]
    · rename_i hscale
      refine (Sets.refl m).congr fun area x y => iff_of_false not_false ?_
      rintro ⟨-, -, hkept⟩
      exact hkept (Or.inl hscale)

/-- **What `_update_area_solid` sets** of an area, up to a display: where
there is none, or the topmost is below it, what is not lost. -/
def AreaSet (m : DisplayManager n Colour) (below : Fin n) (rect area : Rect) (x y : ℤ) : Prop :=
  (rect.contains x y ∧ area.contains x y) ∧
    (m.topmost x y = none ∨ ∃ i ∈ m.displays.takeWhile (· ≠ below), m.topmost x y = some i) ∧
    ¬ m.UpdateLoses rect area x y

theorem sets_updateAreaSolid (h : m.Stacked) (below : Fin n) (rect : Rect) :
    Sets m (m.updateAreaSolid rect below) (m.AreaSet below rect) := by
  refine ((sets_updateBackgroundArea h rect).foldl
    (R := fun i area x y => (rect.contains x y ∧ area.contains x y) ∧ m.topmost x y = some i ∧
      ¬ m.UpdateLoses rect area x y)
    (m.displays.takeWhile (· ≠ below)) fun m' Q i hm' => ?_).congr fun area x y => ?_
  · have hstacked := hm'.stacked h
    simp only [← hm'.topmost, ← hm'.updateLoses]
    split
    · rename_i hhidden
      refine (Sets.refl m').congr fun area x y => iff_of_false not_false ?_
      rintro ⟨-, htop, -⟩
      exact Bool.false_ne_true (hhidden.symm.trans (hstacked.topmost_eq_some.1 htop).1.1)
    · refine (sets_updateDisplayAreaSolid hstacked i _).congr fun area x y => ?_
      rw [Rect.contains_intersect, Rect.contains_offset, Int.sub_neg, Int.sub_neg,
        Int.sub_add_cancel, Int.sub_add_cancel, contains_solidArea]
      constructor
      · rintro ⟨⟨⟨hrect, -⟩, hcontains⟩, htop, hkept⟩
        refine ⟨⟨hrect, hcontains⟩, htop, ?_⟩
        rw [UpdateLoses, htop]
        exact hkept
      · rintro ⟨⟨hrect, hcontains⟩, htop, hkept⟩
        rw [UpdateLoses, htop] at hkept
        exact ⟨⟨⟨hrect, (hstacked.topmost_eq_some.1 htop).1.2⟩, hcontains⟩, htop, hkept⟩
  · rw [AreaSet]
    constructor
    · rintro (⟨hplace, hnone, hkept⟩ | ⟨i, hi, hplace, htop, hkept⟩)
      · refine ⟨hplace, Or.inl hnone, ?_⟩
        rw [UpdateLoses, hnone]
        exact hkept
      · exact ⟨hplace, Or.inr ⟨i, hi, htop⟩, hkept⟩
    · rintro ⟨hplace, hnone | ⟨i, hi, htop⟩, hkept⟩
      · rw [UpdateLoses, hnone] at hkept
        exact Or.inl ⟨hplace, hnone, hkept⟩
      · exact Or.inr ⟨i, hi, hplace, htop, hkept⟩

/-- Areas set one after another. -/
theorem sets_updateAreas (h : m.Stacked) (below : Fin n) (rects : List Rect) :
    Sets m (rects.foldl (fun m rect => m.updateAreaSolid rect below) m) fun area x y =>
      ∃ rect ∈ rects, m.AreaSet below rect area x y := by
  refine ((Sets.refl m).foldl (R := m.AreaSet below) rects fun m' Q rect hm' => ?_).congr
    fun area x y => (false_or _).to_iff
  refine (sets_updateAreaSolid (hm'.stacked h) below rect).congr fun area x y => ?_
  rw [AreaSet, AreaSet, hm'.topmost, hm'.displays, hm'.updateLoses]

end Sets

/-! ## Repainting -/

/-- **The pixels of a manager whose displays are these**: each is as it
was or as it should be, and as it should be where `P` says. -/
structure Repaints (m m' : DisplayManager n Colour) (P : ℤ → ℤ → Prop) : Prop where
  config : m' = { m with framebuffers := m'.framebuffers }
  pixels : ∃ repaint : Framebuffer Colour → Framebuffer Colour,
    m'.framebuffers = m.framebuffers.map repaint ∧ ∀ f ∈ m.framebuffers,
      (repaint f).area = f.area ∧ ∀ x y, f.area.contains x y →
        ((repaint f).pixels x y = f.pixels x y ∨ (repaint f).pixels x y = m.compose x y) ∧
          (P x y → (repaint f).pixels x y = m.compose x y)

namespace Repaints

theorem refl (m : DisplayManager n Colour) : Repaints m m fun _ _ => False :=
  ⟨rfl, id, (List.map_id _).symm, fun _ _ => ⟨rfl, fun _ _ _ => ⟨Or.inl rfl, False.elim⟩⟩⟩

theorem display (h : Repaints m m' P) : m'.display = m.display := by rw [h.config]

theorem displays (h : Repaints m m' P) : m'.displays = m.displays := by rw [h.config]

theorem totalArea (h : Repaints m m' P) : m'.totalArea = m.totalArea := by rw [h.config]

theorem covers (h : Repaints m m' P) : m'.covers i x y ↔ m.covers i x y := by
  rw [DisplayManager.covers, DisplayManager.covers, h.display]

theorem topmost (h : Repaints m m' P) : m'.topmost x y = m.topmost x y := by
  rw [DisplayManager.topmost, DisplayManager.topmost, h.displays]
  simp only [h.covers]

theorem compose (h : Repaints m m' P) : m'.compose x y = m.compose x y := by
  have hbackground : m'.sampleBackgroundAt = m.sampleBackgroundAt := by rw [h.config]
  rw [DisplayManager.compose, DisplayManager.compose, h.topmost, h.display, hbackground]

theorem trans (h : Repaints m m' P) (h' : Repaints m' m'' Q) :
    Repaints m m'' fun x y => P x y ∨ Q x y := by
  have hcompose : ∀ x y, m'.compose x y = m.compose x y := fun x y => h.compose
  obtain ⟨hconfig, repaint, hmap, hpixels⟩ := h
  obtain ⟨hconfig', repaint', hmap', hpixels'⟩ := h'
  refine ⟨by rw [hconfig', hconfig], repaint' ∘ repaint, ?_, fun f hf => ?_⟩
  · rw [hmap', hmap, List.map_map]
  · obtain ⟨harea, hbefore⟩ := hpixels f hf
    have hf' : repaint f ∈ m'.framebuffers := hmap ▸ List.mem_map_of_mem hf
    obtain ⟨harea', hafter⟩ := hpixels' (repaint f) hf'
    refine ⟨harea'.trans harea, fun x y hcontains => ?_⟩
    obtain ⟨hsame, hP⟩ := hbefore x y hcontains
    obtain ⟨hsame', hQ⟩ := hafter x y (harea ▸ hcontains)
    rw [hcompose] at hsame' hQ
    refine ⟨?_, ?_⟩
    · rcases hsame' with heq | hright
      · exact hsame.imp heq.trans heq.trans
      · exact Or.inr hright
    · rintro (hp | hq)
      · exact hsame'.elim (fun heq => heq.trans (hP hp)) id
      · exact hQ hq

theorem mono (h : Repaints m m' P) (hPQ : ∀ x y, Q x y → P x y) : Repaints m m' Q := by
  obtain ⟨hconfig, repaint, hmap, hpixels⟩ := h
  refine ⟨hconfig, repaint, hmap, fun f hf => ⟨(hpixels f hf).1, fun x y hcontains => ?_⟩⟩
  obtain ⟨hsame, hright⟩ := (hpixels f hf).2 x y hcontains
  exact ⟨hsame, fun hQ => hright (hPQ x y hQ)⟩

/-- The areas of the framebuffers stay. -/
theorem areas (h : Repaints m m' P) :
    m'.framebuffers.map (·.area) = m.framebuffers.map (·.area) := by
  obtain ⟨-, repaint, hmap, hpixels⟩ := h
  rw [hmap, List.map_map]
  exact List.map_congr_left fun f hf => (hpixels f hf).1

end Repaints

/-- **What is set is repainted**, and what is set for sure. -/
theorem Sets.repaints {R : Rect → ℤ → ℤ → Prop} (h : Sets m m' R)
    (hsure : ∀ f ∈ m.framebuffers, ∀ x y, f.area.contains x y → P x y → R f.area x y) :
    Repaints m m' P := by
  obtain ⟨hconfig, repaint, hmap, hset⟩ := h
  refine ⟨hconfig, repaint, hmap, fun f hf => ⟨(hset f).area, fun x y hcontains => ⟨?_, ?_⟩⟩⟩
  · by_cases hplace : R f.area x y
    · exact Or.inr ((hset f).on x y hplace)
    · exact Or.inl ((hset f).off x y hplace)
  · intro hp
    exact (hset f).on x y (hsure f hf x y hcontains hp)

/-! ## What is sure to be painted -/

/-- **The background's scan of an area meets no gap** before a display it
met further to the right. -/
def Straight (m : DisplayManager n Colour) (rect : Rect) : Prop :=
  ∀ f ∈ m.framebuffers, ∀ row ∈ List.range
    ((rect.intersect f.area).y2 - (rect.intersect f.area).y1).toNat,
      RowStraight (m.rowAreas m.displays ((rect.intersect f.area).y1 + row))
        (rect.intersect f.area).x2 ((rect.intersect f.area).x2 - (rect.intersect f.area).x1).toNat
        (rect.intersect f.area).x1

instance (m : DisplayManager n Colour) (rect : Rect) : Decidable (m.Straight rect) :=
  inferInstanceAs (Decidable (∀ f ∈ m.framebuffers, _))

/-- What is visible is of some width, and of a scale that is known. -/
def Paintable (m : DisplayManager n Colour) : Prop :=
  ∀ i, (m.display i).isVisible = true →
    0 < (m.display i).width ∧ 1 ≤ (m.display i).scale ∧ (m.display i).scale ≤ 4

theorem Paintable.wide (h : m.Paintable) {displays : List (Fin n)} :
    ∀ area ∈ m.rowAreas displays y, area.1 < area.2 := by
  intro area harea
  simp only [rowAreas, List.mem_filterMap] at harea
  obtain ⟨i, -, harea⟩ := harea
  split at harea
  · rename_i hrow
    simp only [Option.some.injEq] at harea
    subst harea
    obtain ⟨hwidth, hscale, -⟩ := h i hrow.1
    have hpos : 0 < (m.display i).getWidth := by
      rw [Display.getWidth]
      exact Int.mul_pos (by omega) (by omega)
    simp only
    omega
  · cases harea

/-- A scan that meets no gap loses nothing. -/
theorem not_losesUncovered {f : Framebuffer Colour} (hstacked : m.Stacked)
    (hpaintable : m.Paintable) (hstraight : m.Straight rect) (hf : f ∈ m.framebuffers)
    (hcontains : f.area.contains x y) (hrect : rect.contains x y) (hnone : m.topmost x y = none) :
    ¬ m.LosesUncovered rect f.area x y := by
  obtain ⟨hx1, hx2, hy1, hy2⟩ := Rect.contains_intersect.2 ⟨hrect, hcontains⟩
  obtain ⟨row, hrow⟩ : ∃ row : ℕ, y = (rect.intersect f.area).y1 + row :=
    ⟨(y - (rect.intersect f.area).y1).toNat, by omega⟩
  have hmeets := hstraight f hf row (List.mem_range.2 (by omega))
  rw [← hrow] at hmeets
  have hpainted := painted_of_not_taken hpaintable.wide le_rfl hx1 hx2 (hstacked.not_taken.2 hnone)
  rw [← scanRow_straight hmeets, painted_background_iff (fun _ => rowAreas_le) le_rfl] at hpainted
  exact hpainted.2

/-- Nor does that of a display, as those above it have something of their
rows. -/
theorem not_losesSource {displayRect : Rect} (hstacked : m.Stacked) (hpaintable : m.Paintable)
    (hcontains : area.contains x y)
    (hrect : displayRect.contains (x - (m.display i).x) (y - (m.display i).y))
    (htop : m.topmost x y = some i) :
    ¬ m.LosesSource i ((m.display i).cut displayRect area) (x - (m.display i).x)
      (y - (m.display i).y) := by
  obtain ⟨⟨hvisible, harea⟩, -⟩ := hstacked.topmost_eq_some.1 htop
  have hsolid := (contains_solidArea (m.display i)).2 harea
  have hcut : ((m.display i).cut displayRect area).contains (x - (m.display i).x)
      (y - (m.display i).y) := by
    rw [Display.cut, Rect.contains_clip, Int.sub_add_cancel, Int.sub_add_cancel]
    exact ⟨⟨hrect, hsolid⟩, hcontains⟩
  rintro (hscale | hloses)
  · exact hscale (hpaintable i hvisible).2
  · refine not_displayLoses (fun area harea => ?_) (lt_min hcut.2.1 hsolid.2.1) hloses
    obtain ⟨area', harea', rfl⟩ := List.mem_map.1 harea
    have hlt := hpaintable.wide area' harea'
    dsimp only
    omega

/-- **`_update_display_area_solid` paints a display** where it is topmost. -/
theorem repaints_updateDisplayAreaSolid (h : m.Stacked) (hpaintable : m.Paintable) (i : Fin n)
    (rect : Rect) : Repaints m (m.updateDisplayAreaSolid i rect) fun x y =>
      rect.contains (x - (m.display i).x) (y - (m.display i).y) ∧ m.topmost x y = some i := by
  refine (sets_updateDisplayAreaSolid h i rect).repaints ?_
  rintro f - x y hcontains ⟨hrect, htop⟩
  exact ⟨⟨hrect, hcontains⟩, htop, not_losesSource h hpaintable hcontains hrect htop⟩

/-- `_update_display_solid` paints all of it. -/
theorem repaints_updateDisplaySolid (h : m.Stacked) (hpaintable : m.Paintable) (i : Fin n) :
    Repaints m (m.updateDisplaySolid i) fun x y => m.topmost x y = some i := by
  refine (repaints_updateDisplayAreaSolid h hpaintable i _).mono fun x y htop => ⟨?_, htop⟩
  exact (contains_solidArea (m.display i)).2 (h.topmost_eq_some.1 htop).1.2

/-! ## Stays of a repaint -/

theorem Repaints.stacked (h : Repaints m m' P) (hm : m.Stacked) : m'.Stacked :=
  ⟨h.displays ▸ hm.nodup, h.displays ▸ hm.complete⟩

theorem Repaints.paintable (h : Repaints m m' P) (hm : m.Paintable) : m'.Paintable := by
  rw [Paintable, h.display]
  exact hm

/-! ## An area -/

/-- Where `_update_area_solid` is sure to paint an area up to a display:
where there is none, unless the background's scan meets a gap, and where
the topmost is below it. -/
def AreaPainted (m : DisplayManager n Colour) (rect : Rect) (below : Fin n) (x y : ℤ) : Prop :=
  rect.contains x y ∧ ((m.Straight rect ∧ m.topmost x y = none) ∨
    ∃ i ∈ m.displays.takeWhile (· ≠ below), m.topmost x y = some i)

/-- It is set there. -/
theorem areaSet_of_painted {f : Framebuffer Colour} {below : Fin n} (h : m.Stacked)
    (hpaintable : m.Paintable) (hf : f ∈ m.framebuffers) (hcontains : f.area.contains x y)
    (hpainted : m.AreaPainted rect below x y) : m.AreaSet below rect f.area x y := by
  obtain ⟨hrect, ⟨hstraight, hnone⟩ | ⟨i, hi, htop⟩⟩ := hpainted
  · refine ⟨⟨hrect, hcontains⟩, Or.inl hnone, ?_⟩
    rw [UpdateLoses, hnone]
    exact not_losesUncovered h hpaintable hstraight hf hcontains hrect hnone
  · refine ⟨⟨hrect, hcontains⟩, Or.inr ⟨i, hi, htop⟩, ?_⟩
    have hplace : ((rect.offset (-(m.display i).x) (-(m.display i).y)).intersect
        (m.display i).solidArea).contains (x - (m.display i).x) (y - (m.display i).y) := by
      rw [Rect.contains_intersect, Rect.contains_offset, Int.sub_neg, Int.sub_neg,
        Int.sub_add_cancel, Int.sub_add_cancel]
      exact ⟨hrect, (contains_solidArea _).2 (h.topmost_eq_some.1 htop).1.2⟩
    rw [UpdateLoses, htop]
    exact not_losesSource h hpaintable hcontains hplace htop

/-- **There it paints what should be there.** -/
theorem repaints_updateAreaSolid (h : m.Stacked) (hpaintable : m.Paintable) (rect : Rect)
    (below : Fin n) : Repaints m (m.updateAreaSolid rect below) (m.AreaPainted rect below) :=
  (sets_updateAreaSolid h below rect).repaints fun _ hf _ _ hcontains hpainted =>
    areaSet_of_painted h hpaintable hf hcontains hpainted

/-- Areas updated one after another. -/
theorem repaints_updateAreas (h : m.Stacked) (hpaintable : m.Paintable) (rects : List Rect)
    (below : Fin n) :
    Repaints m (rects.foldl (fun m rect => m.updateAreaSolid rect below) m)
      fun x y => ∃ rect ∈ rects, m.AreaPainted rect below x y := by
  refine (sets_updateAreas h below rects).repaints ?_
  rintro f hf x y hcontains ⟨rect, hmem, hpainted⟩
  exact ⟨rect, hmem, areaSet_of_painted h hpaintable hf hcontains hpainted⟩

/-- **After a change of the displays a repaint is enough** where it
changes what should be there. -/
theorem Composed.repaint (h : m.Composed) (hframebuffers : m'.framebuffers = m.framebuffers)
    (hrepaints : Repaints m' m'' P)
    (hchanged : ∀ f ∈ m.framebuffers, ∀ x y, f.area.contains x y →
      P x y ∨ m'.compose x y = m.compose x y) : m''.Composed := by
  have hcompose : ∀ x y, m''.compose x y = m'.compose x y := fun x y => hrepaints.compose
  obtain ⟨-, repaint, hmap, hpixels⟩ := hrepaints
  intro f'' hf'' x y hcontains
  rw [hmap, hframebuffers] at hf''
  obtain ⟨f, hf, rfl⟩ := List.mem_map.1 hf''
  obtain ⟨harea, hboth⟩ := hpixels f (hframebuffers ▸ hf)
  rw [harea] at hcontains
  obtain ⟨hsame, hP⟩ := hboth x y hcontains
  rw [hcompose]
  rcases hchanged f hf x y hcontains with hp | heq
  · exact hP hp
  · rcases hsame with hunchanged | hright
    · rw [hunchanged, heq]
      exact h f hf x y hcontains
    · exact hright

end DisplayManager

end Uberos
