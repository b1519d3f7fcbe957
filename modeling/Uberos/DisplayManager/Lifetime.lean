import Mathlib.Logic.Equiv.Fin.Basic
import Mathlib.Logic.Relation
import Uberos.DisplayManager.Composed
/-!
# Displays that come and go

`_create_view`, `~Display` and `Display::update` of
`drivers/DisplayManager.cpp`, between the calls that show, move and
restack displays. A display that is created is on top of its layer and is
not shown; one that is destroyed, by its owner or with its thread, is taken
from the list and its area is updated. The displays are numbered anew where
one comes or goes. The colour of the bytes that `bzero` leaves is
`cleared`; what is drawn into a display is drawn before it is updated.
-/

namespace Uberos

namespace DisplayManager

variable {n : ℕ} {Colour : Type}

/-! ## The calls -/

/-- `_update_area_solid` with `below` a null pointer. -/
def updateArea (m : DisplayManager n Colour) (rect : Rect) : DisplayManager n Colour :=
  m.displays.foldl (fun m i =>
    let d := m.display i
    if d.isVisible = false then m
    else m.updateDisplayAreaSolid i ((rect.offset (-d.x) (-d.y)).intersect d.solidArea))
    (m.updateBackgroundArea rect)

/-- The display `_create_view` makes, in the middle of the first
framebuffer. -/
def newDisplay (framebuffer : Framebuffer Colour) (cleared : Colour)
    (layer width height scale : ℕ) : Display Colour where
  x := (framebuffer.area.x2 - framebuffer.area.x1 - width).tdiv 2
  y := max 0 ((framebuffer.area.y2 - framebuffer.area.y1 - height).tdiv 2)
  layer := layer
  scale := scale
  width := width
  height := height
  buffer _ _ := cleared
  isVisible := false

/-- `_create_view` puts it on top of its layer. -/
def createView (m : DisplayManager n Colour) (created : Display Colour) :
    DisplayManager (n + 1) Colour :=
  let display : Fin (n + 1) → Display Colour :=
    Fin.snoc (α := fun _ => Display Colour) m.display created
  { display := display
    displays := insertByLayer display (Fin.last n) (m.displays.map Fin.castSucc)
    framebuffers := m.framebuffers
    totalArea := m.totalArea
    sampleBackgroundAt := m.sampleBackgroundAt }

/-- `displays.pop`, and the display is gone. -/
def pop (m : DisplayManager (n + 1) Colour) (i : Fin (n + 1)) : DisplayManager n Colour where
  display k := m.display (i.succAbove k)
  displays := m.displays.filterMap (finSuccEquiv' i)
  framebuffers := m.framebuffers
  totalArea := m.totalArea
  sampleBackgroundAt := m.sampleBackgroundAt

/-- `~Display`. -/
def delete (m : DisplayManager (n + 1) Colour) (i : Fin (n + 1)) : DisplayManager n Colour :=
  (m.pop i).updateArea (m.display i).area

/-- A display is drawn into, and `Display::update`. -/
def draw (m : DisplayManager n Colour) (i : Fin n) (buffer : ℕ → ℕ → Colour) :
    DisplayManager n Colour :=
  let drawn := m.setDisplay i { m.display i with buffer := buffer }
  if (m.display i).isVisible = false then drawn else drawn.updateDisplaySolid i

/-- **What can happen next**, to however many displays there are. -/
inductive Happens (cleared : Colour) :
    (Σ n, DisplayManager n Colour) → (Σ n, DisplayManager n Colour) → Prop
  /-- The first framebuffer is there for a display to be created. -/
  | create {n : ℕ} (m : DisplayManager n Colour) (framebuffer : Framebuffer Colour)
      (layer width height scale : ℕ) (hfirst : m.framebuffers.head? = some framebuffer) :
      Happens cleared ⟨n, m⟩
        ⟨n + 1, m.createView (newDisplay framebuffer cleared layer width height scale)⟩
  /-- What is under a display can be seen, for the background's scan, once
  it is gone. -/
  | delete {n : ℕ} (m : DisplayManager (n + 1) Colour) (i : Fin (n + 1))
      (hstraight : (m.pop i).Straight (m.display i).area) :
      Happens cleared ⟨n + 1, m⟩ ⟨n, m.delete i⟩
  | draw {n : ℕ} (m : DisplayManager n Colour) (i : Fin n) (buffer : ℕ → ℕ → Colour) :
      Happens cleared ⟨n, m⟩ ⟨n, m.draw i buffer⟩
  | step {n : ℕ} (m : DisplayManager n Colour) (op : Op n) (hsafe : m.Safe op) :
      Happens cleared ⟨n, m⟩ ⟨n, m.step op⟩

/-! ## One display more -/

variable {m : DisplayManager n Colour} {m' : DisplayManager (n + 1) Colour} {i : Fin (n + 1)}
variable {x y : ℤ}

/-- **The same displays but for one more.** -/
structure OneMore (i : Fin (n + 1)) (m : DisplayManager n Colour)
    (m' : DisplayManager (n + 1) Colour) : Prop where
  display : ∀ k, m'.display (i.succAbove k) = m.display k
  displays : m'.displays.erase i = m.displays.map i.succAbove
  framebuffers : m'.framebuffers = m.framebuffers
  totalArea : m'.totalArea = m.totalArea
  sampleBackgroundAt : m'.sampleBackgroundAt = m.sampleBackgroundAt

/-- Where the one more is not topmost, what was topmost is. -/
theorem OneMore.topmost (h : OneMore i m m') (htop : m'.topmost x y ≠ some i) :
    m'.topmost x y = (m.topmost x y).map i.succAbove := by
  rw [DisplayManager.topmost] at htop ⊢
  rw [DisplayManager.topmost, ← find?_erase htop, h.displays, ← List.map_reverse, List.find?_map]
  refine congrArg _ (List.find?_congr fun k _ => decide_eq_decide.2 ?_)
  rw [covers, covers, h.display]

/-- There the screen should be as it was. -/
theorem OneMore.compose (h : OneMore i m m') (htop : m'.topmost x y ≠ some i) :
    m'.compose x y = m.compose x y := by
  have hsame := h.topmost htop
  rcases hfind : m.topmost x y with - | k
  · rw [hfind] at hsame
    rw [compose_of_none hfind, compose_of_none hsame, h.sampleBackgroundAt]
  · rw [hfind] at hsame
    rw [compose_of_some hfind, compose_of_some hsame, h.display]

/-- What is left of a list without one. -/
theorem map_filterMap_succAbove {displays : List (Fin (n + 1))} (hnodup : displays.Nodup) :
    (displays.filterMap (finSuccEquiv' i)).map i.succAbove = displays.erase i := by
  induction displays with
  | nil => rfl
  | cons j displays ih =>
    have hrest := ih (List.nodup_cons.1 hnodup).2
    rcases eq_or_ne j i with rfl | hne
    · have hmem := (List.nodup_cons.1 hnodup).1
      rw [List.filterMap_cons_none (finSuccEquiv'_at j), hrest, List.erase_cons_head,
        List.erase_of_not_mem hmem]
    · obtain ⟨k, rfl⟩ := Fin.exists_succAbove_eq hne
      rw [List.filterMap_cons_some (finSuccEquiv'_succAbove i k), List.map_cons, hrest,
        List.erase_cons_tail (by simp)]

theorem oneMore_pop (hm : m'.Stacked) : OneMore i (m'.pop i) m' :=
  ⟨fun _ => rfl, (map_filterMap_succAbove hm.nodup).symm, rfl, rfl, rfl⟩

/-- The displays of both are stacked, or of neither. -/
theorem OneMore.stacked (h : OneMore i m m') (hm : m'.Stacked) : m.Stacked := by
  have hnodup : (m.displays.map i.succAbove).Nodup := h.displays ▸ hm.nodup.erase i
  refine ⟨List.Nodup.of_map _ hnodup, fun k => ?_⟩
  have hk : i.succAbove k ∈ m'.displays.erase i :=
    hm.nodup.mem_erase_iff.2 ⟨Fin.succAbove_ne i k, hm.complete _⟩
  rw [h.displays] at hk
  exact (List.mem_map_of_injective Fin.succAbove_right_injective).1 hk

theorem OneMore.layered (h : OneMore i m m') (hlayered : m'.Layered) : m.Layered := by
  have hothers : InLayers m'.display (m.displays.map i.succAbove) :=
    h.displays ▸ hlayered.sublist List.erase_sublist
  refine (List.pairwise_map.1 hothers).imp fun {j k} hle => ?_
  rwa [h.display, h.display] at hle

theorem OneMore.paintable (h : OneMore i m m') (hpaintable : m'.Paintable) : m.Paintable := by
  intro k hvisible
  have hk := hpaintable (i.succAbove k)
  rw [h.display] at hk
  exact hk hvisible

/-! ## Creating a display -/

section Create

variable {created : Display Colour}

theorem createView_display (k : Fin n) :
    (m.createView created).display k.castSucc = m.display k :=
  Fin.snoc_castSucc (α := fun _ => Display Colour) _ _ _

@[simp] theorem createView_display_last : (m.createView created).display (Fin.last n) = created :=
  Fin.snoc_last (α := fun _ => Display Colour) _ _

/-- It is put among the others, by its layer. -/
theorem putAmong_createView (created : Display Colour) (h : m.Stacked) (hlayered : m.Layered) :
    PutAmong (m.createView created).display
      ((m.createView created).display (Fin.last n)).layer (Fin.last n)
      (m.displays.map Fin.castSucc) (m.createView created).displays
      fun j => ((m.createView created).display (Fin.last n)).layer <
        ((m.createView created).display j).layer := by
  refine putAmong_insertByLayer ?_ (h.nodup.map (Fin.castSucc_injective n))
  refine List.pairwise_map.2 (hlayered.imp fun {j k} hle => ?_)
  rwa [createView_display, createView_display]

theorem last_not_mem {displays : List (Fin n)} : Fin.last n ∉ displays.map Fin.castSucc := by
  intro hmem
  obtain ⟨k, -, hk⟩ := List.mem_map.1 hmem
  exact Fin.castSucc_ne_last k hk

theorem oneMore_createView (created : Display Colour) (h : m.Stacked) (hlayered : m.Layered) :
    OneMore (Fin.last n) m (m.createView created) := by
  refine ⟨fun k => ?_, ?_, rfl, rfl, rfl⟩
  · rw [Fin.succAbove_last]
    exact createView_display k
  · obtain ⟨before, after, hothers, hcreated, -⟩ := putAmong_createView created h hlayered
    have hlast : Fin.last n ∉ before := fun hmem =>
      last_not_mem (hothers ▸ List.mem_append_left _ hmem)
    rw [hcreated, List.erase_append_right _ hlast, List.erase_cons_head, ← hothers,
      Fin.succAbove_last]

theorem stacked_createView (created : Display Colour) (h : m.Stacked) (hlayered : m.Layered) :
    (m.createView created).Stacked := by
  have hperm := (putAmong_createView created h hlayered).perm
  refine ⟨hperm.nodup_iff.2 ?_, fun j => hperm.mem_iff.2 ?_⟩
  · exact List.nodup_cons.2 ⟨last_not_mem, h.nodup.map (Fin.castSucc_injective n)⟩
  · cases j using Fin.lastCases with
    | last => exact List.mem_cons_self
    | cast k => exact List.mem_cons_of_mem _ (List.mem_map_of_mem (h.complete k))

/-- **A display that is created changes nothing on the screen.** -/
theorem Sound.createView (h : m.Sound) (hhidden : created.isVisible = false) :
    (m.createView created).Sound := by
  have hmore := oneMore_createView created h.stacked h.layered
  have hput := putAmong_createView created h.stacked h.layered
  have hstacked := stacked_createView created h.stacked h.layered
  refine ⟨fun f hf x y hcontains => ?_, hstacked, hput.inLayers ?_, fun j hvisible => ?_, h.inside⟩
  · have htop : (m.createView created).topmost x y ≠ some (Fin.last n) := by
      intro htop
      have hvisible := (hstacked.topmost_eq_some.1 htop).1.1
      rw [createView_display_last, hhidden] at hvisible
      cases hvisible
    rw [hmore.compose htop]
    exact h.composed f hf x y hcontains
  · refine List.pairwise_map.2 (h.layered.imp fun {j k} hle => ?_)
    rwa [createView_display, createView_display]
  · cases j using Fin.lastCases with
    | last =>
      rw [createView_display_last, hhidden] at hvisible
      cases hvisible
    | cast k =>
      rw [createView_display] at hvisible ⊢
      exact h.paintable k hvisible

end Create

/-! ## Deleting one -/

/-- The turn of a display sets what of the area it is topmost of. -/
theorem sets_turn (h : m.Stacked) (rect : Rect) (k : Fin n) :
    Sets m (if (m.display k).isVisible = false then m
      else m.updateDisplayAreaSolid k
        ((rect.offset (-(m.display k).x) (-(m.display k).y)).intersect (m.display k).solidArea))
      fun area x y => (rect.contains x y ∧ area.contains x y) ∧ m.topmost x y = some k ∧
        ¬ m.UpdateLoses rect area x y := by
  split
  · next hhidden =>
    refine (Sets.refl m).congr fun area x y => iff_of_false not_false ?_
    rintro ⟨-, htop, -⟩
    exact Bool.false_ne_true (hhidden.symm.trans (h.topmost_eq_some.1 htop).1.1)
  · refine (sets_updateDisplayAreaSolid h k _).congr fun area x y => ?_
    rw [Rect.contains_intersect, Rect.contains_offset, Int.sub_neg, Int.sub_neg,
      Int.sub_add_cancel, Int.sub_add_cancel, contains_solidArea]
    constructor
    · rintro ⟨⟨⟨hrect, -⟩, hcontains⟩, htop, hkept⟩
      refine ⟨⟨hrect, hcontains⟩, htop, ?_⟩
      rw [UpdateLoses, htop]
      exact hkept
    · rintro ⟨⟨hrect, hcontains⟩, htop, hkept⟩
      rw [UpdateLoses, htop] at hkept
      exact ⟨⟨⟨hrect, (h.topmost_eq_some.1 htop).1.2⟩, hcontains⟩, htop, hkept⟩

/-- `_update_area_solid` of all displays sets what it does not lose. -/
theorem sets_updateArea (h : m.Stacked) (rect : Rect) :
    Sets m (m.updateArea rect) fun area x y =>
      (rect.contains x y ∧ area.contains x y) ∧ ¬ m.UpdateLoses rect area x y := by
  refine ((sets_updateBackgroundArea h rect).foldl
    (R := fun k area x y => (rect.contains x y ∧ area.contains x y) ∧ m.topmost x y = some k ∧
      ¬ m.UpdateLoses rect area x y) m.displays fun m' Q k hm' => ?_).congr fun area x y => ?_
  · have hturn := sets_turn (hm'.stacked h) rect k
    rw [hm'.topmost, hm'.updateLoses] at hturn
    exact hturn
  · constructor
    · rintro (⟨hplace, hnone, hkept⟩ | ⟨k, -, hplace, -, hkept⟩)
      · refine ⟨hplace, ?_⟩
        rw [UpdateLoses, hnone]
        exact hkept
      · exact ⟨hplace, hkept⟩
    · rintro ⟨hplace, hkept⟩
      rcases htop : m.topmost x y with - | k
      · rw [UpdateLoses, htop] at hkept
        exact Or.inl ⟨hplace, rfl, hkept⟩
      · exact Or.inr ⟨k, h.complete k, hplace, rfl, hkept⟩

/-- **It is sure to paint all of an area** in which the background's scan
meets no gap. -/
theorem repaints_updateArea (h : m.Stacked) (hpaintable : m.Paintable) {rect : Rect}
    (hstraight : m.Straight rect) : Repaints m (m.updateArea rect) rect.contains := by
  refine (sets_updateArea h rect).repaints fun f hf x y hcontains hrect =>
    ⟨⟨hrect, hcontains⟩, ?_⟩
  rw [UpdateLoses]
  split
  · next hnone => exact not_losesUncovered h hpaintable hstraight hf hcontains hrect hnone
  · next k htop =>
    refine not_losesSource h hpaintable hcontains ?_ htop
    rw [Rect.contains_intersect, Rect.contains_offset, Int.sub_neg, Int.sub_neg,
      Int.sub_add_cancel, Int.sub_add_cancel]
    exact ⟨hrect, (contains_solidArea _).2 (h.topmost_eq_some.1 htop).1.2⟩

/-- **A display that is deleted leaves what was under it.** -/
theorem Sound.delete (h : m'.Sound) (hstraight : (m'.pop i).Straight (m'.display i).area) :
    (m'.delete i).Sound := by
  have hmore := oneMore_pop (i := i) h.stacked
  have hstacked := hmore.stacked h.stacked
  have hpaintable := hmore.paintable h.paintable
  have hrepaints := repaints_updateArea hstacked hpaintable hstraight
  have hcompose : ∀ x y, (m'.delete i).compose x y = (m'.pop i).compose x y :=
    fun x y => hrepaints.compose
  refine ⟨fun f'' hf'' x y hcontains => ?_, hrepaints.stacked hstacked, ?_,
    hrepaints.paintable hpaintable, fun f'' hf'' x y hcontains => ?_⟩
  · obtain ⟨-, repaint, hmap, hpixels⟩ := hrepaints
    rw [DisplayManager.delete, hmap] at hf''
    obtain ⟨f, hf, rfl⟩ := List.mem_map.1 hf''
    obtain ⟨harea, hboth⟩ := hpixels f hf
    rw [harea] at hcontains
    obtain ⟨hsame, hset⟩ := hboth x y hcontains
    rw [hcompose]
    by_cases htop : m'.topmost x y = some i
    · exact hset (h.stacked.topmost_eq_some.1 htop).1.2
    · -- elsewhere the screen already is as it should be
      rcases hsame with hunchanged | hright
      · rw [hunchanged, ← hmore.compose htop]
        exact h.composed f hf x y hcontains
      · exact hright
  · have hlayered := hmore.layered h.layered
    rw [Layered, DisplayManager.delete, hrepaints.display, hrepaints.displays]
    exact hlayered
  · have harea : f''.area ∈ (m'.pop i).framebuffers.map (·.area) :=
      hrepaints.areas ▸ List.mem_map_of_mem hf''
    obtain ⟨f, hf, heq⟩ := List.mem_map.1 harea
    rw [DisplayManager.delete, hrepaints.totalArea]
    exact h.inside f hf x y (heq ▸ hcontains)

/-! ## Drawing into one -/

/-- **A display that is drawn into is painted** where it is topmost. -/
theorem Sound.draw {k : Fin n} (h : m.Sound) (buffer : ℕ → ℕ → Colour) :
    (m.draw k buffer).Sound := by
  have hstacked : (m.setDisplay k { m.display k with buffer := buffer }).Stacked :=
    h.stacked.setDisplay
  have hallBut := allBut_setDisplay m k { m.display k with buffer := buffer }
  have hpaintable := h.paintable.setDisplay (i := k) (d := { m.display k with buffer := buffer })
    (h.paintable k)
  have hlayered := h.layered.setDisplay (i := k) (d := { m.display k with buffer := buffer }) rfl
  have hcovers : ∀ x y j, (m.setDisplay k { m.display k with buffer := buffer }).covers j x y ↔
      m.covers j x y := by
    intro x y j
    rcases eq_or_ne j k with rfl | hne
    · rw [covers, setDisplay_display_self, covers]
      rfl
    · exact hallBut.covers hne
  have htopmost : ∀ x y, (m.setDisplay k { m.display k with buffer := buffer }).topmost x y =
      m.topmost x y := by
    intro x y
    exact List.find?_congr fun j _ => decide_eq_decide.2 (hcovers x y j)
  rw [DisplayManager.draw]
  split
  · next hhidden =>
    refine h.repaint hallBut hstacked hlayered hpaintable (Repaints.refl _) (fun x y htop => ?_)
      fun f _ x y _ htop htop' => htop' ((htopmost x y).trans htop)
    rw [htopmost] at htop
    exact Bool.false_ne_true (hhidden.symm.trans (h.stacked.topmost_eq_some.1 htop).1.1)
  · exact h.repaint hallBut hstacked hlayered hpaintable
      (repaints_updateDisplaySolid hstacked hpaintable k) (fun x y htop => htop)
      fun f _ x y _ htop htop' => absurd ((htopmost x y).trans htop) htop'

/-! ## The result -/

/-- **Each of what can happen keeps the screen as it should be.** -/
theorem Happens.sound {cleared : Colour} {s s' : Σ n, DisplayManager n Colour}
    (h : Happens cleared s s') (hs : s.2.Sound) : s'.2.Sound := by
  cases h with
  | create m framebuffer layer width height scale hfirst => exact hs.createView rfl
  | delete m i hstraight => exact hs.delete hstraight
  | draw m k buffer => exact hs.draw buffer
  | step m op hsafe => exact hs.step hsafe

end DisplayManager

end Uberos
