import Mathlib.Data.Int.Range
import Uberos.DisplayManager.Stack
/-!
# The screen over a run

Each function repaints the display it is called for, and those that hide
or move it also where it was. What should be on the screen changes only
where that display was topmost or is. Where it is topmost it is painted,
so what is left is where it was and is no longer: after it is hidden or
moved, which the background's scan has to come by, and after it is put
under others that are on it, where nothing is repainted.
-/

namespace Uberos

namespace Rect

variable {r : Rect} {x y : ℤ} {P : ℤ → ℤ → Prop}

/-- Every place of a rectangle is so. -/
def All (r : Rect) (P : ℤ → ℤ → Prop) : Prop :=
  ∀ x, r.x1 ≤ x → x < r.x2 → ∀ y, r.y1 ≤ y → y < r.y2 → P x y

instance (r : Rect) [∀ x y, Decidable (P x y)] : Decidable (r.All P) :=
  inferInstanceAs (Decidable (∀ x, r.x1 ≤ x → x < r.x2 → ∀ y, r.y1 ≤ y → y < r.y2 → P x y))

theorem All.of_contains (h : r.All P) (hcontains : r.contains x y) : P x y :=
  h x hcontains.1 hcontains.2.1 y hcontains.2.2.1 hcontains.2.2.2

theorem all_iff : r.All P ↔ ∀ x y, r.contains x y → P x y :=
  ⟨fun h _ _ hcontains => h.of_contains hcontains,
    fun h x hx1 hx2 y hy1 hy2 => h x y ⟨hx1, hx2, hy1, hy2⟩⟩

end Rect

namespace DisplayManager

variable {n : ℕ} {Colour : Type} {m m' m'' : DisplayManager n Colour} {i j other : Fin n}
variable {x y : ℤ} {P : ℤ → ℤ → Prop}

/-- What holds between steps. -/
structure Sound (m : DisplayManager n Colour) : Prop where
  composed : m.Composed
  stacked : m.Stacked
  layered : m.Layered
  paintable : m.Paintable
  /-- The framebuffers are in the total area. -/
  inside : ∀ f ∈ m.framebuffers, ∀ x y, f.area.contains x y → m.totalArea.contains x y

/-- **After a change to one display a repaint is enough** that has it
painted where it is topmost, and something where it was. -/
theorem Sound.repaint (h : m.Sound) (hallBut : AllBut i m m') (hstacked : m'.Stacked)
    (hlayered : m'.Layered) (hpaintable : m'.Paintable) (hrepaints : Repaints m' m'' P)
    (hnew : ∀ x y, m'.topmost x y = some i → P x y)
    (hold : ∀ f ∈ m.framebuffers, ∀ x y, f.area.contains x y → m.topmost x y = some i →
      m'.topmost x y ≠ some i → P x y) : m''.Sound where
  composed := by
    refine h.composed.repaint hallBut.framebuffers hrepaints fun f hf x y hcontains => ?_
    by_cases htop' : m'.topmost x y = some i
    · exact Or.inl (hnew x y htop')
    · by_cases htop : m.topmost x y = some i
      · exact Or.inl (hold f hf x y hcontains htop htop')
      · exact Or.inr (hallBut.compose h.stacked htop htop')
  stacked := hrepaints.stacked hstacked
  layered := by
    rw [Layered, hrepaints.display, hrepaints.displays]
    exact hlayered
  paintable := hrepaints.paintable hpaintable
  inside := by
    intro f'' hf'' x y hcontains
    have harea : f''.area ∈ m.framebuffers.map (·.area) := by
      rw [← hallBut.framebuffers, ← hrepaints.areas]
      exact List.mem_map_of_mem hf''
    obtain ⟨f, hf, heq⟩ := List.mem_map.1 harea
    rw [hrepaints.totalArea, hallBut.totalArea]
    exact h.inside f hf x y (heq ▸ hcontains)

/-! ## Showing and hiding -/

theorem Layered.setDisplay {d : Display Colour} (h : m.Layered)
    (hlayer : d.layer = (m.display i).layer) : (m.setDisplay i d).Layered := by
  have hsame : ∀ j, ((m.setDisplay i d).display j).layer = (m.display j).layer := by
    intro j
    by_cases hj : j = i
    · rw [hj, setDisplay_display_self, hlayer]
    · rw [(allBut_setDisplay m i d).display j hj]
  exact h.imp fun {j k} hle => by rwa [hsame j, hsame k]

theorem Paintable.setDisplay {d : Display Colour} (h : m.Paintable)
    (hd : d.isVisible = true → 0 < d.width ∧ 1 ≤ d.scale ∧ d.scale ≤ 4) :
    (m.setDisplay i d).Paintable := by
  intro j hvisible
  by_cases hj : j = i
  · rw [hj, setDisplay_display_self] at hvisible ⊢
    exact hd hvisible
  · rw [(allBut_setDisplay m i d).display j hj] at hvisible ⊢
    exact h j hvisible

theorem Stacked.setDisplay {d : Display Colour} (h : m.Stacked) : (m.setDisplay i d).Stacked :=
  ⟨h.nodup, h.complete⟩

theorem Sound.showDisplay (h : m.Sound) (hwidth : 0 < (m.display i).width)
    (hscale : 1 ≤ (m.display i).scale ∧ (m.display i).scale ≤ 4) : (m.showDisplay i).Sound := by
  rw [DisplayManager.showDisplay]
  split
  · exact h
  · rename_i hhidden
    have hpaintable := h.paintable.setDisplay (i := i) (d := { m.display i with isVisible := true })
      fun _ => ⟨hwidth, hscale⟩
    have hallBut := allBut_setDisplay m i { m.display i with isVisible := true }
    refine h.repaint hallBut h.stacked.setDisplay (h.layered.setDisplay rfl)
      hpaintable (repaints_updateDisplaySolid h.stacked.setDisplay hpaintable i)
      (fun _ _ htop => htop) fun f _ x y _ htop _ => ?_
    exact absurd (h.stacked.topmost_eq_some.1 htop).1.1 hhidden

/-- What a display was topmost of is what is left under it, or nothing. -/
theorem Stacked.topmost_uncovered (h : m.Stacked) (hallBut : AllBut i m m')
    (hdisplays : m'.displays = m.displays) (htop : m.topmost x y = some i)
    (htop' : m'.topmost x y ≠ some i) :
    m'.topmost x y = none ∨ ∃ j ∈ m'.displays.takeWhile (· ≠ i), m'.topmost x y = some j := by
  rcases hfind : m'.topmost x y with - | j
  · exact Or.inl rfl
  · refine Or.inr ⟨j, ?_, rfl⟩
    have hne : j ≠ i := fun heq => htop' (heq ▸ hfind)
    have hstacked : m'.Stacked := ⟨hdisplays ▸ h.nodup, hdisplays ▸ h.complete⟩
    have hcovers : m.covers j x y :=
      (hallBut.covers hne).1 (hstacked.topmost_eq_some.1 hfind).1
    obtain ⟨before, hlist, -, htake⟩ := h.split i
    rw [hdisplays, htake]
    have hj := h.complete j
    rw [hlist, List.mem_append, List.mem_cons] at hj
    -- it is not above, where nothing covered what was topmost
    rcases hj with hj | rfl | hj
    · exact hj
    · exact absurd rfl hne
    · exact absurd hcovers ((h.topmost_eq_some.1 htop).2 j hj)

theorem Sound.hideDisplay (h : m.Sound) (hstraight : (m.display i).isVisible = true →
    (m.setDisplay i { m.display i with isVisible := false }).Straight (m.display i).area) :
    (m.hideDisplay i).Sound := by
  rw [DisplayManager.hideDisplay]
  split
  · exact h
  · rename_i hvisible
    rw [Bool.not_eq_false] at hvisible
    have hpaintable := h.paintable.setDisplay (i := i)
      (d := { m.display i with isVisible := false }) fun hcon => absurd hcon Bool.false_ne_true
    have hallBut := allBut_setDisplay m i { m.display i with isVisible := false }
    refine h.repaint hallBut h.stacked.setDisplay (h.layered.setDisplay rfl) hpaintable
      (repaints_updateAreaSolid h.stacked.setDisplay hpaintable (m.display i).area i)
      (fun x y htop => ?_) fun f _ x y _ htop htop' => ⟨(h.stacked.topmost_eq_some.1 htop).1.2, ?_⟩
    · -- it is topmost nowhere any more
      have hcovers := (h.stacked.setDisplay.topmost_eq_some.1 htop).1
      rw [covers, setDisplay_display_self] at hcovers
      exact absurd hcovers.1 Bool.false_ne_true
    · exact (h.stacked.topmost_uncovered hallBut rfl htop htop').imp_left
        fun hnone => ⟨hstraight hvisible, hnone⟩

/-! ## Moving -/

/-- **What is left of the old area is in the parts of it.** -/
theorem exists_uncovered {totalArea oldRect area : Rect} (hold : oldRect.contains x y)
    (htotal : totalArea.contains x y) (hnew : ¬ area.contains x y) :
    ∃ rect ∈ uncovered totalArea oldRect area, rect.contains x y := by
  have hpart : ∀ rect : Rect, oldRect.intersect rect ∈ uncovered totalArea oldRect area →
      rect.contains x y → ∃ rect ∈ uncovered totalArea oldRect area, rect.contains x y :=
    fun rect hmem hrect => ⟨_, hmem, Rect.contains_intersect.2 ⟨hold, hrect⟩⟩
  obtain ⟨hx1, hx2, hy1, hy2⟩ := htotal
  by_cases habove : y < area.y1
  · refine hpart _ ?_ (⟨hx1, hx2, hy1, habove⟩ :
      Rect.contains ⟨totalArea.x1, totalArea.y1, totalArea.x2, area.y1⟩ x y)
    simp [uncovered, hy1.trans_lt habove]
  · by_cases hbelow : area.y2 ≤ y
    · refine hpart _ ?_ (⟨hx1, hx2, hbelow, hy2⟩ :
        Rect.contains ⟨totalArea.x1, area.y2, totalArea.x2, totalArea.y2⟩ x y)
      simp [uncovered, hbelow.trans_lt hy2]
    · by_cases hleft : x < area.x1
      · refine hpart _ ?_ (⟨hx1, hleft, not_lt.1 habove, not_le.1 hbelow⟩ :
          Rect.contains ⟨totalArea.x1, area.y1, area.x1, area.y2⟩ x y)
        simp [uncovered, hx1.trans_lt hleft]
      · have hright : area.x2 ≤ x := by
          by_contra hcon
          exact hnew ⟨not_lt.1 hleft, not_le.1 hcon, not_lt.1 habove, not_le.1 hbelow⟩
        refine hpart _ ?_ (⟨hright, hx2, not_lt.1 habove, not_le.1 hbelow⟩ :
          Rect.contains ⟨area.x2, area.y1, totalArea.x2, area.y2⟩ x y)
        simp [uncovered, hright.trans_lt hx2]

/-- **`_move_display_to` paints** the parts of the old area and the
display. -/
theorem repaints_moveDisplayTo (hm : (m.setDisplay i { m.display i with x := x, y := y }).Stacked)
    (hpaintable : (m.setDisplay i { m.display i with x := x, y := y }).Paintable)
    (hmoved : ¬ ((m.display i).x = x ∧ (m.display i).y = y))
    (hvisible : (m.display i).isVisible = true) :
    Repaints (m.setDisplay i { m.display i with x := x, y := y }) (m.moveDisplayTo i x y)
      fun x' y' =>
        (∃ rect ∈ uncovered m.totalArea (m.display i).area
            { m.display i with x := x, y := y }.area,
          (m.setDisplay i { m.display i with x := x, y := y }).AreaPainted rect i x' y') ∨
        (m.setDisplay i { m.display i with x := x, y := y }).topmost x' y' = some i := by
  rw [DisplayManager.moveDisplayTo, if_neg hmoved, if_neg (by simp [hvisible])]
  have hcleared := repaints_updateAreas hm hpaintable (uncovered m.totalArea (m.display i).area
    { m.display i with x := x, y := y }.area) i
  have hunder := repaints_updateAreaSolid (hcleared.stacked hm) (hcleared.paintable hpaintable)
    { m.display i with x := x, y := y }.area i
  have hboth := hcleared.trans hunder
  refine (hboth.trans (repaints_updateDisplayAreaSolid (hboth.stacked hm)
    (hboth.paintable hpaintable) i _)).mono fun x' y' hor => ?_
  -- of the area it is at now nothing is used but the display itself
  rcases hor with hpart | htop
  · exact Or.inl (Or.inl hpart)
  · refine Or.inr ⟨?_, hboth.topmost.trans htop⟩
    have harea := (hm.topmost_eq_some.1 htop).1.2
    rw [setDisplay_display_self] at harea
    rw [hboth.display, setDisplay_display_self, Rect.contains_intersect, Rect.contains_offset,
      Int.sub_neg, Int.sub_neg, Int.sub_add_cancel, Int.sub_add_cancel]
    exact ⟨harea, (contains_solidArea _).2 harea⟩

theorem Sound.moveDisplayTo (h : m.Sound) (hstraight : (m.display i).isVisible = true →
    ∀ rect ∈ uncovered m.totalArea (m.display i).area { m.display i with x := x, y := y }.area,
      (m.setDisplay i { m.display i with x := x, y := y }).Straight rect) :
    (m.moveDisplayTo i x y).Sound := by
  have hstacked : (m.setDisplay i { m.display i with x := x, y := y }).Stacked :=
    h.stacked.setDisplay
  have hpaintable := h.paintable.setDisplay (i := i) (d := { m.display i with x := x, y := y })
    (h.paintable i)
  have hlayered := h.layered.setDisplay (i := i) (d := { m.display i with x := x, y := y }) rfl
  have hallBut := allBut_setDisplay m i { m.display i with x := x, y := y }
  by_cases hmoved : (m.display i).x = x ∧ (m.display i).y = y
  · rw [DisplayManager.moveDisplayTo, if_pos hmoved]
    exact h
  · by_cases hvisible : (m.display i).isVisible = true
    · refine h.repaint hallBut hstacked hlayered hpaintable
        (repaints_moveDisplayTo hstacked hpaintable hmoved hvisible) (fun _ _ htop => Or.inr htop)
        fun f hf x' y' hcontains htop htop' => ?_
      obtain ⟨hcovers, hnone⟩ := h.stacked.topmost_eq_some.1 htop
      -- it is not where the display is now, where it would be topmost
      have hnew : ¬ { m.display i with x := x, y := y }.area.contains x' y' := by
        intro hcon
        refine htop' (hstacked.topmost_eq_some.2 ⟨?_, fun j hj => ?_⟩)
        · rw [covers, setDisplay_display_self]
          exact ⟨hvisible, hcon⟩
        · have hne : j ≠ i := fun heq => hnone j hj (heq ▸ hcovers)
          rw [hallBut.covers hne]
          exact hnone j hj
      obtain ⟨rect, hmem, hrect⟩ := exists_uncovered hcovers.2 (h.inside f hf x' y' hcontains)
        hnew
      refine Or.inl ⟨rect, hmem, hrect, ?_⟩
      exact (h.stacked.topmost_uncovered hallBut rfl htop htop').imp_left
        fun hnone => ⟨hstraight hvisible rect hmem, hnone⟩
    · rw [DisplayManager.moveDisplayTo, if_neg hmoved, if_pos (by simpa using hvisible)]
      refine h.repaint hallBut hstacked hlayered hpaintable (Repaints.refl _)
        (fun x' y' htop => ?_) fun f _ x' y' _ htop _ => ?_
      · have hcovers := (hstacked.topmost_eq_some.1 htop).1
        rw [covers, setDisplay_display_self] at hcovers
        exact absurd hcovers.1 hvisible
      · exact absurd (h.stacked.topmost_eq_some.1 htop).1.1 hvisible

/-! ## Restacking -/

/-- **Putting a display elsewhere is safe** unless it goes under another
where it was topmost. -/
theorem Sound.restack {layer : ℕ} {insert : List (Fin n) → List (Fin n)} {under : Fin n → Prop}
    (h : m.Sound)
    (hput : PutAmong m.display layer i (m.displays.erase i) (insert (m.displays.erase i)) under)
    (hclear : ∀ f ∈ m.framebuffers, ∀ x y, f.area.contains x y → m.topmost x y = some i →
      ∀ j, j ≠ i → under j → ¬ m.covers j x y) :
    ((m.restack i layer insert).updateDisplaySolid i).Sound := by
  have hallBut := allBut_restack h.stacked hput
  have hstacked := stacked_restack h.stacked hput
  have hpaintable : (m.restack i layer insert).Paintable :=
    h.paintable.setDisplay (d := { m.display i with layer := layer }) (h.paintable i)
  refine h.repaint hallBut hstacked (layered_restack h.stacked h.layered hput) hpaintable
    (repaints_updateDisplaySolid hstacked hpaintable i) (fun _ _ htop => htop)
    fun f hf x y hcontains htop htop' => ?_
  -- where it was topmost it still is, as none it is under now is there
  refine absurd (hstacked.topmost_eq_some.2 ⟨?_, fun j hj => ?_⟩) htop'
  · have hcovers := (h.stacked.topmost_eq_some.1 htop).1
    rw [covers] at hcovers ⊢
    simp only [DisplayManager.restack, setDisplay_display_self]
    exact hcovers
  · obtain ⟨hne, hunder⟩ := under_of_mem_above h.stacked hput hj
    rw [hallBut.covers hne]
    exact hclear f hf x y hcontains htop j hne hunder

/-- Displays of higher layers are above. -/
theorem mem_above_of_layer (hm : m.Stacked) (hlayered : m.Layered)
    (hlt : (m.display i).layer < (m.display j).layer) : j ∈ m.above i := by
  obtain ⟨before, hlist, -, -⟩ := hm.split i
  have hj := hm.complete j
  rw [Layered, InLayers, hlist, List.pairwise_append] at hlayered
  rw [hlist, List.mem_append, List.mem_cons] at hj
  rcases hj with hj | rfl | hj
  · exact absurd (hlayered.2.2 j hj i List.mem_cons_self) (not_le.2 hlt)
  · exact absurd hlt (lt_irrefl _)
  · exact hj

theorem Sound.raiseDisplay (h : m.Sound) : (m.raiseDisplay i).Sound := by
  rw [DisplayManager.raiseDisplay]
  split
  · exact h
  · refine h.restack (putAmong_insertByLayer (h.layered.sublist List.erase_sublist)
      (h.stacked.nodup.sublist List.erase_sublist)) fun f _ x y _ htop j _ hlt => ?_
    exact (h.stacked.topmost_eq_some.1 htop).2 j (mem_above_of_layer h.stacked h.layered hlt)

/-- Where a display is topmost none of these is, itself apart. -/
def UnobscuredAt (m : DisplayManager n Colour) (i : Fin n) (under : List (Fin n)) (x y : ℤ) :
    Prop :=
  m.topmost x y = some i → ∀ j ∈ under, j = i ∨ ¬ m.covers j x y

instance (m : DisplayManager n Colour) (i : Fin n) (under : List (Fin n)) (x y : ℤ) :
    Decidable (m.UnobscuredAt i under x y) :=
  inferInstanceAs (Decidable (_ → ∀ j ∈ under, _))

/-- **On no pixel of the screen** that a display has is there one of
these. -/
def Unobscured (m : DisplayManager n Colour) (i : Fin n) (under : List (Fin n)) : Prop :=
  ∀ f ∈ m.framebuffers, f.area.All (m.UnobscuredAt i under)

instance (m : DisplayManager n Colour) (i : Fin n) (under : List (Fin n)) :
    Decidable (m.Unobscured i under) :=
  inferInstanceAs (Decidable (∀ f ∈ m.framebuffers, f.area.All (m.UnobscuredAt i under)))

theorem Unobscured.not_covers {under : List (Fin n)} (h : m.Unobscured i under)
    {f : Framebuffer Colour} (hf : f ∈ m.framebuffers) (hcontains : f.area.contains x y)
    (htop : m.topmost x y = some i) (hne : j ≠ i) (hj : j ∈ under) : ¬ m.covers j x y :=
  ((h f hf).of_contains hcontains htop j hj).resolve_left hne

theorem Sound.placeAbove (h : m.Sound) (hne : i ≠ other)
    (hclear : m.Unobscured i (m.above other)) : (m.placeAbove i other).Sound := by
  obtain ⟨before, after, hothers, hother, hafter⟩ := h.stacked.erase_split hne
  exact h.restack (putAmong_insertAfter (h.layered.sublist List.erase_sublist) hothers hother)
    fun f hf x y hcontains htop j hj hunder =>
      hclear.not_covers hf hcontains htop hj (hafter j hunder)

theorem Sound.placeBelow (h : m.Sound) (hne : i ≠ other)
    (hclear : m.Unobscured i (other :: m.above other)) : (m.placeBelow i other).Sound := by
  obtain ⟨before, after, hothers, hother, hafter⟩ := h.stacked.erase_split hne
  refine h.restack (putAmong_insertBefore (h.layered.sublist List.erase_sublist) hothers hother)
    fun f hf x y hcontains htop j hj hunder => hclear.not_covers hf hcontains htop hj ?_
  rcases List.mem_cons.1 hunder with rfl | hunder
  · exact List.mem_cons_self
  · exact List.mem_cons_of_mem _ (hafter j hunder)

theorem Sound.setDisplayLayer {layer : ℕ} (h : m.Sound) (hclear : (m.display i).layer ≠ layer →
    m.Unobscured i (m.displays.filter fun j => layer ≤ (m.display j).layer)) :
    (m.setDisplayLayer i layer).Sound := by
  rw [DisplayManager.setDisplayLayer]
  split
  · exact h
  · rename_i hlayer
    refine h.restack (putAmong_insertUnderLayer (h.layered.sublist List.erase_sublist))
      fun f hf x y hcontains htop j hj hunder => ?_
    refine (hclear hlayer).not_covers hf hcontains htop hj (List.mem_filter.2 ⟨?_, ?_⟩)
    · exact List.mem_of_mem_erase hunder.1
    · exact decide_eq_true hunder.2

/-! ## Runs -/

/-- **When a step leaves the screen as it should be.** What is shown has
to be at least a pixel wide and of a known scale. The background's scan
must meet no gap in the area of a display that is hidden, nor in the parts
that a move uncovers. No display goes under one that is on it where it is
topmost, or is placed by itself. -/
def Safe (m : DisplayManager n Colour) : Op n → Prop
  | .showDisplay i =>
    0 < (m.display i).width ∧ 1 ≤ (m.display i).scale ∧ (m.display i).scale ≤ 4
  | .hideDisplay i => (m.display i).isVisible = true →
    (m.setDisplay i { m.display i with isVisible := false }).Straight (m.display i).area
  | .moveTo i x y => (m.display i).isVisible = true →
    ∀ rect ∈ uncovered m.totalArea (m.display i).area { m.display i with x := x, y := y }.area,
      (m.setDisplay i { m.display i with x := x, y := y }).Straight rect
  | .raise _ => True
  | .placeAbove i other => i ≠ other ∧ m.Unobscured i (m.above other)
  | .placeBelow i other => i ≠ other ∧ m.Unobscured i (other :: m.above other)
  | .setLayer i layer => (m.display i).layer ≠ layer →
    m.Unobscured i (m.displays.filter fun j => layer ≤ (m.display j).layer)

instance (m : DisplayManager n Colour) : ∀ op : Op n, Decidable (m.Safe op)
  | .showDisplay _ => inferInstanceAs (Decidable (_ ∧ _))
  | .hideDisplay _ => inferInstanceAs (Decidable (_ → Straight _ _))
  | .moveTo _ _ _ => inferInstanceAs (Decidable (_ → ∀ rect ∈ uncovered _ _ _, Straight _ rect))
  | .raise _ => inferInstanceAs (Decidable True)
  | .placeAbove _ _ => inferInstanceAs (Decidable (_ ≠ _ ∧ Unobscured _ _ _))
  | .placeBelow _ _ => inferInstanceAs (Decidable (_ ≠ _ ∧ Unobscured _ _ _))
  | .setLayer _ _ => inferInstanceAs (Decidable (_ ≠ _ → Unobscured _ _ _))

theorem Sound.step {op : Op n} (h : m.Sound) (hsafe : m.Safe op) : (m.step op).Sound := by
  cases op with
  | showDisplay i => exact h.showDisplay hsafe.1 hsafe.2
  | hideDisplay i => exact h.hideDisplay hsafe
  | moveTo i x y => exact h.moveDisplayTo hsafe
  | raise i => exact h.raiseDisplay
  | placeAbove i other => exact h.placeAbove hsafe.1 hsafe.2
  | placeBelow i other => exact h.placeBelow hsafe.1 hsafe.2
  | setLayer i layer => exact h.setDisplayLayer hsafe

/-! ## The start -/

/-- Displays inserted by layer, one after another. -/
theorem inLayers_foldl_insertByLayer (display : Fin n → Display Colour) (is : List (Fin n))
    {displays : List (Fin n)} (hlayers : InLayers display displays)
    (hnodup : (is ++ displays).Nodup) :
    (is.foldl (fun displays i => insertByLayer display i displays) displays).Perm
        (is ++ displays) ∧
      InLayers display
        (is.foldl (fun displays i => insertByLayer display i displays) displays) := by
  induction is generalizing displays with
  | nil => exact ⟨List.Perm.refl _, hlayers⟩
  | cons i is ih =>
    have hput : PutAmong display (display i).layer i displays (insertByLayer display i displays)
        fun j => (display i).layer < (display j).layer :=
      putAmong_insertByLayer hlayers (List.nodup_append.1 hnodup).2.1
    have hperm : (is ++ insertByLayer display i displays).Perm (i :: is ++ displays) :=
      (hput.perm.append_left is).trans List.perm_middle
    obtain ⟨hfold, hfolded⟩ := ih (hput.inLayers hlayers) (hperm.nodup_iff.2 hnodup)
    exact ⟨hfold.trans hperm, hfolded⟩

/-- An area is in the total of a list that has it. -/
theorem contains_foldl_extend {areas : List Rect} {total : Rect}
    (h : total.contains x y ∨ ∃ area ∈ areas, area.contains x y) :
    (areas.foldl Rect.extend total).contains x y := by
  induction areas generalizing total with
  | nil => exact h.resolve_right fun ⟨_, hmem, _⟩ => by cases hmem
  | cons area areas ih =>
    refine ih ?_
    rcases h with htotal | ⟨area', hmem, hcontains⟩
    · exact Or.inl (Rect.contains_extend (Or.inl htotal))
    · rcases List.mem_cons.1 hmem with rfl | hmem
      · exact Or.inl (Rect.contains_extend (Or.inr hcontains))
      · exact Or.inr ⟨area', hmem, hcontains⟩

theorem sound_new (display : Fin n → Display Colour) (sizes : List (ℕ × ℕ))
    (sampleBackgroundAt : ℤ → ℤ → Colour) : (new display sizes sampleBackgroundAt).Sound := by
  have hnodup : (List.finRange n ++ []).Nodup := by
    rw [List.append_nil]
    exact List.nodup_finRange n
  obtain ⟨hperm, hlayers⟩ :=
    inLayers_foldl_insertByLayer display (List.finRange n) List.Pairwise.nil hnodup
  rw [List.append_nil] at hperm
  refine ⟨fun f hf x y _ => ?_, ⟨hperm.nodup_iff.2 (List.nodup_finRange n), fun i =>
    hperm.mem_iff.2 (List.mem_finRange i)⟩, hlayers, fun i hvisible => ?_,
    fun f hf x y hcontains => ?_⟩
  · -- no display is visible, and the framebuffers show the background
    have hnone : (new display sizes sampleBackgroundAt).topmost x y = none := by
      rw [topmost, List.find?_eq_none]
      intro i _
      simp [covers, new]
    obtain ⟨area, -, rfl⟩ := List.mem_map.1 hf
    exact (compose_of_none hnone).symm
  · exact absurd hvisible Bool.false_ne_true
  · obtain ⟨area, harea, rfl⟩ := List.mem_map.1 hf
    exact contains_foldl_extend (Or.inr ⟨area, harea, hcontains⟩)

/-- **The screen is as it should be throughout a run of safe steps.** -/
theorem composed_run (display : Fin n → Display Colour) (sizes : List (ℕ × ℕ))
    (sampleBackgroundAt : ℤ → ℤ → Colour) (ops : List (Op n))
    (h : Library.Along step Safe (new display sizes sampleBackgroundAt) ops) :
    Library.Throughout step Composed (new display sizes sampleBackgroundAt) ops :=
  Library.throughout_of_invariant h (sound_new display sizes sampleBackgroundAt)
    (fun _ _ hsound hsafe => hsound.step hsafe) fun _ hsound => hsound.composed

/-- A display of one colour, not yet shown. -/
def tile (x y : ℤ) (layer scale width height colour : ℕ) : Display ℕ where
  x := x
  y := y
  layer := layer
  scale := scale
  width := width
  height := height
  buffer _ _ := colour
  isVisible := false

/-- A run with each of the steps, over two framebuffers. -/
theorem composed_run_tiles : Library.Throughout step Composed
    (new [tile 0 0 1 1 3 2 1, tile 1 0 1 2 1 1 2, tile 2 1 2 1 2 1 3].get [(3, 2), (2, 1)]
      fun _ _ => 0)
    [.showDisplay 0, .showDisplay 1, .showDisplay 2, .moveTo 1 3 0, .raise 0, .placeAbove 2 0,
      .placeBelow 1 0, .setLayer 0 2, .hideDisplay 2] :=
  composed_run _ _ _ _ (by decide)

/-- **A display put under another is not painted over**, and a gap between
two displays, the one on the left the upper, is passed over when what was
seen through it is hidden. -/
theorem not_composed_run :
    ¬ Library.Throughout step Composed
        (new [tile 0 0 0 1 1 1 1, tile 0 0 0 1 1 1 2].get [(1, 1)] fun _ _ => 0)
        [.showDisplay 0, .showDisplay 1, .placeBelow 1 0] ∧
      ¬ Library.Throughout step Composed
        (new [tile 0 0 0 1 5 1 1, tile 3 0 0 1 1 1 2, tile 1 0 0 1 1 1 3].get [(5, 1)]
          fun _ _ => 0)
        [.showDisplay 0, .showDisplay 1, .showDisplay 2, .hideDisplay 0] := by
  constructor
  · intro h
    have hpixel := h.last _ (List.getElem_mem (by decide : 0 < _)) 0 0 (by decide)
    exact absurd hpixel (by decide)
  · intro h
    have hpixel := h.last _ (List.getElem_mem (by decide : 0 < _)) 2 0 (by decide)
    exact absurd hpixel (by decide)

end DisplayManager

end Uberos
