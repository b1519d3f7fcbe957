import Uberos.DesktopManager.Closing
/-!
# Standing windows

The windows that stand are strips that have been laid on the screen in
some order. As one goes the others close up, and are laid as they would
be without it; as one comes it is laid behind them. In between, the window
area is no larger than it is in the end.
-/

namespace Uberos

namespace DesktopManager

variable {Id : Type} [DecidableEq Id] {screen : Screen Id} {window window' : Id → Window}
variable {order : List Id} {id other : Id}

/-- **The standing windows are laid in an order**, each at a size it
keeps. -/
structure Tiled (screen : Screen Id) (window : Id → Window) (order : List Id) : Prop where
  nodup : order.Nodup
  mem_iff : ∀ id, id ∈ order ↔ Stands (window id)
  laid : Laid (fun id => (window id).rect) (fun id => (window id).dockedType) screen.totalArea order
    (free screen none window)
  roomy : ∀ id, Stands (window id) → Roomy (window id)

/-- What they leave is as they are laid. -/
theorem Laid.eq_free {final : Rect} (hnodup : order.Nodup)
    (hmem : ∀ id, id ∈ order ↔ Stands (window id))
    (h : Laid (fun id => (window id).rect) (fun id => (window id).dockedType) screen.totalArea order
      final) : free screen none window = final := by
  have hmem' : ∀ id, id ∈ order ↔ some id ≠ none ∧ Stands (window id) := by
    intro id
    rw [hmem]
    exact (and_iff_right (Option.some_ne_none id)).symm
  rw [free_eq_leaves hnodup hmem', h.eq_leaves]

/-! ## One goes -/

/-- Those laid before it, and after. -/
theorem Tiled.split (h : Tiled screen window order) (hid : Stands (window id)) :
    ∃ before after, order = before ++ id :: after :=
  List.append_of_mem ((h.mem_iff id).2 hid)

/-- Where strips close up to is on the screen. -/
theorem Tiled.onScreen (h : Tiled screen window order) (hid : Stands (window id))
    (hother : Stands (window other)) (hbehind : IsBehind (window id) (window other)) :
    OnScreen screen (closedRect (window id) (window other)) := by
  obtain ⟨before, after, rfl⟩ := h.split hid
  have hnodup := h.nodup
  rw [List.nodup_append] at hnodup
  let closedRects : Id → Rect := fun j =>
    if j ∈ after then closedRect (window id) (window j) else (window j).rect
  have hstay : ∀ j ∈ before, closedRects j = (window j).rect :=
    fun j hj => if_neg fun hafter => hnodup.2.2 j hj j (List.mem_cons_of_mem _ hafter) rfl
  have hclose : ∀ j ∈ after, closedRects j = closedRect (window id) (window j) :=
    fun j hj => if_pos hj
  have hremove := h.laid.remove hstay hclose
  have hne : other ≠ id := by
    rintro rfl
    exact (h.roomy other hother).not_isBehind hbehind
  have hafter : other ∈ after := by
    rcases List.mem_append.1 ((h.mem_iff other).2 hother) with hbefore | hafter
    · exact absurd hbehind (h.laid.not_behind hbefore)
    · exact (List.mem_cons.1 hafter).resolve_left hne
  have hbounds := hremove.bounds (List.mem_append_right before hafter)
  rw [hclose other hafter] at hbounds
  exact ⟨hbounds.1, hbounds.2.1, hbounds.2.2.1, hbounds.2.2.2.1⟩

/-- **A window that stands closes up to where its strip does.** -/
theorem Tiled.closing (h : Tiled screen window order) (hid : Stands (window id))
    (hother : Stands (window other)) (hbehind : IsBehind (window id) (window other)) :
    (screen.closeUp (window id) (window other)).1.rect = closedRect (window id) (window other) ∧
      Roomy (screen.closeUp (window id) (window other)).1 := by
  have hroomy := h.roomy id hid
  have hle := hroomy.le_width
  have hle' := hroomy.le_height
  rw [closeUp_of_behind hbehind]
  exact closing_spec (h.roomy other hother) hother.2.2 ⟨by omega, by omega⟩ hid.2.2
    (h.onScreen hid hother hbehind)

theorem Tiled.closeUp_roomy (h : Tiled screen window order) (hid : Stands (window id))
    (hother : Stands (window other)) : Roomy (screen.closeUp (window id) (window other)).1 := by
  by_cases hbehind : IsBehind (window id) (window other)
  · exact (h.closing hid hother hbehind).2
  · rw [closeUp_of_not_behind hbehind]
    exact h.roomy other hother

/-- **The others are laid without it**, and what they leave has what it
took. -/
theorem Tiled.remove (h : Tiled screen window order) (hid : Stands (window id))
    (hstands : ∀ j, Stands (window' j) ↔ j ≠ id ∧ Stands (window j))
    (hclosed : ∀ j, j ≠ id → Stands (window j) →
      window' j = (screen.closeUp (window id) (window j)).1) :
    (∃ order', Tiled screen window' order') ∧ free screen none window' =
      giveBack (window id).dockedType (window id).rect (free screen none window) := by
  obtain ⟨before, after, rfl⟩ := h.split hid
  have hlaid := h.laid
  have hnodup := h.nodup
  have hmem := h.mem_iff
  rw [List.nodup_middle, List.nodup_cons] at hnodup
  have hothers : ∀ j, j ∈ before ++ after ↔ Stands (window' j) := by
    intro j
    rw [hstands, ← hmem j]
    constructor
    · intro hj
      refine ⟨fun heq => hnodup.1 (heq ▸ hj), ?_⟩
      rcases List.mem_append.1 hj with hj | hj
      · exact List.mem_append_left _ hj
      · exact List.mem_append_right _ (List.mem_cons_of_mem _ hj)
    · rintro ⟨hne, hj⟩
      rcases List.mem_append.1 hj with hj | hj
      · exact List.mem_append_left _ hj
      · exact List.mem_append_right _ ((List.mem_cons.1 hj).resolve_left hne)
  have hwindow : ∀ j ∈ before ++ after,
      window' j = (screen.closeUp (window id) (window j)).1 := by
    intro j hj
    obtain ⟨hne, hj⟩ := (hstands j).1 ((hothers j).1 hj)
    exact hclosed j hne hj
  have htype : ∀ j ∈ before ++ after, (window' j).dockedType = (window j).dockedType := by
    intro j hj
    rw [hwindow j hj, moved_closeUp.dockedType]
  have hbefore : ∀ j ∈ before, (window' j).rect = (window j).rect := by
    intro j hj
    have hnot : ¬ IsBehind (window id) (window j) := hlaid.not_behind hj
    rw [hwindow j (List.mem_append_left _ hj), closeUp_of_not_behind hnot]
  have hafter : ∀ j ∈ after, (window' j).rect = closedRect (window id) (window j) := by
    intro j hj
    have hmemJ := List.mem_append_right before hj
    have hstandsJ := ((hstands j).1 ((hothers j).1 hmemJ)).2
    rw [hwindow j hmemJ]
    by_cases hside : (window j).dockedType = opposite (window id).dockedType
    · -- It begins at the other side, and stays.
      have hclosedJ : closedRect (window id) (window j) = (window j).rect := by
        unfold closedRect
        rw [hside]
        exact closed_opposite hid.2.2 _ _
      have hnot : ¬ IsBehind (window id) (window j) := by
        unfold IsBehind
        rw [hside]
        exact not_behind_opposite
      rw [closeUp_of_not_behind hnot, hclosedJ]
    · obtain ⟨middle, -, hrest⟩ := laid_append.1 hlaid
      exact (h.closing hid hstandsJ (hrest.behind hj hside)).1
  have hremove := (hlaid.remove hbefore hafter).congr (fun _ _ => rfl) htype
  have hnodup' := hnodup.2
  have hfree := hremove.eq_free hnodup' hothers
  refine ⟨⟨before ++ after, hnodup', hothers, hfree ▸ hremove, fun j hj => ?_⟩, hfree⟩
  obtain ⟨hne, hj⟩ := (hstands j).1 hj
  rw [hclosed j hne hj]
  exact h.closeUp_roomy hid hj

/-! ## In between -/

/-- **Some have closed up, and others may have**: no other stands. -/
def Between (screen : Screen Id) (id : Id) (window window' : Id → Window) : Prop :=
  ∀ j, j ≠ id → (Stands (window' j) ↔ Stands (window j)) ∧
    (Stands (window j) →
      window' j = window j ∨ window' j = (screen.closeUp (window id) (window j)).1)

/-- **The window area is no larger than in the end.** -/
theorem Tiled.inside_between (h : Tiled screen window order) (hid : Stands (window id))
    (hbetween : Between screen id window window') : Inside (free screen none window')
      (giveBack (window id).dockedType (window id).rect (free screen none window)) := by
  let last : Id → Window := fun j =>
    if j = id then { window id with isVisible := false }
    else (screen.closeUp (window id) (window j)).1
  have hlast : ∀ j, j ≠ id → last j = (screen.closeUp (window id) (window j)).1 :=
    fun j hne => if_neg hne
  have hstands : ∀ j, Stands (last j) ↔ j ≠ id ∧ Stands (window j) := by
    intro j
    by_cases hj : j = id
    · have hgone : last j = { window id with isVisible := false } := if_pos hj
      rw [hgone]
      exact iff_of_false (fun h => Bool.false_ne_true h.1) fun h => h.1 hj
    · rw [hlast j hj, moved_closeUp.stands_iff]
      exact (and_iff_right hj).symm
  rw [← (h.remove hid hstands fun j hne _ => hlast j hne).2]
  have hfewer : (standing screen none last).Sublist (standing screen none window') := by
    refine List.monotone_filter_right _ fun j hj => ?_
    simp only [decide_eq_true_eq] at hj ⊢
    obtain ⟨hne, hj'⟩ := (hstands j).1 hj.2
    exact ⟨hj.1, ((hbetween j hne).1).2 hj'⟩
  refine (leaves_sublist hfewer (.refl _)).trans (leaves_mono (fun j hj a => ?_) (.refl _))
  obtain ⟨hne, hj⟩ := (hstands j).1 (mem_standing.1 hj).2
  rw [hlast j hne]
  rcases (hbetween j hne).2 hj with hsame | hclosed
  · rw [hsame, moved_closeUp.dockedType]
    by_cases hbehind : IsBehind (window id) (window j)
    · have hroomy := h.roomy id hid
      have hle := hroomy.le_width
      have hle' := hroomy.le_height
      rw [(h.closing hid hj hbehind).1]
      refine inside_cut_closed ?_
      simp only [Window.rect, Rect.width, Rect.height]
      omega
    · rw [closeUp_of_not_behind hbehind]
      exact .refl _
  · rw [hclosed]
    exact .refl _

/-- **It is clear of the one that is gone** across its side, unless one
that begins there is behind it. -/
theorem Tiled.clear_between (h : Tiled screen window order) (hid : Stands (window id))
    (hside : ∀ j, j ≠ id → Stands (window j) →
      (window j).dockedType = (window id).dockedType → ¬ IsBehind (window id) (window j))
    (hbetween : Between screen id window window') (hgone : ¬ Stands (window' id)) :
    Clear (window id).dockedType (window id).rect (screen.windowAreaOf none window') := by
  have hmem := (h.mem_iff id).2 hid
  have hbounds := h.laid.bounds hmem
  rw [windowAreaOf_eq]
  refine Clear.normal hbounds.2.2.2.2.1 hbounds.2.2.2.2.2 (clear_leaves (fun j hj => ?_)
    (h.laid.clear_area hmem _))
  have hstands := (mem_standing.1 hj).2
  have hne : j ≠ id := by
    rintro rfl
    exact hgone hstands
  have hj := ((hbetween j hne).1).1 hstands
  have hapart := h.laid.apart hmem ((h.mem_iff j).2 hj) hne (hside j hne hj)
  rcases (hbetween j hne).2 hj with hsame | hclosed
  · rw [hsame]
    exact hapart
  · rw [hclosed]
    by_cases hbehind : IsBehind (window id) (window j)
    · rw [moved_closeUp.dockedType]
      exact apart_of_behind hbehind fun htype => hside j hne hj htype hbehind
    · rw [closeUp_of_not_behind hbehind]
      exact hapart

/-! ## One comes -/

/-- The same windows are laid the same. -/
theorem Tiled.congr (h : Tiled screen window order)
    (hstands : ∀ j, Stands (window' j) ↔ Stands (window j))
    (hsame : ∀ j, Stands (window j) → window' j = window j) :
    Tiled screen window' order ∧ free screen none window' = free screen none window := by
  have hmem : ∀ j, j ∈ order ↔ Stands (window' j) := by
    intro j
    rw [h.mem_iff, hstands]
  have hwindow : ∀ j ∈ order, window' j = window j := fun j hj => hsame j ((h.mem_iff j).1 hj)
  have hlaid := h.laid.congr (fun j hj => congrArg Window.rect (hwindow j hj))
    fun j hj => congrArg Window.dockedType (hwindow j hj)
  have hfree := hlaid.eq_free h.nodup hmem
  refine ⟨⟨h.nodup, hmem, hfree ▸ hlaid, fun j hj => ?_⟩, hfree⟩
  have hj := (hstands j).1 hj
  rw [hsame j hj]
  exact h.roomy j hj

/-- **A window that comes is laid behind them all.** -/
theorem Tiled.add (h : Tiled screen window order) (hnew : ¬ Stands (window id))
    (hid : Stands (window' id)) (hroomy : Roomy (window' id))
    (hstrip : IsStrip (window' id).dockedType (free screen none window) (window' id).rect)
    (hstands : ∀ j, j ≠ id → (Stands (window' j) ↔ Stands (window j)))
    (hsame : ∀ j, Stands (window j) → window' j = window j) :
    Tiled screen window' (order ++ [id]) := by
  have hmem : ∀ j, j ∈ order ++ [id] ↔ Stands (window' j) := by
    intro j
    rw [List.mem_append, List.mem_singleton, h.mem_iff]
    by_cases hj : j = id
    · rw [hj]
      exact iff_of_true (.inr rfl) hid
    · rw [hstands j hj]
      exact or_iff_left hj
  have hnodup : (order ++ [id]).Nodup := by
    rw [List.nodup_append]
    refine ⟨h.nodup, List.nodup_singleton id, ?_⟩
    rintro j hj k hk rfl
    rw [List.mem_singleton] at hk
    exact hnew (hk ▸ (h.mem_iff j).1 hj)
  have hwindow : ∀ j ∈ order, window' j = window j := fun j hj => hsame j ((h.mem_iff j).1 hj)
  have hlaid : Laid (fun j => (window' j).rect) (fun j => (window' j).dockedType)
      screen.totalArea (order ++ [id])
      (cut (window' id).dockedType (free screen none window) (window' id).rect) := by
    refine laid_append.2 ⟨_, h.laid.congr (fun j hj => congrArg Window.rect (hwindow j hj))
      fun j hj => congrArg Window.dockedType (hwindow j hj), ?_⟩
    exact laid_singleton.2 ⟨hstrip, rfl⟩
  refine ⟨hnodup, hmem, hlaid.eq_free hnodup hmem ▸ hlaid, fun j hj => ?_⟩
  by_cases hj' : j = id
  · rw [hj']
    exact hroomy
  · have hj := (hstands j hj').1 hj
    rw [hsame j hj]
    exact h.roomy j hj

/-- Windows that only float move no others. -/
theorem Tiled.keeps (h : Tiled screen window order) (hkeeps : Keeps window window') :
    Tiled screen window' order := by
  refine (h.congr (fun j => (hkeeps.moved j).stands_iff) fun j hj => hkeeps.still j ?_).1
  rw [hj.2.1]
  decide

/-- **A window that comes to stand stands on a strip of what is left**, or
it does not stand. -/
theorem Tiled.arrive (h : Tiled screen window order) (hnew : ¬ Stands (window id))
    (hrest : ∀ j, j ≠ id → window' j = window j)
    (harrives : Stands (window' id) →
      IsStrip (window' id).dockedType (normal (free screen none window)) (window' id).rect ∧
        Roomy (window' id)) : ∃ order', Tiled screen window' order' := by
  have hsame : ∀ j, Stands (window j) → window' j = window j := by
    intro j hj
    refine hrest j ?_
    rintro rfl
    exact hnew hj
  by_cases hid : Stands (window' id)
  · obtain ⟨hstrip, hroomy⟩ := harrives hid
    rw [normal_of_isStrip hstrip] at hstrip
    refine ⟨order ++ [id], h.add hnew hid hroomy hstrip (fun j hj => ?_) hsame⟩
    rw [hrest j hj]
  · refine ⟨order, (h.congr (fun j => ?_) hsame).1⟩
    by_cases hj : j = id
    · rw [hj]
      exact iff_of_false hid hnew
    · rw [hrest j hj]

end DesktopManager

end Uberos
