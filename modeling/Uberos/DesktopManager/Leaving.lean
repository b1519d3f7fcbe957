import Uberos.DesktopManager.Tiled
/-!
# A window leaves its side

What `_disable_docked_window` makes of a settled desktop: where the window
stood, the others are settled without it; where it did not, they stay as
they are, if none of them is behind it. `windowArea` is worked out without
it, but with it again if a floating window is resized then.
-/

namespace Uberos

namespace DesktopManager

variable {Id : Type} [DecidableEq Id] {screen : Screen Id} {calls : ℕ}
variable {window : Id → Window} {s s₁ s₂ t : Desktop Id} {id : Id} {gone w : Window} {a : Rect}

/-! ## Settled -/

/-- **The windows that stand are tiled, and `windowArea` is what they
leave.** A docked window is not placed automatically. -/
structure Settled (screen : Screen Id) (s : Desktop Id) : Prop where
  tiled : ∃ order, Tiled screen s.window order
  windowArea : s.windowArea = screen.windowAreaOf none s.window
  placed : ∀ id, (s.window id).state = .docked → (s.window id).isAutomaticPlacement = false

/-- A step that leaves those that stand alone. -/
theorem Settled.congr (h : Settled screen s) {s' : Desktop Id}
    (hstands : ∀ j, Stands (s'.window j) ↔ Stands (s.window j))
    (hsame : ∀ j, Stands (s.window j) → s'.window j = s.window j)
    (harea : s'.windowArea = screen.windowAreaOf none s'.window)
    (hplaced : ∀ id, (s'.window id).state = .docked →
      (s'.window id).isAutomaticPlacement = false) : Settled screen s' := by
  obtain ⟨order, htiled⟩ := h.tiled
  exact ⟨⟨order, (htiled.congr hstands hsame).1⟩, harea, hplaced⟩

/-- A window that does not stand makes no difference to the window area. -/
theorem windowAreaOf_exclude (h : ¬ Stands (window id)) :
    screen.windowAreaOf (some id) window = screen.windowAreaOf none window := by
  rw [windowAreaOf_eq, windowAreaOf_eq, free, free, standing, standing]
  congr 2
  refine List.filter_congr fun j _ => decide_eq_decide.2 ?_
  refine and_congr_left fun hstands => ?_
  have hne : j ≠ id := by
    rintro rfl
    exact h hstands
  exact iff_of_true (fun heq => hne (Option.some.inj heq)) (Option.some_ne_none j)

theorem windowAreaOf_without {window' : Id → Window} (hrest : ∀ j, j ≠ id → window' j = window j)
    (hgone : ¬ Stands (window' id)) :
    screen.windowAreaOf none window' = screen.windowAreaOf (some id) window := by
  rw [← windowAreaOf_exclude hgone]
  unfold Screen.windowAreaOf
  congr 1
  funext area j
  by_cases hj : j = id
  · simp [hj]
  · rw [hrest j hj]

/-- Nor does what becomes of it. -/
theorem windowAreaOf_others {window' : Id → Window} (hrest : ∀ j, j ≠ id → window' j = window j)
    (hgone : ¬ Stands (window id)) (hgone' : ¬ Stands (window' id)) :
    screen.windowAreaOf none window' = screen.windowAreaOf none window := by
  rw [windowAreaOf_without hrest hgone', windowAreaOf_exclude hgone]

/-- **A window that does not stand may change**, as long as it does not
come to stand. -/
theorem Settled.modify (h : Settled screen s) {f : Window → Window}
    (hgone : ¬ Stands (s.window id)) (hgone' : ¬ Stands (f (s.window id)))
    (hplaced : (f (s.window id)).state = .docked →
      (f (s.window id)).isAutomaticPlacement = false) : Settled screen (s.modify id f) := by
  have hself : ¬ Stands ((s.modify id f).window id) := by rwa [Desktop.window_modify]
  have hrest : ∀ j, j ≠ id → (s.modify id f).window j = s.window j :=
    fun j hj => Desktop.window_modify_of_ne hj
  refine h.congr (fun j => ?_) (fun j hj => hrest j ?_) ?_ fun j hdocked => ?_
  · by_cases hj : j = id
    · rw [hj]
      exact iff_of_false hself hgone
    · rw [hrest j hj]
  · rintro rfl
    exact hgone hj
  · rw [windowAreaOf_others hrest hgone hself]
    exact h.windowArea
  · by_cases hj : j = id
    · rw [hj, Desktop.window_modify] at hdocked ⊢
      exact hplaced hdocked
    · rw [hrest j hj] at hdocked ⊢
      exact h.placed j hdocked

/-! ## Placed -/

omit [DecidableEq Id] in
theorem placed_moveTo {x y : ℤ} : (w.moveTo screen x y).isAutomaticPlacement = false := by
  unfold Window.moveTo
  dsimp only
  split <;> rfl

omit [DecidableEq Id] in
theorem placed_moveAndResizeTo {x y width height : ℤ} :
    (w.moveAndResizeTo screen x y width height).1.isAutomaticPlacement = false := by
  unfold Window.moveAndResizeTo
  dsimp only
  split
  · exact placed_moveTo
  · unfold Window.moveAndResizeDisplay
    split
    · rfl
    · split <;> rfl

omit [DecidableEq Id] in
theorem placed_closeUp (h : w.isAutomaticPlacement = false) :
    (screen.closeUp gone w).1.isAutomaticPlacement = false := by
  by_cases hbehind : IsBehind gone w
  · rw [closeUp_of_behind hbehind]
    unfold closing
    split
    · exact placed_moveTo
    · split
      · exact placed_moveAndResizeTo
      · exact placed_moveAndResizeTo
      · exact h
      · exact h
      · exact h
  · rwa [closeUp_of_not_behind hbehind]

/-! ## Without it -/

/-- **The window area, with what a window takes given back.** -/
def areaWithout (screen : Screen Id) (s : Desktop Id) (id : Id) : Rect :=
  if Stands (s.window id) then
    normal (giveBack (s.window id).dockedType (s.window id).rect (free screen none s.window))
  else s.windowArea

/-- A window that is about to leave: only it has changed, and not where it
is across its side. -/
structure Departs (s s₁ : Desktop Id) (id : Id) : Prop where
  others : ∀ j, j ≠ id → s₁.window j = s.window j
  edges : SameEdges (s.window id) (s₁.window id)

/-- **What a settled desktop is without a window.** -/
structure Without (screen : Screen Id) (id : Id) (s s₁ s₂ : Desktop Id) : Prop where
  moved : ∀ j, Moved (s₁.window j) (s₂.window j)
  same : (s₁.window id).state = .docked → ¬ IsBehind (s₁.window id) (s₁.window id) →
    s₂.window id = s₁.window id
  placed : ∀ j, (s₁.window j).state = .docked → (s₁.window j).isAutomaticPlacement = false →
    (s₂.window j).isAutomaticPlacement = false
  tiled : ∀ window : Id → Window, (∀ j, j ≠ id → window j = s₂.window j) → ¬ Stands (window id) →
    (∃ order, Tiled screen window order) ∧
      screen.windowAreaOf none window = areaWithout screen s id
  windowArea : s₂.windowArea = areaWithout screen s id ∨
    s₂.windowArea = screen.windowAreaOf none s₂.window

/-- All have closed up, whatever is made of the floating ones after. -/
theorem Midway.closed_all (h : Midway screen id s₁ screen.windows t)
    (hcall : screen.updateWindowArea calls (some id) t = some s₂) {j : Id}
    (hdocked : (s₁.window j).state = .docked) :
    s₂.window j = (screen.closeUp (s₁.window id) (s₁.window j)).1 := by
  have hstill : (t.window j).state ≠ .floating := by rw [h.state, hdocked]; decide
  rw [(updateWindowArea_spec hcall).1.still j hstill, h.closed j (screen.mem_windows j) hdocked]

omit [DecidableEq Id] in
theorem Departs.closeUp (h : Departs s s₁ id) (w : Window) :
    screen.closeUp (s₁.window id) w = screen.closeUp (s.window id) w :=
  closeUp_congr h.edges

/-- Of a window that is about to leave, some of the others have closed up. -/
theorem Departs.between (h : Departs s s₁ id) {past : List Id}
    (hmidway : Midway screen id s₁ past t) : Between screen id s.window t.window := by
  intro j hj
  rw [(hmidway.moved j).stands_iff, h.others j hj]
  refine ⟨Iff.rfl, fun hstands => ?_⟩
  have hdocked : (s₁.window j).state = .docked := by
    rw [h.others j hj]
    exact hstands.2.1
  by_cases hpast : j ∈ past
  · rw [hmidway.closed j hpast hdocked, h.closeUp, h.others j hj]
    exact .inr rfl
  · rw [hmidway.waiting j hpast hdocked, h.others j hj]
    exact .inl rfl

/-- **All but it are tiled, and its room is given back**, if it stood, or
if none was behind it. -/
theorem Settled.tiled_without (h : Settled screen s)
    (hid : Stands (s.window id) ∨
      ∀ j, j ≠ id → Stands (s.window j) → ¬ IsBehind (s.window id) (s.window j))
    (hstands : ∀ j, j ≠ id → (Stands (window j) ↔ Stands (s.window j)))
    (hclosed : ∀ j, j ≠ id → Stands (s.window j) →
      window j = (screen.closeUp (s.window id) (s.window j)).1) (hgone : ¬ Stands (window id)) :
    (∃ order, Tiled screen window order) ∧
      screen.windowAreaOf none window = areaWithout screen s id := by
  obtain ⟨order, htiled⟩ := h.tiled
  by_cases hstood : Stands (s.window id)
  · have hothers : ∀ j, Stands (window j) ↔ j ≠ id ∧ Stands (s.window j) := by
      intro j
      by_cases hj : j = id
      · rw [hj]
        exact iff_of_false hgone fun h => h.1 rfl
      · rw [hstands j hj]
        exact (and_iff_right hj).symm
    obtain ⟨htiled', hfree⟩ := htiled.remove hstood hothers hclosed
    refine ⟨htiled', ?_⟩
    rw [windowAreaOf_eq, hfree, areaWithout, if_pos hstood]
  · have hbehind := hid.resolve_left hstood
    have hothers : ∀ j, Stands (window j) ↔ Stands (s.window j) := by
      intro j
      by_cases hj : j = id
      · rw [hj]
        exact iff_of_false hgone hstood
      · exact hstands j hj
    have hstay : ∀ j, Stands (s.window j) → window j = s.window j := by
      intro j hj
      have hne : j ≠ id := by
        rintro rfl
        exact hstood hj
      rw [hclosed j hne hj, closeUp_of_not_behind (hbehind j hne hj)]
    obtain ⟨htiled', hfree⟩ := htiled.congr hothers hstay
    refine ⟨⟨order, htiled'⟩, ?_⟩
    rw [windowAreaOf_eq, hfree, areaWithout, if_neg hstood, h.windowArea, windowAreaOf_eq]

/-- So is the window area without it, once all have closed up. -/
theorem Settled.windowAreaOf_closed (h : Settled screen s)
    (hid : Stands (s.window id) ∨
      ∀ j, j ≠ id → Stands (s.window j) → ¬ IsBehind (s.window id) (s.window j))
    (hdeparts : Departs s s₁ id) (hmidway : Midway screen id s₁ screen.windows t) :
    screen.windowAreaOf (some id) t.window = areaWithout screen s id := by
  let hidden : Id → Window :=
    Function.update t.window id { t.window id with isVisible := false }
  have hrest : ∀ j, j ≠ id → hidden j = t.window j := fun j hj => Function.update_of_ne hj _ _
  have hgone : ¬ Stands (hidden id) := not_stands_of_hidden (by simp [hidden])
  rw [← windowAreaOf_without hrest hgone]
  refine (h.tiled_without hid (fun j hj => ?_) (fun j hj hstands => ?_) hgone).2
  · rw [hrest j hj, (hmidway.moved j).stands_iff, hdeparts.others j hj]
  · have hdocked : (s₁.window j).state = .docked := by
      rw [hdeparts.others j hj]
      exact hstands.2.1
    rw [hrest j hj, hmidway.closed j (screen.mem_windows j) hdocked, hdeparts.closeUp,
      hdeparts.others j hj]

/-- **What `_disable_docked_window` comes to.** -/
theorem Settled.without (h : Settled screen s)
    (hid : Stands (s.window id) ∨
      ∀ j, j ≠ id → Stands (s.window j) → ¬ IsBehind (s.window id) (s.window j))
    (hdeparts : Departs s s₁ id) (hstable : Stable screen calls id s₁)
    (hcall : screen.disableDockedWindow calls id s₁ = some s₂) : Without screen id s s₁ s₂ := by
  obtain ⟨t, hmidway, hcall⟩ := disableDockedWindow_spec hstable hcall
  obtain ⟨hkeeps, harea⟩ := updateWindowArea_spec hcall
  have hmoved : ∀ j, Moved (s₁.window j) (s₂.window j) :=
    fun j => (hmidway.moved j).trans (hkeeps.moved j)
  have htiled : ∀ window : Id → Window, (∀ j, j ≠ id → window j = s₂.window j) →
      ¬ Stands (window id) → (∃ order, Tiled screen window order) ∧
        screen.windowAreaOf none window = areaWithout screen s id := by
    intro window hrest hgone
    refine h.tiled_without hid (fun j hj => ?_) (fun j hj hstands => ?_) hgone
    · rw [hrest j hj, (hmoved j).stands_iff, hdeparts.others j hj]
    · have hdocked : (s₁.window j).state = .docked := by
        rw [hdeparts.others j hj]
        exact hstands.2.1
      rw [hrest j hj, hmidway.closed_all hcall hdocked, hdeparts.closeUp, hdeparts.others j hj]
  refine ⟨hmoved, fun hdocked hself => ?_, fun j hdocked hplaced => ?_, htiled, ?_⟩
  · rw [hmidway.closed_all hcall hdocked, closeUp_of_not_behind hself]
  · rw [hmidway.closed_all hcall hdocked]
    exact placed_closeUp hplaced
  · rw [windowAreaOf_keeps hkeeps]
    refine harea.imp_left fun harea => ?_
    rw [harea, h.windowAreaOf_closed hid hdeparts hmidway]

/-! ## With those that float -/

/-- Another that stands has to grow as it closes up. -/
def Stretches (id : Id) (s : Desktop Id) : Prop :=
  ∃ j, Stands (s.window j) ∧ IsBehind (s.window id) (s.window j) ∧
    (s.window j).dockedType ≠ (s.window id).dockedType

omit [DecidableEq Id] in
theorem size_resizeTo {width height : ℤ} (h : (w.resizeTo width height).2 = false) :
    (w.resizeTo width height).1.getWidth = w.getWidth ∧
      (w.resizeTo width height).1.getHeight = w.getHeight := by
  unfold Window.resizeTo at h ⊢
  dsimp only at h ⊢
  rwa [Bool.not_eq_false', decide_eq_true_iff] at h

omit [DecidableEq Id] in
/-- A window that closes up and is not resized is of the size it was. -/
theorem size_closing (h : (closing screen gone w).2 = false) :
    (closing screen gone w).1.getWidth = w.getWidth ∧
      (closing screen gone w).1.getHeight = w.getHeight := by
  unfold closing at h ⊢
  split at h
  · rename_i hsame
    rw [if_pos hsame]
    exact size_moveTo
  · rename_i hsame
    rw [if_neg hsame]
    cases hgone : gone.dockedType with
    | left | top =>
      simp only [hgone] at h ⊢
      exact size_moveAndResizeTo h
    | right | bottom | full =>
      simp only [hgone] at h ⊢
      exact size_resizeTo h

/-- **One that has to grow is resized.** -/
theorem resizes_of_stretches (h : Settled screen s) (hid : Stands (s.window id))
    (hdeparts : Departs s s₁ id) (hstretches : Stretches id s) : Resizes screen id s₁ := by
  obtain ⟨order, htiled⟩ := h.tiled
  obtain ⟨j, hj, hbehind, htype⟩ := hstretches
  have hne : j ≠ id := by
    rintro rfl
    exact htype rfl
  refine ⟨j, by rw [hdeparts.others j hne]; exact hj.2.1, ?_⟩
  rw [hdeparts.closeUp, hdeparts.others j hne]
  by_contra hsame
  have hclosed := (htiled.closing hid hj hbehind).1
  rw [closeUp_of_behind hbehind] at hclosed hsame
  obtain ⟨hwidth, hheight⟩ := size_closing (eq_false_of_ne_true hsame)
  have hle := (htiled.roomy id hid).le_width
  have hle' := (htiled.roomy id hid).le_height
  have hgrownWidth := width_closedRect (s.window id) (s.window j)
  have hgrownHeight := height_closedRect (s.window id) (s.window j)
  rw [← hclosed, width_rect, hwidth] at hgrownWidth
  rw [← hclosed, height_rect, hheight] at hgrownHeight
  rcases grows_of_behind hbehind htype hj.2.2 with hgrows | hgrows
  · rw [if_pos hgrows] at hgrownWidth
    omega
  · rw [if_pos hgrows] at hgrownHeight
    omega

/-- **Where the floating windows fit what is given back, or one that
stands has to grow**, the window area is that without the window. -/
theorem Settled.windowArea_without (h : Settled screen s) (hid : Stands (s.window id))
    (hdeparts : Departs s s₁ id) (hstable : Stable screen calls id s₁)
    (hfits : (∀ j, (s₁.window j).state = .floating →
      Fits (areaWithout screen s id) (s₁.window j)) ∨ Stretches id s)
    (hcall : screen.disableDockedWindow calls id s₁ = some s₂) :
    s₂.windowArea = areaWithout screen s id := by
  obtain ⟨order, htiled⟩ := h.tiled
  have hroom : ∀ past t, Midway screen id s₁ past t →
      (screen.windowAreaOf none t.window).width ≤ (areaWithout screen s id).width ∧
        (screen.windowAreaOf none t.window).height ≤ (areaWithout screen s id).height := by
    intro past t hmidway
    have hinside := htiled.inside_between hid (hdeparts.between hmidway)
    rw [windowAreaOf_eq, areaWithout, if_pos hid]
    exact ⟨width_normal_le hinside, height_normal_le hinside⟩
  obtain ⟨t, ⟨hmidway, hfitted⟩, hupdate⟩ := disableDockedWindow_fits hstable hroom
    (hfits.imp_right (resizes_of_stretches h hid hdeparts)) hcall
  have harea := h.windowAreaOf_closed (.inl hid) hdeparts hmidway
  rw [← harea]
  refine windowArea_of_fits (fun j _ hfloating => ?_) hupdate
  rw [harea]
  exact hfitted j (by rw [← hmidway.state]; exact hfloating)

end DesktopManager

end Uberos
