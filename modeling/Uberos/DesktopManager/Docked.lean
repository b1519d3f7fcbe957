import Mathlib.Algebra.GroupWithZero.Nat
import Mathlib.Data.Fintype.Basic
import Mathlib.Data.List.Pairwise
import Uberos.DesktopManager.Leaving
import Uberos.DesktopManager.Sides
/-!
# The docking layout

A step keeps the layout if the window it is about to dock has room, no
docked window that is hidden has others close up or comes back to where
another has come to be, and a window that leaves is neither taken for one
that stands by `windowArea` after nor moved while the others close up.
-/

namespace Uberos

namespace DesktopManager

variable {Id : Type} [DecidableEq Id] {screen : Screen Id} {calls : ℕ}
variable {s s' s₁ s₂ s₃ : Desktop Id} {id : Id} {type : DockedType} {place : Desktop Id → Id → IVec2}

/-! ## Steps that keep it -/

/-- **No docked window that shows is behind a window**, and it is not
behind itself. -/
def Alone (s : Desktop Id) (id : Id) : Prop :=
  ∀ j, (s.window j).state = .docked → ((s.window j).isVisible ∨ j = id) →
    ¬ IsBehind (s.window id) (s.window j)

/-- **The floating windows fit what a window gives back**, or one that
stands has to grow. -/
def Yields (screen : Screen Id) (s : Desktop Id) (id : Id) : Prop :=
  (∀ j, (s.window j).state = .floating → Fits (areaWithout screen s id) (s.window j)) ∨
    Stretches id s

/-- It is resized as it goes where it floated. -/
def Shrinks (w : Window) : Prop :=
  ¬ (w.clampWidth w.defaultFloatingRect.width = w.getWidth ∧
    w.clampHeight w.defaultFloatingRect.height = w.getHeight)

/-- **A step that keeps the layout.** -/
def Sound (screen : Screen Id) (s : Desktop Id) : Op Id → Prop
  | .dock id type =>
    (s.window id).state = .docked ∧ (s.window id).dockedType = type ∨
      ((s.window id).state = .docked → ¬ Stands (s.window id) → Alone s id) ∧
      (Stands (s.window id) → type ≠ .full → Yields screen s id) ∧
      ((s.window id).isVisible ∨ (s.window id).state = .minimised → type ≠ .full →
        Suits (s.window id) (areaWithout screen s id) type)
  | .restore id => (s.window id).state = .docked →
    (¬ Stands (s.window id) → Alone s id) ∧
      ((∀ j, (s.window j).state = .docked → IsBehind (s.window id) (s.window j) →
          (s.window j).dockedType = (s.window id).dockedType) ∨
        Stands (s.window id) ∧ ∀ j, Stands (s.window j) →
          (s.window j).dockedType = (s.window id).dockedType →
          ¬ IsBehind (s.window id) (s.window j))
  | .minimise id => (s.window id).state = .docked →
    (¬ Stands (s.window id) → Alone s id) ∧
      (Stands (s.window id) → Yields screen s id ∨ Shrinks (s.window id))
  | .show id => ¬ (s.window id).isVisible → (s.window id).state = .docked →
    (s.window id).dockedType ≠ .full →
    IsStrip (s.window id).dockedType s.windowArea (s.window id).rect ∧ Roomy (s.window id)
  | .hide _ => True

section Decidable

variable [Fintype Id]

instance (s : Desktop Id) (id : Id) : Decidable (Alone s id) :=
  inferInstanceAs (Decidable (∀ _, _))

instance (id : Id) (s : Desktop Id) : Decidable (Stretches id s) :=
  inferInstanceAs (Decidable (∃ _, _))

instance (screen : Screen Id) (s : Desktop Id) (id : Id) : Decidable (Yields screen s id) :=
  inferInstanceAs (Decidable (_ ∨ _))

instance (w : Window) : Decidable (Shrinks w) :=
  inferInstanceAs (Decidable (¬ _))

instance (screen : Screen Id) (s : Desktop Id) (op : Op Id) : Decidable (Sound screen s op) := by
  cases op <;> unfold Sound <;> infer_instance

end Decidable

/-! ## A window that leaves -/

/-- What comes of a window that is moved and resized: it, and `windowArea`
if it is resized. -/
theorem change_spec {f : Window → Window × Bool}
    (h : s.change (screen.updateWindowArea calls none) id f = some s') :
    Keeps (s.modify id fun w => (f w).1).window s'.window ∧
      (s'.windowArea = screen.windowAreaOf none s'.window ∨
        (f (s.window id)).2 = false ∧ s' = s.modify id fun w => (f w).1) := by
  unfold Desktop.change at h
  dsimp only at h
  split at h
  · obtain ⟨hkeeps, harea⟩ := updateWindowArea_none h
    exact ⟨hkeeps, .inl harea⟩
  · rename_i hsame
    cases h
    exact ⟨.refl _, .inr ⟨eq_false_of_ne_true hsame, rfl⟩⟩

/-- It stands after if it stood. -/
theorem stands_change
    (h : s.change (screen.updateWindowArea calls none) id screen.moveToFloat = some s') :
    Stands (s'.window id) ↔ Stands (s.window id) := by
  rw [((change_spec h).1.moved id).stands_iff, Desktop.window_modify]
  exact moved_moveAndResizeTo.stands_iff

omit [DecidableEq Id] in
theorem resized_of_shrinks {w : Window} (h : Shrinks w) : (screen.moveToFloat w).2 = true := by
  unfold Screen.moveToFloat Window.moveAndResizeTo
  dsimp only
  split
  · rename_i hsame
    exact absurd hsame h
  · rfl

omit [DecidableEq Id] in
/-- Nothing docked is placed automatically as only floating windows move. -/
theorem placed_keeps {window window' : Id → Window} (hkeeps : Keeps window window')
    (h : ∀ j, (window j).state = .docked → (window j).isAutomaticPlacement = false) (j : Id)
    (hdocked : (window' j).state = .docked) : (window' j).isAutomaticPlacement = false := by
  rw [(hkeeps.moved j).state] at hdocked
  rw [hkeeps.still j (by rw [hdocked]; decide)]
  exact h j hdocked

/-- **A window that has left is moved to where it floated**, and the
layout is kept if it is resized, or `windowArea` is that without it. -/
theorem Without.settled_float (hwithout : Without screen id s s₁ s₂)
    (hplaced : ∀ j, j ≠ id → (s₁.window j).state = .docked →
      (s₁.window j).isAutomaticPlacement = false)
    (hrest : ∀ j, j ≠ id → s₃.window j = s₂.window j) (harea : s₃.windowArea = s₂.windowArea)
    (hgone : ¬ Stands (s₃.window id))
    (hkept : s₂.windowArea = areaWithout screen s id ∨ ¬ Stands (s₂.window id) ∨
      (screen.moveToFloat (s₃.window id)).2 = true)
    (hcall : s₃.change (screen.updateWindowArea calls none) id screen.moveToFloat = some s') :
    Settled screen s' := by
  obtain ⟨hkeeps, hchange⟩ := change_spec hcall
  have hmoved : (s₃.modify id fun w => (screen.moveToFloat w).1).window id =
      (screen.moveToFloat (s₃.window id)).1 := Desktop.window_modify
  have hothers : ∀ j, j ≠ id →
      (s₃.modify id fun w => (screen.moveToFloat w).1).window j = s₂.window j :=
    fun j hj => (Desktop.window_modify_of_ne hj).trans (hrest j hj)
  have hgone' : ¬ Stands ((s₃.modify id fun w => (screen.moveToFloat w).1).window id) := by
    rw [hmoved]
    exact fun hstands => hgone (moved_moveAndResizeTo.stands_iff.1 hstands)
  obtain ⟨⟨order, htiled⟩, hareaOf⟩ := hwithout.tiled _ hothers hgone'
  refine ⟨⟨order, htiled.keeps hkeeps⟩, ?_, fun j hdocked => ?_⟩
  · rcases hchange with hchange | ⟨hsame, rfl⟩
    · exact hchange
    · have hwindowArea : s₂.windowArea = areaWithout screen s id := by
        rcases hkept with hkept | hgone₂ | hresized
        · exact hkept
        · rcases hwithout.windowArea with h | h
          · exact h
          · rw [h]
            exact (hwithout.tiled s₂.window (fun _ _ => rfl) hgone₂).2
        · rw [hsame] at hresized
          cases hresized
      rw [hareaOf]
      exact harea.trans hwindowArea
  · refine placed_keeps hkeeps (fun j hdocked => ?_) j hdocked
    by_cases hj : j = id
    · rw [hj, hmoved]
      exact placed_moveAndResizeTo
    · rw [hothers j hj] at hdocked ⊢
      have hdocked₁ : (s₁.window j).state = .docked := by rwa [← (hwithout.moved j).state]
      exact hwithout.placed j hdocked₁ (hplaced j hj hdocked₁)

/-! ## Each step -/

omit [DecidableEq Id] in
/-- Nothing that stands is behind a window that leaves none behind. -/
theorem Alone.others (h : Alone s id) (j : Id) (hj : Stands (s.window j)) :
    ¬ IsBehind (s.window id) (s.window j) :=
  h j hj.2.1 (.inl hj.1)

/-- A docked window that leaves is not behind itself. -/
theorem Settled.not_isBehind (h : Settled screen s) (hdocked : (s.window id).state = .docked)
    (halone : ¬ Stands (s.window id) → Alone s id) : ¬ IsBehind (s.window id) (s.window id) := by
  obtain ⟨order, htiled⟩ := h.tiled
  by_cases hid : Stands (s.window id)
  · exact (htiled.roomy id hid).not_isBehind
  · exact halone hid id hdocked (.inr rfl)

/-- What is docked after a window has left is placed. -/
theorem Without.placed_all (hwithout : Without screen id s s₁ s₂)
    (hplaced : ∀ j, (s₁.window j).state = .docked → (s₁.window j).isAutomaticPlacement = false)
    (j : Id) (hdocked : (s₂.window j).state = .docked) :
    (s₂.window j).isAutomaticPlacement = false := by
  rw [(hwithout.moved j).state] at hdocked
  exact hwithout.placed j hdocked (hplaced j hdocked)

/-- Only whether it shows, or that it floats. -/
theorem departs_modify {f : Window → Window} (hedges : SameEdges (s.window id) (f (s.window id))) :
    Departs s (s.modify id f) id where
  others _ hj := Desktop.window_modify_of_ne hj
  edges := by rwa [Desktop.window_modify]

omit [DecidableEq Id] in
/-- Nothing is behind a window that takes up the whole area. -/
theorem alone_of_full (hfull : (s.window id).dockedType = .full) : Alone s id := by
  intro j _ _ hbehind
  unfold IsBehind at hbehind
  rw [hfull] at hbehind
  exact hbehind

/-- **A window leaves.** -/
theorem Settled.leave (h : Settled screen s) (halone : ¬ Stands (s.window id) → Alone s id)
    (hdeparts : Departs s s₁ id) (hstable : Stable screen calls id s₁)
    (hcall : screen.disableDockedWindow calls id s₁ = some s₂) : Without screen id s s₁ s₂ := by
  refine h.without ?_ hdeparts hstable hcall
  by_cases hid : Stands (s.window id)
  · exact .inl hid
  · exact .inr fun j _ hj => (halone hid).others j hj

/-- **Hiding a window keeps the layout.** -/
theorem Settled.hide (h : Settled screen s) (hcall : screen.hide calls id s = some s') :
    Settled screen s' := by
  unfold Screen.hide at hcall
  split at hcall
  · cases hcall
    exact h
  · rename_i hvisible
    dsimp only at hcall
    rw [Desktop.window_modify] at hcall
    dsimp only at hcall
    have hhidden : ¬ Stands { s.window id with isVisible := false } := not_stands_of_hidden rfl
    split at hcall
    · rename_i hdocked
      have halone : ¬ Stands (s.window id) → Alone s id := by
        intro hgone
        refine alone_of_full ?_
        by_contra hfull
        exact hgone ⟨not_not.1 hvisible, hdocked, hfull⟩
      have hstable : Stable screen calls id (s.modify id fun w => { w with isVisible := false }) := by
        refine .inl ?_
        rw [Desktop.window_modify]
        exact ⟨hdocked, h.not_isBehind hdocked halone⟩
      have hwithout := h.leave halone
        (departs_modify ⟨rfl, fun _ => ⟨rfl, rfl⟩, fun _ => ⟨rfl, rfl⟩⟩) hstable hcall
      have hgone : ¬ Stands (s'.window id) := by
        rw [(hwithout.moved id).stands_iff, Desktop.window_modify]
        exact hhidden
      obtain ⟨htiled, hareaOf⟩ := hwithout.tiled s'.window (fun _ _ => rfl) hgone
      refine ⟨htiled, ?_, hwithout.placed_all fun j hj => ?_⟩
      · rcases hwithout.windowArea with harea | harea
        · rw [harea, hareaOf]
        · exact harea
      · by_cases hid : j = id
        · rw [hid, Desktop.window_modify]
          exact h.placed id hdocked
        · rw [Desktop.window_modify_of_ne hid] at hj ⊢
          exact h.placed j hj
    · rename_i hdocked
      cases hcall
      exact h.modify (not_stands_of_state hdocked) hhidden fun hstate => absurd hstate hdocked

/-- **Minimising it does**, if nothing takes it to stand still. -/
theorem Settled.minimise (h : Settled screen s) (hsound : Sound screen s (.minimise id))
    (hcall : screen.minimise calls id s = some s') : Settled screen s' := by
  unfold Screen.minimise at hcall
  cases hstate : (s.window id).state with
  | minimised =>
    rw [hstate] at hcall
    cases hcall
    exact h
  | floating =>
    rw [hstate] at hcall
    cases hcall
    have hgone : ¬ Stands (s.window id) := not_stands_of_state (by rw [hstate]; decide)
    exact h.modify hgone (not_stands_of_hidden rfl) fun hdocked => by cases hdocked
  | docked =>
    rw [hstate] at hcall
    obtain ⟨halone, hyields⟩ := hsound hstate
    obtain ⟨s₂, hdisable, hcall⟩ := Option.bind_eq_some_iff.1 hcall
    obtain ⟨s₄, hfloat, hcall⟩ := Option.bind_eq_some_iff.1 hcall
    cases hcall
    have hself := h.not_isBehind hstate halone
    have hstable : Stable screen calls id s := .inl ⟨hstate, hself⟩
    have hdeparts : Departs s s id := ⟨fun _ _ => rfl, .refl _⟩
    have hwithout := h.leave halone hdeparts hstable hdisable
    have hhidden : (s₂.modify id fun w => { w with isVisible := false }).window id =
        { s.window id with isVisible := false } := by
      rw [Desktop.window_modify, hwithout.same hstate hself]
    have hgone₃ : ¬ Stands ((s₂.modify id fun w => { w with isVisible := false }).window id) := by
      rw [hhidden]
      exact not_stands_of_hidden rfl
    have hsettled := hwithout.settled_float (fun j _ => h.placed j)
      (fun j hj => Desktop.window_modify_of_ne hj) rfl hgone₃ (by
        by_cases hid : Stands (s.window id)
        · rcases hyields hid with hyields | hshrinks
          · exact .inl (h.windowArea_without hid hdeparts hstable hyields hdisable)
          · rw [hhidden]
            exact .inr (.inr (resized_of_shrinks hshrinks))
        · rw [← (hwithout.moved id).stands_iff] at hid
          exact .inr (.inl hid)) hfloat
    refine hsettled.modify ?_ (not_stands_of_state fun hdocked => by cases hdocked) fun hdocked => by
      cases hdocked
    rwa [stands_change hfloat]

omit [DecidableEq Id] in
/-- Only a window that is behind, and begins at another side, is resized. -/
theorem behind_of_resized {gone w : Window} (h : (screen.closeUp gone w).2 = true) :
    IsBehind gone w ∧ w.dockedType ≠ gone.dockedType := by
  by_cases hbehind : IsBehind gone w
  · refine ⟨hbehind, fun htype => ?_⟩
    rw [closeUp_of_behind hbehind, closing, if_pos htype] at h
    cases h
  · rw [closeUp_of_not_behind hbehind] at h
    cases h

/-- **A window that floats while the others close up** stays where it is
across its side, if none is resized or none of its side is behind it. -/
theorem Settled.stable_restore (h : Settled screen s) (hstate : (s.window id).state = .docked)
    (hstays : (∀ j, (s.window j).state = .docked → IsBehind (s.window id) (s.window j) →
        (s.window j).dockedType = (s.window id).dockedType) ∨
      Stands (s.window id) ∧ ∀ j, Stands (s.window j) →
        (s.window j).dockedType = (s.window id).dockedType →
        ¬ IsBehind (s.window id) (s.window j)) :
    Stable screen calls id (s.modify id fun w => { w with state := .floating }) := by
  have hdeparts : Departs s (s.modify id fun w => { w with state := .floating }) id :=
    departs_modify ⟨rfl, fun _ => ⟨rfl, rfl⟩, fun _ => ⟨rfl, rfl⟩⟩
  have hfloating : (s.modify id fun w => { w with state := .floating }).window id =
      { s.window id with state := .floating } := Desktop.window_modify
  have hne : ((s.modify id fun w => { w with state := .floating }).window id).state ≠ .docked := by
    rw [hfloating]
    intro hdocked
    cases hdocked
  refine .inr ⟨hne, ?_⟩
  rintro past t t' ⟨j, hdocked, hresized⟩ hmidway hcall
  have hj : j ≠ id := by
    rintro rfl
    rw [hfloating] at hdocked
    cases hdocked
  rw [hdeparts.others j hj] at hdocked hresized
  rw [hdeparts.closeUp] at hresized
  obtain ⟨hbehind, htype⟩ := behind_of_resized hresized
  rcases hstays with hsame | ⟨hid, hside⟩
  · exact absurd (hsame j hdocked hbehind) htype
  · obtain ⟨order, htiled⟩ := h.tiled
    have hroomy := htiled.roomy id hid
    have hbounds := htiled.laid.bounds ((htiled.mem_iff id).2 hid)
    have hgone : ¬ Stands (t.window id) := by
      rw [(hmidway.moved id).stands_iff, hfloating]
      exact not_stands_of_state fun hdocked => by cases hdocked
    have hclear := htiled.clear_between hid (fun k _ => hside k) (hdeparts.between hmidway) hgone
    refine hmidway.edges.updateWindowArea (hmidway.moved id) ?_ ?_ ?_ hcall
    · rw [hfloating]
      exact ⟨hroomy.le_width, hroomy.le_height, hroomy.clampWidth, hroomy.clampHeight,
        hroomy.liftedX, hroomy.liftedY⟩
    · rw [hfloating]
      exact ⟨hbounds.1, hbounds.2.1, hbounds.2.2.1, hbounds.2.2.2.1⟩
    · rw [hfloating]
      exact hclear

/-- **Restoring it does**, if it is not moved while the others close up. -/
theorem Settled.restore (h : Settled screen s) (hsound : Sound screen s (.restore id))
    (hcall : screen.restore calls id s = some s') : Settled screen s' := by
  unfold Screen.restore at hcall
  cases hstate : (s.window id).state with
  | floating =>
    rw [hstate] at hcall
    cases hcall
    exact h
  | minimised =>
    rw [hstate] at hcall
    cases hcall
    have hgone : ¬ Stands (s.window id) := not_stands_of_state (by rw [hstate]; decide)
    exact h.modify hgone (not_stands_of_state fun hdocked => by cases hdocked) fun hdocked => by
      cases hdocked
  | docked =>
    rw [hstate] at hcall
    obtain ⟨halone, hstays⟩ := hsound hstate
    obtain ⟨s₂, hdisable, hfloat⟩ := Option.bind_eq_some_iff.1 hcall
    have hfloating : (s.modify id fun w => { w with state := .floating }).window id =
        { s.window id with state := .floating } := Desktop.window_modify
    have hdeparts : Departs s (s.modify id fun w => { w with state := .floating }) id :=
      departs_modify ⟨rfl, fun _ => ⟨rfl, rfl⟩, fun _ => ⟨rfl, rfl⟩⟩
    have hwithout := h.leave halone hdeparts (h.stable_restore hstate hstays) hdisable
    have hgone : ¬ Stands (s₂.window id) := by
      rw [(hwithout.moved id).stands_iff, hfloating]
      exact not_stands_of_state fun hdocked => by cases hdocked
    refine hwithout.settled_float (fun j hj hdocked => ?_) (fun _ _ => rfl) rfl hgone
      (.inr (.inl hgone)) hfloat
    rw [Desktop.window_modify_of_ne hj] at hdocked ⊢
    exact h.placed j hdocked

/-- **Showing it does**, if a docked one comes back to a strip of what is
left. -/
theorem Settled.show (h : Settled screen s) (hsound : Sound screen s (.show id))
    (hcall : screen.show place calls id s = some s') : Settled screen s' := by
  unfold Screen.show at hcall
  split at hcall
  · cases hcall
    exact h
  · rename_i hhidden
    have hgone : ¬ Stands (s.window id) := fun hstands => hhidden hstands.1
    dsimp only at hcall
    by_cases hstate : (s.window id).state = .docked
    · -- A docked window is not placed automatically.
      have hplaced := h.placed id hstate
      rw [hplaced, if_neg Bool.false_ne_true, if_pos (by rw [Desktop.window_modify]; exact hstate)]
        at hcall
      obtain ⟨hkeeps, harea⟩ := updateWindowArea_none hcall
      obtain ⟨order, htiled⟩ := h.tiled
      have hrest : ∀ j, j ≠ id →
          (s.modify id fun w => { w with isVisible := true }).window j = s.window j :=
        fun j hj => Desktop.window_modify_of_ne hj
      obtain ⟨order', htiled'⟩ := htiled.arrive hgone hrest (fun hstands => by
          rw [Desktop.window_modify] at hstands ⊢
          obtain ⟨hstrip, hroomy⟩ := hsound hhidden hstate hstands.2.2
          rw [h.windowArea, windowAreaOf_eq] at hstrip
          exact ⟨hstrip, hroomy.le_width, hroomy.le_height, hroomy.clampWidth, hroomy.clampHeight,
            hroomy.liftedX, hroomy.liftedY⟩)
      refine ⟨⟨order', htiled'.keeps hkeeps⟩, harea, placed_keeps hkeeps fun j hdocked => ?_⟩
      by_cases hj : j = id
      · rw [hj, Desktop.window_modify]
        exact hplaced
      · rw [Desktop.window_modify_of_ne hj] at hdocked ⊢
        exact h.placed j hdocked
    · have hplacing : ∃ t, (if (s.window id).isAutomaticPlacement then
          screen.autoposition place id s else s) = t ∧ Settled screen t ∧
          (t.window id).state ≠ .docked := by
        refine ⟨_, rfl, ?_⟩
        split
        · have hstate' : ∀ x y, { (s.window id).moveTo screen x y with
              isAutomaticPlacement := true }.state ≠ .docked := by
            intro x y hdocked
            exact hstate (moved_moveTo.state.symm.trans hdocked)
          refine ⟨h.modify hgone (not_stands_of_state (hstate' _ _)) fun hdocked =>
            absurd hdocked (hstate' _ _), ?_⟩
          rw [Screen.autoposition, Desktop.window_modify]
          exact hstate' _ _
        · exact ⟨h, hstate⟩
      obtain ⟨t, ht, hsettled, hstate⟩ := hplacing
      rw [ht, if_neg (by rw [Desktop.window_modify]; exact hstate)] at hcall
      cases hcall
      exact hsettled.modify (not_stands_of_state hstate) (not_stands_of_state hstate) fun hdocked =>
        absurd hdocked hstate

/-- **A window is docked** where it has room, behind those that stand. -/
theorem Tiled.settled_dock {v : Id → Window} {order : List Id} (htiled : Tiled screen v order)
    (hv : ¬ Stands (v id)) (hrest : ∀ j, j ≠ id → s₂.window j = v j)
    (hroom : (s₂.window id).isVisible → type ≠ .full →
      Suits (s₂.window id) s₂.windowArea type ∧
        s₂.windowArea = screen.windowAreaOf none v)
    (hplaced : ∀ j, j ≠ id → (s₂.window j).state = .docked →
      (s₂.window j).isAutomaticPlacement = false)
    (hcall : (s₂.modify id fun w => { w with state := .docked, dockedType := type }).change
      (screen.updateWindowArea calls none) id (screen.moveToDock s₂.windowArea type) = some s₃)
    (henable : screen.enableDockedWindow calls s₃ = some s') : Settled screen s' := by
  obtain ⟨hkeeps, -⟩ := change_spec hcall
  obtain ⟨hkeeps', harea⟩ := updateWindowArea_none henable
  have hkept := hkeeps.trans hkeeps'
  generalize hs : ((s₂.modify id fun w =>
    { w with state := .docked, dockedType := type }).modify id fun w =>
      (screen.moveToDock s₂.windowArea type w).1) = t at hkept
  have hself : t.window id = (screen.moveToDock s₂.windowArea type
      { s₂.window id with state := .docked, dockedType := type }).1 := by
    rw [← hs, Desktop.window_modify, Desktop.window_modify]
  have hothers : ∀ j, j ≠ id → t.window j = s₂.window j := by
    intro j hj
    rw [← hs, Desktop.window_modify_of_ne hj, Desktop.window_modify_of_ne hj]
  have hvisible : (t.window id).isVisible = (s₂.window id).isVisible := by
    rw [hself]
    exact moved_moveAndResizeTo.isVisible
  have htype : (t.window id).dockedType = type := by
    rw [hself]
    exact moved_moveAndResizeTo.dockedType
  have harrives : Stands (t.window id) →
      IsStrip (t.window id).dockedType (normal (free screen none v)) (t.window id).rect ∧
        Roomy (t.window id) := by
    intro hstands
    obtain ⟨hshows, -, hfull⟩ := hstands
    rw [hvisible] at hshows
    rw [htype] at hfull ⊢
    obtain ⟨hsuits, hv⟩ := hroom hshows hfull
    have hinside : Inside s₂.windowArea screen.totalArea := hv ▸ inside_windowAreaOf
    rw [← windowAreaOf_eq, ← hv, hself]
    exact hsuits.spec hfull hinside
  have hstayed : ∀ j, j ≠ id → t.window j = v j := fun j hj => (hothers j hj).trans (hrest j hj)
  obtain ⟨order', htiled'⟩ := htiled.arrive hv hstayed harrives
  refine ⟨⟨order', htiled'.keeps hkept⟩, harea, placed_keeps hkept fun j hdocked => ?_⟩
  by_cases hj : j = id
  · rw [hj, hself]
    exact placed_moveAndResizeTo
  · rw [hothers j hj] at hdocked ⊢
    exact hplaced j hj hdocked

omit [DecidableEq Id] in
/-- Room is a matter of its limits. -/
theorem Suits.congr {w w' : Window} {a : Rect} (h : Suits w a type) (hmin : w'.minSize = w.minSize)
    (hmax : w'.maxSize = w.maxSize) (hwidth : w'.maxDockedWidth = w.maxDockedWidth)
    (hheight : w'.maxDockedHeight = w.maxDockedHeight) : Suits w' a type := by
  cases type <;>
    simp only [Suits, Window.clampWidth, Window.clampHeight, Screen.dockedWidth,
      Screen.dockedHeight, hmin, hmax, hwidth, hheight] at h ⊢ <;> exact h

/-- **Docking does**, if the window has room and leaves what it must. -/
theorem Settled.dock (h : Settled screen s) (hsound : Sound screen s (.dock id type))
    (hcall : screen.dock calls id type s = some s') : Settled screen s' := by
  unfold Screen.dock at hcall
  split at hcall
  · cases hcall
    exact h
  · rename_i hother
    obtain ⟨halone, hyields, hsuits⟩ := hsound.resolve_left hother
    obtain ⟨order, htiled⟩ := h.tiled
    have hplaced : ∀ j, j ≠ id → (s.window j).state = .docked →
        (s.window j).isAutomaticPlacement = false := fun j _ => h.placed j
    have hstays : ∀ f : Window → Window, ∀ j, j ≠ id → (s.modify id f).window j = s.window j :=
      fun f j hj => Desktop.window_modify_of_ne hj
    cases hstate : (s.window id).state with
    | floating =>
      rw [hstate] at hcall
      obtain ⟨s₂, hstart, hcall⟩ := Option.bind_eq_some_iff.1 hcall
      obtain ⟨s₃, hchange, henable⟩ := Option.bind_eq_some_iff.1 hcall
      cases hstart
      have hgone : ¬ Stands (s.window id) := not_stands_of_state (by rw [hstate]; decide)
      rw [areaWithout, if_neg hgone] at hsuits
      refine htiled.settled_dock hgone (hstays _) (fun hvisible hfull => ?_) (fun j hj => ?_)
        hchange henable
      · rw [Desktop.window_modify] at hvisible ⊢
        exact ⟨(hsuits (.inl hvisible) hfull).congr rfl rfl rfl rfl, h.windowArea⟩
      · rw [hstays _ j hj]
        exact hplaced j hj
    | minimised =>
      rw [hstate] at hcall
      obtain ⟨s₂, hstart, hcall⟩ := Option.bind_eq_some_iff.1 hcall
      obtain ⟨s₃, hchange, henable⟩ := Option.bind_eq_some_iff.1 hcall
      cases hstart
      have hgone : ¬ Stands (s.window id) := not_stands_of_state (by rw [hstate]; decide)
      rw [areaWithout, if_neg hgone] at hsuits
      refine htiled.settled_dock hgone (hstays _) (fun _ hfull => ?_) (fun j hj => ?_)
        hchange henable
      · rw [Desktop.window_modify]
        exact ⟨(hsuits (.inr hstate) hfull).congr rfl rfl rfl rfl, h.windowArea⟩
      · rw [hstays _ j hj]
        exact hplaced j hj
    | docked =>
      rw [hstate] at hcall
      obtain ⟨s₂, hstart, hcall⟩ := Option.bind_eq_some_iff.1 hcall
      obtain ⟨s₃, hchange, henable⟩ := Option.bind_eq_some_iff.1 hcall
      have hself := h.not_isBehind hstate (halone hstate)
      have hstable : Stable screen calls id s := .inl ⟨hstate, hself⟩
      have hdeparts : Departs s s id := ⟨fun _ _ => rfl, .refl _⟩
      have hwithout := h.leave (halone hstate) hdeparts hstable hstart
      have hidden : ¬ Stands (Function.update s₂.window id
          { s₂.window id with isVisible := false } id) :=
        not_stands_of_hidden (by rw [Function.update_self])
      have hrest : ∀ j, j ≠ id → Function.update s₂.window id
          { s₂.window id with isVisible := false } j = s₂.window j :=
        fun j hj => Function.update_of_ne hj _ _
      obtain ⟨⟨order', htiled'⟩, harea⟩ := hwithout.tiled _ hrest hidden
      refine htiled'.settled_dock hidden (fun j hj => (hrest j hj).symm)
        (fun hvisible hfull => ?_) (fun j _ => hwithout.placed_all h.placed j) hchange henable
      have hareaOf : s₂.windowArea = areaWithout screen s id := by
        by_cases hid : Stands (s.window id)
        · exact h.windowArea_without hid hdeparts hstable (hyields hid hfull) hstart
        · rw [← (hwithout.moved id).stands_iff] at hid
          rcases hwithout.windowArea with h | h
          · exact h
          · rw [h]
            exact (hwithout.tiled s₂.window (fun _ _ => rfl) hid).2
      rw [hwithout.same hstate hself] at hvisible
      refine ⟨?_, hareaOf.trans harea.symm⟩
      rw [hareaOf, hwithout.same hstate hself]
      exact hsuits (.inl hvisible) hfull

/-- **A step that is sound keeps the layout.** -/
theorem Settled.perform (h : Settled screen s) {op : Op Id} (hsound : Sound screen s op)
    (hcall : perform screen place calls op s = some s') : Settled screen s' := by
  cases op with
  | dock id type => exact h.dock hsound hcall
  | restore id => exact h.restore hsound hcall
  | minimise id => exact h.minimise hsound hcall
  | «show» id => exact h.show hsound hcall
  | hide id => exact h.hide hcall

/-! ## Runs -/

/-- **The docking layout**: the windows that stand are within the screen,
no two of them meet, and `windowArea` is what they leave. -/
structure Docks (screen : Screen Id) (s : Desktop Id) : Prop where
  inside : ∀ id, Stands (s.window id) → ∀ x y, (s.window id).rect.contains x y →
    screen.totalArea.contains x y
  disjoint : ∀ id other, id ≠ other → Stands (s.window id) → Stands (s.window other) → ∀ x y,
    ¬ ((s.window id).rect.contains x y ∧ (s.window other).rect.contains x y)
  windowArea : ∀ x y, s.windowArea.contains x y ↔ screen.totalArea.contains x y ∧
    ∀ id, Stands (s.window id) → ¬ (s.window id).rect.contains x y

theorem Settled.docks (h : Settled screen s) : Docks screen s := by
  obtain ⟨order, htiled⟩ := h.tiled
  refine ⟨fun id hid x y hx => ?_, fun id other hne hid hother x y => ?_, fun x y => ?_⟩
  · exact htiled.laid.contains_area ((htiled.mem_iff id).2 hid) hx
  · have hsymm : Std.Symm fun i j => ∀ x y,
        ¬ ((s.window i).rect.contains x y ∧ (s.window j).rect.contains x y) :=
      ⟨fun i j hij x y hboth => hij x y hboth.symm⟩
    exact htiled.laid.pairwise.forall ((htiled.mem_iff id).2 hid) ((htiled.mem_iff other).2 hother)
      hne x y
  · rw [h.windowArea, windowAreaOf_eq, contains_normal, htiled.laid.contains_iff]
    refine and_congr_right fun _ => forall_congr' fun id => ?_
    rw [htiled.mem_iff]

/-- No window is docked, and the window area is the whole screen. -/
def Starts (screen : Screen Id) (s : Desktop Id) : Prop :=
  (∀ id, (s.window id).state ≠ .docked) ∧ s.windowArea = screen.totalArea

/-- So it is settled. -/
theorem Starts.settled (h : Starts screen s) : Settled screen s := by
  have hgone : ∀ id, ¬ Stands (s.window id) := fun id => not_stands_of_state (h.1 id)
  have hmem : ∀ id, id ∈ ([] : List Id) ↔ Stands (s.window id) :=
    fun id => iff_of_false List.not_mem_nil (hgone id)
  have hlaid : Laid (fun id => (s.window id).rect) (fun id => (s.window id).dockedType)
      screen.totalArea [] screen.totalArea := .nil _
  have hfree := hlaid.eq_free List.nodup_nil hmem
  refine ⟨⟨[], List.nodup_nil, hmem, by rw [hfree]; exact hlaid, fun id hid => absurd hid (hgone id)⟩,
    ?_, fun id hdocked => absurd hdocked (h.1 id)⟩
  rw [h.2, windowAreaOf_eq, hfree, normal_totalArea]

/-- One step of a run, with so many calls; nothing comes of a run that has
not enough. -/
def step (screen : Screen Id) (place : Desktop Id → Id → IVec2) (s : Option (Desktop Id))
    (op : Op Id × ℕ) : Option (Desktop Id) :=
  s.bind (perform screen place op.2 op.1)

/-- **In every run of steps that are sound the docking layout holds in
every state.** -/
theorem docks_of_sound (hs : Starts screen s) (ops : List (Op Id × ℕ))
    (h : Library.Along (step screen place) (fun s op => ∀ d ∈ s, Sound screen d op.1) (some s) ops) :
    Library.Throughout (step screen place) (fun s => ∀ d ∈ s, Docks screen d) (some s) ops := by
  refine Library.throughout_of_invariant (I := fun s => ∀ d ∈ s, Settled screen d) h ?_ ?_ ?_
  · rintro d hd
    cases hd
    exact hs.settled
  · rintro s op hsettled hsound d hd
    obtain ⟨t, ht, hstep⟩ := Option.bind_eq_some_iff.1 hd
    exact (hsettled t ht).perform (hsound t ht) hstep
  · exact fun s hsettled d hd => (hsettled d hd).docks

/-! ## Three windows -/

/-- There is a first of three. -/
theorem first_of_three : NeZero 3 := ⟨by decide⟩

attribute [local instance] first_of_three

/-- A screen with three windows. -/
def threeWindows : Screen (Fin 3) where
  width := 1024
  height := 768
  windows := [0, 1, 2]
  width_nonneg := by decide
  height_nonneg := by decide
  width_le := by decide
  height_le := by decide
  nodup := by decide
  mem_windows := by decide

/-- That float, with the limits a window has at first. -/
def floatingWindow : Window where
  x := 100
  y := 100
  width := 300
  height := 200
  isVisible := true
  leftMargin := 4
  topMargin := 20
  rightMargin := 4
  bottomMargin := 4
  minSize := ⟨32, 32⟩
  maxSize := ⟨0x7fffffff, 0x7fffffff⟩
  maxDockedWidth := 0x40000000
  maxDockedHeight := 0x40000000
  state := .floating
  dockedType := .left
  defaultFloatingRect := ⟨104, 120, 396, 296⟩
  isAutomaticPlacement := false

def floatingWindows : Desktop (Fin 3) where
  window _ := floatingWindow
  windowArea := ⟨0, 0, 1024, 768⟩

/-- Windows are docked at three sides, and leave again. -/
theorem docks_of_sound_threeWindows :
    (Library.run (step threeWindows fun _ _ => ⟨0, 0⟩) (some floatingWindows)
      [(.dock 0 .left, 8), (.dock 1 .top, 8), (.hide 1, 8), (.show 1, 8), (.dock 2 .right, 8),
        (.minimise 2, 8), (.restore 0, 8)]).isSome ∧
    Library.Throughout (step threeWindows fun _ _ => ⟨0, 0⟩)
      (fun s => ∀ d ∈ s, Docks threeWindows d) (some floatingWindows)
      [(.dock 0 .left, 8), (.dock 1 .top, 8), (.hide 1, 8), (.show 1, 8), (.dock 2 .right, 8),
        (.minimise 2, 8), (.restore 0, 8)] :=
  ⟨by decide +kernel, docks_of_sound ⟨by decide, by decide⟩ _ (by decide +kernel)⟩

/-- **A hidden window that is shown again** stands where another has closed
up to. -/
theorem not_docks : Starts threeWindows floatingWindows ∧
    (∀ id, (floatingWindows.window id).minSize.x ≤ threeWindows.totalArea.width ∧
      (floatingWindows.window id).minSize.y ≤ threeWindows.totalArea.height) ∧
    ¬ Library.Throughout (step threeWindows fun _ _ => ⟨0, 0⟩)
      (fun s => ∀ d ∈ s, Docks threeWindows d) (some floatingWindows)
      [(.dock 0 .left, 8), (.dock 1 .left, 8), (.hide 0, 8), (.show 0, 8)] := by
  refine ⟨⟨by decide, by decide⟩, by decide, fun h => ?_⟩
  have hlast := h.last
  have hrun : (Library.run (step threeWindows fun _ _ => ⟨0, 0⟩) (some floatingWindows)
      [(.dock 0 .left, 8), (.dock 1 .left, 8), (.hide 0, 8), (.show 0, 8)]).map (fun d =>
        (decide (Stands (d.window 0) ∧ Stands (d.window 1)), (d.window 0).rect, (d.window 1).rect)) =
      some (true, ⟨0, 0, 508, 768⟩, ⟨0, 0, 254, 768⟩) := by decide +kernel
  obtain ⟨d, hd, hshown⟩ := Option.map_eq_some_iff.1 hrun
  simp only [Prod.mk.injEq, decide_eq_true_eq] at hshown
  obtain ⟨⟨hfirst, hsecond⟩, hrect, hrect'⟩ := hshown
  refine (hlast d hd).disjoint 0 1 (by decide) hfirst hsecond 0 0 ?_
  rw [hrect, hrect']
  decide

end DesktopManager

end Uberos
