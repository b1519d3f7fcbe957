import Uberos.DesktopManager.Area
import Mathlib.Algebra.GroupWithZero.Nat
import Mathlib.Algebra.Order.BigOperators.Group.List
import Mathlib.Algebra.Order.Group.Nat
import Uberos.Library.Counted
/-!
# Stuck windows

A floating window that does not fit the window area is moved and resized,
and fitted again. What that comes to is settled at the second try. Moved,
it is of the size it is asked to be, and fits. Resized where it is, it is
no smaller than sixteen pixels, its margins with it: where it is asked to
be smaller it may be asked so again, at the place it is at, and from then
on nothing changes.
-/

namespace Uberos

namespace DesktopManager

variable {Id : Type} {screen : Screen Id} {a : Rect} {w : Window}
variable {size room lo hi left right : ℤ}

/-! ## One try -/

/-- It is asked to where it is. -/
def Stays (a : Rect) (w : Window) : Prop :=
  (Screen.fit a w).x1 = w.getX ∧ (Screen.fit a w).y1 = w.getY

instance (a : Rect) (w : Window) : Decidable (Stays a w) := inferInstanceAs (Decidable (_ ∧ _))

/-- What becomes of it, resized there. -/
def resizedThere (a : Rect) (w : Window) : Window :=
  { w with isAutomaticPlacement := false }.resizeDisplay
    (w.leftMargin + w.clampWidth (min w.getWidth a.width) + w.rightMargin)
    (w.topMargin + w.clampHeight (min w.getHeight a.height) + w.bottomMargin)

/-- Of a size it is asked to be, it is asked to be so again. -/
theorem clamp_clamp :
    clamp (min (clamp (min size room) lo hi) room) lo hi = clamp (min size room) lo hi := by
  unfold clamp
  omega

/-- And so where it is not, for being too small. -/
theorem clamp_resized {asked : ℤ} (hasked : asked = clamp (min size room) lo hi) :
    max 16 (left + clamp (min (max 16 (left + asked + right) - left - right) room) lo hi + right) =
      max 16 (left + asked + right) := by
  unfold clamp at hasked ⊢
  omega

/-- What becomes of it, moved. -/
def movedThere (a : Rect) (w : Window) : Window :=
  { w with
    x := (Screen.fit a w).x1 - w.leftMargin
    y := (Screen.fit a w).y1 - w.topMargin
    width := w.leftMargin + w.clampWidth (min w.getWidth a.width) + w.rightMargin
    height := w.topMargin + w.clampHeight (min w.getHeight a.height) + w.bottomMargin
    isAutomaticPlacement := false }

theorem moveAndResizeDisplay_of_ne (w : Window) {x1 y1 x2 y2 width height : ℤ}
    (hwidth : x2 - x1 = width) (hheight : y2 - y1 = height)
    (hsize : ¬ (width = w.width ∧ height = w.height)) :
    w.moveAndResizeDisplay ⟨x1, y1, x2, y2⟩ =
      if x1 = w.x ∧ y1 = w.y then w.resizeDisplay width height
      else { w with x := x1, y := y1, width := width, height := height } := by
  subst hwidth hheight
  exact if_neg hsize

/-- **What becomes of a window that does not fit.** -/
theorem refit_of_not_fits (hfits : ¬ Fits a w) :
    (screen.refit a w).1 = if Stays a w then resizedThere a w else movedThere a w := by
  have hsame : ¬ (w.leftMargin + w.clampWidth (min w.getWidth a.width) + w.rightMargin = w.width ∧
      w.topMargin + w.clampHeight (min w.getHeight a.height) + w.bottomMargin = w.height) := by
    rintro ⟨hw, hh⟩
    refine hfits ⟨?_, ?_⟩
    · unfold Window.getWidth at hw ⊢
      omega
    · unfold Window.getHeight at hh ⊢
      omega
  have hstays : ((Screen.fit a w).x1 - w.leftMargin = w.x ∧
      (Screen.fit a w).y1 - w.topMargin = w.y) ↔ Stays a w := by
    unfold Stays Window.getX Window.getY
    omega
  have hwidth : (Screen.fit a w).x1 + w.clampWidth (min w.getWidth a.width) + w.rightMargin -
      ((Screen.fit a w).x1 - w.leftMargin) =
      w.leftMargin + w.clampWidth (min w.getWidth a.width) + w.rightMargin := by
    omega
  have hheight : (Screen.fit a w).y1 + w.clampHeight (min w.getHeight a.height) + w.bottomMargin -
      ((Screen.fit a w).y1 - w.topMargin) =
      w.topMargin + w.clampHeight (min w.getHeight a.height) + w.bottomMargin := by
    omega
  unfold Screen.refit
  dsimp only
  rw [size_fit.1, size_fit.2]
  refine (congrArg Prod.fst (if_neg hfits)).trans ?_
  exact (moveAndResizeDisplay_of_ne { w with isAutomaticPlacement := false } hwidth hheight
    hsame).trans (if_congr hstays rfl rfl)

/-- Moved, it fits. -/
theorem fits_movedThere : Fits a (movedThere a w) := by
  have hwidth : (movedThere a w).getWidth = w.clampWidth (min w.getWidth a.width) := by
    show w.leftMargin + w.clampWidth (min w.getWidth a.width) + w.rightMargin - w.leftMargin -
      w.rightMargin = w.clampWidth (min w.getWidth a.width)
    omega
  have hheight : (movedThere a w).getHeight = w.clampHeight (min w.getHeight a.height) := by
    show w.topMargin + w.clampHeight (min w.getHeight a.height) + w.bottomMargin - w.topMargin -
      w.bottomMargin = w.clampHeight (min w.getHeight a.height)
    omega
  unfold Fits
  rw [hwidth, hheight]
  exact ⟨clamp_clamp, clamp_clamp⟩

/-- **Resized where it is, it is so for good.** -/
theorem resizedThere_resizedThere : resizedThere a (resizedThere a w) = resizedThere a w := by
  have hwidth : (resizedThere a (resizedThere a w)).width = (resizedThere a w).width :=
    clamp_resized rfl
  have hheight : (resizedThere a (resizedThere a w)).height = (resizedThere a w).height :=
    clamp_resized rfl
  calc resizedThere a (resizedThere a w)
      = { resizedThere a w with
          width := (resizedThere a (resizedThere a w)).width
          height := (resizedThere a (resizedThere a w)).height } := rfl
    _ = resizedThere a w := by rw [hwidth, hheight]

/-! ## Getting stuck -/

/-- **A window that never comes to fit**: it is resized where it is, does
not fit then, and is to be resized there again. -/
structure Stuck (a : Rect) (w : Window) : Prop where
  not_fits : ¬ Fits a w
  stays : Stays a w
  not_fits_then : ¬ Fits a (resizedThere a w)
  stays_then : Stays a (resizedThere a w)

instance (a : Rect) (w : Window) : Decidable (Stuck a w) :=
  decidable_of_iff (¬ Fits a w ∧ Stays a w ∧ ¬ Fits a (resizedThere a w) ∧
    Stays a (resizedThere a w)) ⟨fun ⟨h, h', h'', h'''⟩ => ⟨h, h', h'', h'''⟩,
      fun ⟨h, h', h'', h'''⟩ => ⟨h, h', h'', h'''⟩⟩

/-- **It stays stuck.** -/
theorem Stuck.refit (h : Stuck a w) : Stuck a (screen.refit a w).1 := by
  rw [refit_of_not_fits h.not_fits, if_pos h.stays]
  refine ⟨h.not_fits_then, h.stays_then, ?_, ?_⟩
  · rw [resizedThere_resizedThere]
    exact h.not_fits_then
  · rw [resizedThere_resizedThere]
    exact h.stays_then

/-- How often it is resized until it fits, if it ever does. -/
def tries (screen : Screen Id) (a : Rect) (w : Window) : ℕ :=
  if Fits a w then 0 else if Fits a (screen.refit a w).1 then 1 else 2

theorem tries_of_fits (h : Fits a w) : tries screen a w = 0 := if_pos h

/-- A window that is not stuck fits after two tries. -/
theorem fits_of_not_stuck (hstuck : ¬ Stuck a w) (hfits : ¬ Fits a w)
    (hrefit : ¬ Fits a (screen.refit a w).1) : Fits a (screen.refit a (screen.refit a w).1).1 := by
  have hstays : Stays a w := by
    by_contra hmoves
    rw [refit_of_not_fits hfits, if_neg hmoves] at hrefit
    exact hrefit fits_movedThere
  rw [refit_of_not_fits hfits, if_pos hstays] at hrefit ⊢
  have hmoves : ¬ Stays a (resizedThere a w) := fun h => hstuck ⟨hfits, hstays, hrefit, h⟩
  rw [refit_of_not_fits hrefit, if_neg hmoves]
  exact fits_movedThere

/-- **Each try is one less.** -/
theorem tries_refit_lt (hstuck : ¬ Stuck a w) (hfits : ¬ Fits a w) :
    tries screen a (screen.refit a w).1 < tries screen a w := by
  unfold tries
  rw [if_neg hfits]
  by_cases hrefit : Fits a (screen.refit a w).1
  · rw [if_pos hrefit, if_pos hrefit]
    exact Nat.one_pos
  · rw [if_neg hrefit, if_neg hrefit, if_pos (fits_of_not_stuck hstuck hfits hrefit)]
    exact Nat.one_lt_two

/-- **A window that is not stuck does not get stuck.** -/
theorem not_stuck_refit (hstuck : ¬ Stuck a w) : ¬ Stuck a (screen.refit a w).1 := by
  intro h
  by_cases hfits : Fits a w
  · exact h.not_fits ((fits_refit (refit_iff.2 hfits)).2 hfits)
  · have hagain : Stuck a (screen.refit a (screen.refit a w).1).1 := h.refit
    exact hagain.not_fits (fits_of_not_stuck hstuck hfits h.not_fits)

end DesktopManager

end Uberos

/-!
## How updates end

`_update_window_area` resizes a floating window, which calls it again. A
call that leaves no window out ends exactly when no floating window is
stuck: each resize is one try less, of two that a window has. One that
leaves a window out fits the others to an area that the calls it makes do
not know of, and is up to these from the first window it resizes.
-/

namespace Uberos

namespace DesktopManager

variable {Id : Type} [DecidableEq Id] {screen : Screen Id} {a : Rect} {window : Id → Window}
variable {exclude : Option Id} {calls calls' : ℕ} {s s' t : Desktop Id} {id : Id} {ids : List Id}

/-! ## One window -/

/-- What `_update_window_area` does to one window. -/
def Screen.visit (screen : Screen Id) (calls : ℕ) (exclude : Option Id) (s : Desktop Id) (id : Id) :
    Option (Desktop Id) :=
  if some id = exclude then some s
  else if (s.window id).state = .floating then
    s.change (screen.updateWindowArea calls none) id (screen.refit s.windowArea)
  else some s

theorem updateWindowArea_succ : screen.updateWindowArea (calls + 1) exclude s =
    screen.windows.foldlM (screen.visit calls exclude)
      { s with windowArea := screen.windowAreaOf exclude s.window } := rfl

/-- It is fitted to the window area. -/
def refitted (screen : Screen Id) (s : Desktop Id) (id : Id) : Desktop Id :=
  s.modify id fun w => (screen.refit s.windowArea w).1

theorem window_refitted :
    (refitted screen s id).window id = (screen.refit s.windowArea (s.window id)).1 :=
  Desktop.window_modify

theorem window_refitted_of_ne {other : Id} (h : other ≠ id) :
    (refitted screen s id).window other = s.window other :=
  Desktop.window_modify_of_ne h

theorem visit_of_skipped (h : some id ≠ exclude → (s.window id).state ≠ .floating) :
    screen.visit calls exclude s id = some s := by
  unfold Screen.visit
  split
  · rfl
  · rename_i hid
    rw [if_neg (h hid)]

theorem visit_of_fits (hid : some id ≠ exclude) (hfloating : (s.window id).state = .floating)
    (hfits : Fits s.windowArea (s.window id)) :
    screen.visit calls exclude s id = some (refitted screen s id) := by
  unfold Screen.visit Desktop.change
  rw [if_neg hid, if_pos hfloating, refit_iff.2 hfits]
  rfl

theorem visit_of_not_fits (hid : some id ≠ exclude) (hfloating : (s.window id).state = .floating)
    (hfits : ¬ Fits s.windowArea (s.window id)) : screen.visit calls exclude s id =
      screen.updateWindowArea calls none (refitted screen s id) := by
  have hresized : (screen.refit s.windowArea (s.window id)).2 = true := by
    rw [← Bool.not_eq_false, refit_iff]
    exact hfits
  unfold Screen.visit Desktop.change
  rw [if_neg hid, if_pos hfloating, hresized]
  rfl

theorem keeps_refitted (screen : Screen Id) (hfloating : (s.window id).state = .floating) :
    Keeps s.window (refitted screen s id).window :=
  (Keeps.refl s.window).update hfloating moved_refit

/-- **The ways of a window**: it is left alone, moved, or resized. -/
theorem visit_cases (screen : Screen Id) (exclude : Option Id) (s : Desktop Id) (id : Id) :
    (∀ calls, screen.visit calls exclude s id = some s) ∨
    (some id ≠ exclude ∧ (s.window id).state = .floating) ∧
      ((Fits s.windowArea (s.window id) ∧
        ∀ calls, screen.visit calls exclude s id = some (refitted screen s id)) ∨
      (¬ Fits s.windowArea (s.window id) ∧ ∀ calls, screen.visit calls exclude s id =
        screen.updateWindowArea calls none (refitted screen s id))) := by
  by_cases hvisited : some id ≠ exclude ∧ (s.window id).state = .floating
  · refine Or.inr ⟨hvisited, ?_⟩
    by_cases hfits : Fits s.windowArea (s.window id)
    · exact Or.inl ⟨hfits, fun _ => visit_of_fits hvisited.1 hvisited.2 hfits⟩
    · exact Or.inr ⟨hfits, fun _ => visit_of_not_fits hvisited.1 hvisited.2 hfits⟩
  · exact Or.inl fun _ => visit_of_skipped fun hid hfloating => hvisited ⟨hid, hfloating⟩

/-- **More calls change nothing.** -/
theorem grows_updateWindowArea :
    Library.Grows fun calls s => screen.updateWindowArea calls exclude s := by
  intro calls calls' s s' hcalls h
  dsimp only at h ⊢
  induction calls generalizing calls' exclude s s' with
  | zero => cases h
  | succ calls ih =>
    obtain ⟨more, rfl⟩ := Nat.exists_eq_add_of_lt hcalls
    rw [updateWindowArea_succ] at h ⊢
    refine Library.foldlM_mono (fun id t t' hvisit => ?_) h
    rcases visit_cases screen exclude t id with hskip | ⟨-, ⟨-, hmove⟩ | ⟨-, hresize⟩⟩
    · rw [hskip] at hvisit ⊢
      exact hvisit
    · rw [hmove] at hvisit ⊢
      exact hvisit
    · rw [hresize] at hvisit ⊢
      exact ih (Nat.le_add_right calls more) hvisit

/-! ## With none left out -/

/-- No floating window is stuck. -/
def Unstuck (a : Rect) (window : Id → Window) : Prop :=
  ∀ id, (window id).state = .floating → ¬ Stuck a (window id)

/-- How often windows are resized until all fit. -/
def triesLeft (screen : Screen Id) (a : Rect) (window : Id → Window) : ℕ :=
  (screen.windows.map fun id =>
    if (window id).state = .floating then tries screen a (window id) else 0).sum

theorem unstuck_refitted (h : Unstuck s.windowArea s.window) :
    Unstuck s.windowArea (refitted screen s id).window := by
  intro other hfloating
  by_cases hother : other = id
  · subst hother
    rw [window_refitted] at hfloating ⊢
    exact not_stuck_refit (h other (moved_refit.state ▸ hfloating))
  · rw [window_refitted_of_ne hother] at hfloating ⊢
    exact h other hfloating

/-- **Each resize is one try less.** -/
theorem triesLeft_refitted_lt (screen : Screen Id) (h : Unstuck s.windowArea s.window)
    (hfloating : (s.window id).state = .floating) (hfits : ¬ Fits s.windowArea (s.window id)) :
    triesLeft screen s.windowArea (refitted screen s id).window <
      triesLeft screen s.windowArea s.window := by
  have hself : (if ((refitted screen s id).window id).state = .floating then
      tries screen s.windowArea ((refitted screen s id).window id) else 0) <
      if (s.window id).state = .floating then tries screen s.windowArea (s.window id) else 0 := by
    rw [window_refitted, moved_refit.state, if_pos hfloating, if_pos hfloating]
    exact tries_refit_lt (h id hfloating) hfits
  refine List.sum_lt_sum _ _ (fun other _ => ?_) ⟨id, screen.mem_windows id, hself⟩
  by_cases hother : other = id
  · rw [hother]
    exact hself.le
  · rw [window_refitted_of_ne hother]

/-- One that is moved costs none. -/
theorem triesLeft_refitted_le (screen : Screen Id) (hfloating : (s.window id).state = .floating)
    (hfits : Fits s.windowArea (s.window id)) :
    triesLeft screen s.windowArea (refitted screen s id).window ≤
      triesLeft screen s.windowArea s.window := by
  refine List.sum_le_sum fun other _ => ?_
  by_cases hother : other = id
  · have hmoved : Fits s.windowArea (screen.refit s.windowArea (s.window id)).1 :=
      (fits_refit (refit_iff.2 hfits)).2 hfits
    rw [hother, window_refitted, moved_refit.state, tries_of_fits hmoved]
    split <;> exact Nat.zero_le _
  · rw [window_refitted_of_ne hother]

/-- **The rule of an end**: what is kept of a window that is fitted, and
where those it calls again for end. -/
theorem exists_foldlM_visit (J : Desktop Id → Prop) (hs : J s)
    (hfits : ∀ id t, J t → some id ≠ exclude → (t.window id).state = .floating →
      Fits t.windowArea (t.window id) → J (refitted screen t id))
    (hnot : ∀ id t, J t → some id ≠ exclude → (t.window id).state = .floating →
      ¬ Fits t.windowArea (t.window id) →
      ∃ t', screen.updateWindowArea calls none (refitted screen t id) = some t' ∧ J t') :
    ∃ s', ids.foldlM (screen.visit calls exclude) s = some s' ∧ J s' := by
  refine Library.exists_foldlM J hs (fun t id ht => ?_) ids
  rcases visit_cases screen exclude t id with hskip | ⟨hvisited, ⟨hfit, hmove⟩ | ⟨hfit, hresize⟩⟩
  · exact ⟨t, hskip calls, ht⟩
  · exact ⟨_, hmove calls, hfits id t ht hvisited.1 hvisited.2 hfit⟩
  · rw [hresize]
    exact hnot id t ht hvisited.1 hvisited.2 hfit

/-- **Where no window is stuck, it ends**, within as many calls as there
are tries left and one more. -/
theorem exists_updateWindowArea (ha : screen.windowAreaOf none s.window = a)
    (hstuck : Unstuck a s.window) (hcalls : triesLeft screen a s.window < calls) :
    ∃ s', screen.updateWindowArea calls none s = some s' ∧ Keeps s.window s'.window ∧
      s'.windowArea = a ∧ Unstuck a s'.window ∧
      triesLeft screen a s'.window ≤ triesLeft screen a s.window := by
  induction calls generalizing s with
  | zero => exact absurd hcalls (Nat.not_lt_zero _)
  | succ calls ih =>
    rw [updateWindowArea_succ]
    refine exists_foldlM_visit _ ⟨.refl _, ha, hstuck, le_rfl⟩ ?_ ?_
    · rintro id t ⟨hkeeps, rfl, hunstuck, htries⟩ - hfloating hfits
      have hle := triesLeft_refitted_le screen hfloating hfits
      exact ⟨hkeeps.trans (keeps_refitted screen hfloating), rfl, unstuck_refitted hunstuck,
        hle.trans htries⟩
    · rintro id t ⟨hkeeps, rfl, hunstuck, htries⟩ - hfloating hfits
      have hkeeps' := hkeeps.trans (keeps_refitted screen hfloating)
      have hlt := triesLeft_refitted_lt screen hunstuck hfloating hfits
      obtain ⟨t', h, hkeeps'', harea, hunstuck', htries'⟩ :=
        ih ((windowAreaOf_keeps hkeeps').trans ha) (unstuck_refitted hunstuck) (by omega)
      exact ⟨t', h, hkeeps'.trans hkeeps'', harea, hunstuck', by omega⟩

/-- **Where a window is stuck, it does not.** -/
theorem updateWindowArea_of_stuck (ha : screen.windowAreaOf none s.window = a)
    (hfloating : (s.window id).state = .floating) (hstuck : Stuck a (s.window id)) :
    screen.updateWindowArea calls none s = none := by
  induction calls generalizing s with
  | zero => rfl
  | succ calls ih =>
    by_contra hends
    obtain ⟨s', h⟩ := Option.ne_none_iff_exists'.1 hends
    -- it is not gone past
    refine (updateWindowArea_loop (fun past t => id ∉ past ∧ Keeps s.window t.window ∧
      t.windowArea = a ∧ t.window id = s.window id)
      ⟨List.not_mem_nil, .refl _, ha, rfl⟩ ?_ ?_ ?_ h).1 (screen.mem_windows id)
    · rintro past other t ⟨hpast, hkeeps, harea, hsame⟩ hskipped
      have hother : id ≠ other := by
        rintro rfl
        exact hskipped (by simp) (hsame ▸ hfloating)
      exact ⟨by simp [hpast, hother], hkeeps, harea, hsame⟩
    · rintro past other t ⟨hpast, hkeeps, rfl, hsame⟩ - hotherFloating hmoved
      have hother : id ≠ other := by
        rintro rfl
        exact hstuck.not_fits (hsame ▸ refit_iff.1 hmoved)
      refine ⟨by simp [hpast, hother], hkeeps.trans (keeps_refitted screen hotherFloating), rfl, ?_⟩
      rw [Desktop.window_modify_of_ne hother, hsame]
    · rintro past other t t' ⟨-, hkeeps, rfl, hsame⟩ - hotherFloating - hcall
      have hkeeps' := hkeeps.trans (keeps_refitted screen hotherFloating)
      have hkept : Stuck t.windowArea ((refitted screen t other).window id) := by
        by_cases hother : id = other
        · subst hother
          rw [window_refitted, hsame]
          exact hstuck.refit
        · rw [window_refitted_of_ne hother, hsame]
          exact hstuck
      have hstate := (hkeeps'.moved id).state.trans hfloating
      have hnone := ih ((windowAreaOf_keeps hkeeps').trans ha) hstate hkept
      exact absurd (hnone.symm.trans hcall) (Option.some_ne_none t').symm

/-- **A call that leaves none out ends exactly when no window is stuck.** -/
theorem ends_updateWindowArea_none :
    Library.Ends (fun calls => screen.updateWindowArea calls none) s ↔
      Unstuck (screen.windowAreaOf none s.window) s.window := by
  constructor
  · rintro ⟨calls, s', h⟩ id hfloating hstuck
    have hnone : screen.updateWindowArea calls none s = none :=
      updateWindowArea_of_stuck rfl hfloating hstuck
    exact absurd (hnone.symm.trans h) (Option.some_ne_none s').symm
  · intro hstuck
    obtain ⟨s', h, -⟩ := exists_updateWindowArea rfl hstuck (Nat.lt_succ_self _)
    exact ⟨_, s', h⟩

/-! ## With one left out -/

/-- Windows are fitted up to the first that is resized, if one is, and
which are left then. -/
def firstPass (screen : Screen Id) (exclude : Option Id) :
    List Id → Desktop Id → Desktop Id × Option (List Id)
  | [], s => (s, none)
  | id :: ids, s =>
    if some id ≠ exclude ∧ (s.window id).state = .floating then
      if Fits s.windowArea (s.window id) then firstPass screen exclude ids (refitted screen s id)
      else (refitted screen s id, some ids)
    else firstPass screen exclude ids s

/-- **No window is stuck from there on.** -/
def Safe (screen : Screen Id) (exclude : Option Id) (s : Desktop Id) : Prop :=
  let pass := firstPass screen exclude screen.windows
    { s with windowArea := screen.windowAreaOf exclude s.window }
  pass.2.isSome → Unstuck (screen.windowAreaOf none s.window) pass.1.window

theorem keeps_firstPass (screen : Screen Id) (exclude : Option Id) (ids : List Id)
    (s : Desktop Id) : Keeps s.window (firstPass screen exclude ids s).1.window := by
  induction ids generalizing s with
  | nil => exact .refl _
  | cons id ids ih =>
    unfold firstPass
    split
    · rename_i hvisited
      have hkeeps := keeps_refitted screen hvisited.2
      split
      · exact hkeeps.trans (ih _)
      · exact hkeeps
    · exact ih s

/-- **Up to the first that is resized, no call is made.** -/
theorem foldlM_visit : ids.foldlM (screen.visit calls exclude) s =
    match firstPass screen exclude ids s with
    | (t, none) => some t
    | (t, some rest) =>
      screen.updateWindowArea calls none t >>= rest.foldlM (screen.visit calls exclude) := by
  induction ids generalizing s with
  | nil => rfl
  | cons id ids ih =>
    unfold firstPass
    rw [List.foldlM_cons]
    split_ifs with hvisited hfits
    · rw [visit_of_fits hvisited.1 hvisited.2 hfits]
      exact ih
    · rw [visit_of_not_fits hvisited.1 hvisited.2 hfits]
    · rw [visit_of_skipped fun hid hfloating => hvisited ⟨hid, hfloating⟩]
      exact ih

/-- **Where all windows fit, they are only moved.** -/
theorem exists_foldlM_visit_of_fits
    (hfits : ∀ id, (s.window id).state = .floating → Fits s.windowArea (s.window id)) :
    ∃ s', ids.foldlM (screen.visit calls exclude) s = some s' := by
  obtain ⟨s', h, -⟩ : ∃ s', ids.foldlM (screen.visit calls exclude) s = some s' ∧
      ∀ id, (s'.window id).state = .floating → Fits s'.windowArea (s'.window id) := by
    refine exists_foldlM_visit
      (fun t => ∀ id, (t.window id).state = .floating → Fits t.windowArea (t.window id))
      hfits ?_ ?_
    · intro id t hfits _ hfloating hfit other hother
      by_cases hsame : other = id
      · subst hsame
        rw [window_refitted]
        exact (fits_refit (refit_iff.2 hfit)).2 hfit
      · rw [window_refitted_of_ne hsame] at hother ⊢
        exact hfits other hother
    · intro id t hfits _ hfloating hnot
      exact absurd (hfits id hfloating) hnot
  exact ⟨s', h⟩

/-- Once one has ended, they do. -/
theorem fits_of_updateWindowArea_none (h : screen.updateWindowArea calls none s = some s') (id : Id)
    (hfloating : (s'.window id).state = .floating) : Fits s'.windowArea (s'.window id) := by
  obtain ⟨hkeeps, harea⟩ := updateWindowArea_none h
  rw [windowAreaOf_keeps hkeeps] at harea
  rw [harea]
  refine fits_of_updateWindowArea ⟨le_rfl, le_rfl⟩ ⟨le_rfl, le_rfl⟩ h id (by simp) ?_
  rwa [(hkeeps.moved id).state] at hfloating

/-- **A call ends exactly when it is safe.** -/
theorem ends_updateWindowArea :
    Library.Ends (fun calls => screen.updateWindowArea calls exclude) s ↔ Safe screen exclude s := by
  have hkeeps := keeps_firstPass screen exclude screen.windows
    { s with windowArea := screen.windowAreaOf exclude s.window }
  have hsucc (calls : ℕ) : screen.updateWindowArea (calls + 1) exclude s = _ :=
    updateWindowArea_succ.trans foldlM_visit
  unfold Safe
  generalize firstPass screen exclude screen.windows
    { s with windowArea := screen.windowAreaOf exclude s.window } = pass at hkeeps hsucc ⊢
  obtain ⟨t, rest⟩ := pass
  dsimp only at hkeeps hsucc ⊢
  rw [← windowAreaOf_keeps hkeeps, ← ends_updateWindowArea_none]
  cases rest with
  | none => exact iff_of_true ⟨1, t, hsucc 0⟩ fun h => absurd h (by simp)
  | some rest =>
    constructor
    · rintro ⟨calls, s', h⟩ -
      cases calls with
      | zero => cases h
      | succ calls =>
        dsimp only at h
        rw [hsucc] at h
        obtain ⟨t', hcall, -⟩ := Option.bind_eq_some_iff.1 h
        exact ⟨calls, t', hcall⟩
    · intro h
      obtain ⟨calls, t', hcall⟩ := h rfl
      obtain ⟨s', hrest⟩ : ∃ s', rest.foldlM (screen.visit calls exclude) t' = some s' :=
        exists_foldlM_visit_of_fits (fits_of_updateWindowArea_none hcall)
      exact ⟨calls + 1, s', (hsucc calls).trans (Option.bind_eq_some_iff.2 ⟨t', hcall, hrest⟩)⟩

/-- With none left out, it is as no window is stuck. -/
theorem safe_none :
    Safe screen none s ↔ Unstuck (screen.windowAreaOf none s.window) s.window :=
  ends_updateWindowArea.symm.trans ends_updateWindowArea_none

end DesktopManager

end Uberos
