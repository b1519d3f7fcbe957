import Mathlib.Tactic.SplitIfs
import Uberos.DesktopManager.Moves
import Uberos.Library.Run
/-!
# The window area

`windowArea` is what the standing windows leave of the screen, a side that
comes to nothing being zero. `_update_window_area` works it out and moves
no window but the floating ones, which then are of a size that fits it.
-/

namespace Uberos

namespace DesktopManager

/-! ## What is left -/

/-- An area, with a side that comes to nothing as zero. -/
def normal (r : Rect) : Rect :=
  ⟨if r.x2 ≤ r.x1 then 0 else r.x1, if r.y2 ≤ r.y1 then 0 else r.y1,
    if r.x2 ≤ r.x1 then 0 else r.x2, if r.y2 ≤ r.y1 then 0 else r.y2⟩

variable {type type' : DockedType} {a b r r' : Rect} {x y : ℤ}

theorem contains_normal : (normal r).contains x y ↔ r.contains x y := by
  simp only [normal, Rect.contains]
  split_ifs <;> omega

theorem width_normal_le (h : Inside a b) : (normal a).width ≤ (normal b).width := by
  unfold Inside at h
  simp only [normal, Rect.width]
  split_ifs <;> omega

theorem height_normal_le (h : Inside a b) : (normal a).height ≤ (normal b).height := by
  unfold Inside at h
  simp only [normal, Rect.height]
  split_ifs <;> omega

/-- An area that is clear of something is so too with its other sides as
zero. -/
theorem Clear.normal {gone : Rect} (hx : gone.x1 < gone.x2) (hy : gone.y1 < gone.y2)
    (h : Clear type gone a) : Clear type gone (normal a) := by
  cases type with
  | full => trivial
  | _ =>
    simp only [Clear, DesktopManager.normal] at h ⊢
    rw [if_neg (by omega), if_neg (by omega)]
    exact h

/-- Nothing of an area that has a strip comes to nothing. -/
theorem normal_of_isStrip (h : IsStrip type (normal a) r) : normal a = a := by
  obtain ⟨x1, y1, x2, y2⟩ := a
  have hx : ¬ x2 ≤ x1 := by
    intro hnone
    cases type with
    | full => exact h
    | _ =>
      simp only [IsStrip, normal, if_pos hnone] at h
      omega
  have hy : ¬ y2 ≤ y1 := by
    intro hnone
    cases type with
    | full => exact h
    | _ =>
      simp only [IsStrip, normal, if_pos hnone] at h
      omega
  simp only [normal, if_neg hx, if_neg hy]

variable {Id : Type} {screen : Screen Id} {w w' : Window}

theorem OnScreen.of_inside (h : Inside r screen.totalArea) : OnScreen screen r := by
  obtain ⟨hx1, hx2, hy1, hy2⟩ := h
  exact ⟨hx1, hx2, hy1, hy2⟩

theorem normal_totalArea : normal screen.totalArea = screen.totalArea := by
  have hwidth := screen.width_nonneg
  have hheight := screen.height_nonneg
  simp only [Screen.totalArea, normal, Rect.mk.injEq]
  refine ⟨?_, ?_, ?_, ?_⟩ <;> split_ifs <;> omega

/-- An intersection sees an area as it is, normal or not. -/
theorem intersect_normal : (normal a).intersect b = a.intersect b := by
  simp only [normal, Rect.intersect, Rect.mk.injEq]
  refine ⟨?_, ?_, ?_, ?_⟩ <;> split_ifs <;> omega

theorem intersect_eq : a.intersect b =
    normal ⟨max a.x1 b.x1, max a.y1 b.y1, min a.x2 b.x2, min a.y2 b.y2⟩ := rfl

/-- What `_update_window_area` takes off an area for a docked window. -/
theorem reserve_normal (h : OnScreen screen a) :
    screen.reserve (normal a) w = normal (cut w.dockedType a w.rect) := by
  obtain ⟨hx1, hx2, hy1, hy2⟩ := h
  unfold Screen.reserve
  cases w.dockedType with
  | full => rfl
  | _ =>
    -- on the other sides the rectangle is cut with is the screen
    dsimp only
    rw [intersect_normal, intersect_eq]
    simp only [cut, Window.rect, max_eq_left hx1, max_eq_left hy1, min_eq_left hx2,
      min_eq_left hy2]

/-! ## Fitting -/

/-- A window that is of a size that fits an area, as far as its limits
let it. -/
def Fits (a : Rect) (w : Window) : Prop :=
  w.clampWidth (min w.getWidth a.width) = w.getWidth ∧
    w.clampHeight (min w.getHeight a.height) = w.getHeight

instance (a : Rect) (w : Window) : Decidable (Fits a w) := inferInstanceAs (Decidable (_ ∧ _))

/-- A size that is kept in so much room is kept in more. -/
theorem clamp_mono {size lo hi room room' : ℤ} (h : clamp (min size room) lo hi = size)
    (hroom : room ≤ room') : clamp (min size room') lo hi = size := by
  unfold clamp at h ⊢
  omega

theorem Fits.mono (h : Fits a w) (hwidth : a.width ≤ b.width) (hheight : a.height ≤ b.height) :
    Fits b w := ⟨clamp_mono h.1 hwidth, clamp_mono h.2 hheight⟩

theorem width_fitAxis {lo hi x1 x2 : ℤ} :
    (Screen.fitAxis lo hi x1 x2).2 - (Screen.fitAxis lo hi x1 x2).1 = min (x2 - x1) (hi - lo) := by
  unfold Screen.fitAxis
  dsimp only
  split_ifs <;> dsimp only <;> omega

theorem size_fit : (Screen.fit a w).width = min w.getWidth a.width ∧
    (Screen.fit a w).height = min w.getHeight a.height := by
  have hwidth : w.rect.x2 - w.rect.x1 = w.getWidth := by
    simp only [Window.rect]
    omega
  have hheight : w.rect.y2 - w.rect.y1 = w.getHeight := by
    simp only [Window.rect]
    omega
  constructor
  · rw [← hwidth]
    exact width_fitAxis
  · rw [← hheight]
    exact width_fitAxis

/-- A window that fits is not resized, and one that is not resized fits. -/
theorem refit_iff : (screen.refit a w).2 = false ↔ Fits a w := by
  unfold Screen.refit Window.moveAndResizeTo
  dsimp only
  rw [size_fit.1, size_fit.2]
  split
  · rename_i hsize
    exact iff_of_true rfl hsize
  · rename_i hsize
    exact iff_of_false (by simp) hsize

theorem size_moveTo : (w.moveTo screen x y).getWidth = w.getWidth ∧
    (w.moveTo screen x y).getHeight = w.getHeight := by
  unfold Window.moveTo
  dsimp only
  split <;> exact ⟨rfl, rfl⟩

theorem size_moveAndResizeTo {width height : ℤ}
    (h : (w.moveAndResizeTo screen x y width height).2 = false) :
    (w.moveAndResizeTo screen x y width height).1.getWidth = w.getWidth ∧
      (w.moveAndResizeTo screen x y width height).1.getHeight = w.getHeight := by
  unfold Window.moveAndResizeTo at h ⊢
  dsimp only at h ⊢
  split at h
  · rename_i hsize
    rw [if_pos hsize]
    exact size_moveTo
  · cases h

theorem moved_refit : Moved w (screen.refit a w).1 :=
  moved_moveAndResizeTo

theorem fits_of_moved (hmoved : Moved w w') (hsize : w'.getWidth = w.getWidth ∧
    w'.getHeight = w.getHeight) : Fits a w' ↔ Fits a w := by
  unfold Fits
  rw [hmoved.clampWidth, hmoved.clampHeight, hsize.1, hsize.2]

theorem fits_refit (h : (screen.refit a w).2 = false) : Fits b (screen.refit a w).1 ↔ Fits b w :=
  fits_of_moved moved_refit (size_moveAndResizeTo h)

/-! ## What the standing windows leave -/

/-- A window that takes up room of the screen. -/
def Stands (w : Window) : Prop := w.isVisible ∧ w.state = .docked ∧ w.dockedType ≠ .full

instance (w : Window) : Decidable (Stands w) := inferInstanceAs (Decidable (_ ∧ _))

theorem not_stands_of_state (h : w.state ≠ .docked) : ¬ Stands w :=
  fun hstands => h hstands.2.1

theorem not_stands_of_hidden (h : w.isVisible = false) : ¬ Stands w := by
  intro hstands
  have hvisible := hstands.1
  rw [h] at hvisible
  cases hvisible

theorem Moved.stands_iff (h : Moved w w') : Stands w' ↔ Stands w := by
  unfold Stands
  rw [h.isVisible, h.state, h.dockedType]

/-- What windows leave of an area. -/
def leaves (window : Id → Window) (area : Rect) (order : List Id) : Rect :=
  order.foldl (fun area id => cut (window id).dockedType area (window id).rect) area

variable {window window' : Id → Window} {order order' : List Id}

@[simp] theorem leaves_nil : leaves window a [] = a := rfl

@[simp] theorem leaves_cons {id : Id} : leaves window a (id :: order) =
    leaves window (cut (window id).dockedType a (window id).rect) order := rfl

theorem leaves_perm (h : order.Perm order') : leaves window a order = leaves window a order' :=
  h.foldl_eq' (fun _ _ _ _ _ => cut_comm) a

theorem inside_leaves : Inside (leaves window a order) a := by
  induction order generalizing a with
  | nil => exact .refl a
  | cons id order ih => exact ih.trans inside_cut

/-- **More is left** where each window takes no more. -/
theorem leaves_mono (h : ∀ id ∈ order, ∀ a, Inside (cut (window id).dockedType a (window id).rect)
      (cut (window' id).dockedType a (window' id).rect)) (hab : Inside a b) :
    Inside (leaves window a order) (leaves window' b order) := by
  induction order generalizing a b with
  | nil => exact hab
  | cons id order ih =>
    refine ih (fun id hid => h id (List.mem_cons_of_mem _ hid)) ?_
    exact (h id List.mem_cons_self a).trans hab.cut

/-- An area is clear of what the windows are apart from. -/
theorem clear_leaves {gone : Rect}
    (h : ∀ id ∈ order, Apart type gone (window id).dockedType (window id).rect)
    (ha : Clear type gone a) : Clear type gone (leaves window a order) := by
  induction order generalizing a with
  | nil => exact ha
  | cons id order ih =>
    exact ih (fun id hid => h id (List.mem_cons_of_mem _ hid)) (ha.cut (h id List.mem_cons_self))

/-- And where there are fewer. -/
theorem leaves_sublist (h : order'.Sublist order) (hab : Inside a b) :
    Inside (leaves window a order) (leaves window b order') := by
  induction h generalizing a b with
  | slnil => exact hab
  | cons id h ih => exact ih (inside_cut.trans hab)
  | cons_cons id h ih => exact ih hab.cut

/-- What is left once windows are laid. -/
theorem Laid.eq_leaves (h : Laid (fun id => (window id).rect) (fun id => (window id).dockedType)
    a order b) : b = leaves window a order := by
  induction h with
  | nil area => rfl
  | cons hstrip hrest ih => exact ih

/-- **Only floating windows move.** -/
structure Keeps (window window' : Id → Window) : Prop where
  moved : ∀ id, Moved (window id) (window' id)
  still : ∀ id, (window id).state ≠ .floating → window' id = window id

theorem Keeps.refl (window : Id → Window) : Keeps window window :=
  ⟨fun id => .refl (window id), fun _ _ => rfl⟩

variable [DecidableEq Id] {exclude : Option Id} {calls : ℕ} {s s' : Desktop Id}

/-- The windows that count for the window area. -/
def standing (screen : Screen Id) (exclude : Option Id) (window : Id → Window) : List Id :=
  screen.windows.filter fun id => some id ≠ exclude ∧ Stands (window id)

/-- **What the standing windows leave of the screen.** -/
def free (screen : Screen Id) (exclude : Option Id) (window : Id → Window) : Rect :=
  leaves window screen.totalArea (standing screen exclude window)

theorem mem_standing {id : Id} :
    id ∈ standing screen exclude window ↔ some id ≠ exclude ∧ Stands (window id) := by
  simp [standing, screen.mem_windows]

theorem free_eq_leaves (hnodup : order.Nodup)
    (hmem : ∀ id, id ∈ order ↔ some id ≠ exclude ∧ Stands (window id)) :
    free screen exclude window = leaves window screen.totalArea order := by
  refine leaves_perm ((List.perm_ext_iff_of_nodup ?_ hnodup).2 fun id => ?_)
  · exact screen.nodup.filter _
  · rw [mem_standing, hmem]

theorem inside_free : Inside (free screen exclude window) screen.totalArea :=
  inside_leaves

/-- **`windowArea` is what they leave.** -/
theorem windowAreaOf_eq : screen.windowAreaOf exclude window = normal (free screen exclude window) := by
  have hfold : ∀ (ids : List Id) (a : Rect), OnScreen screen a →
      ids.foldl (fun area id =>
        if some id = exclude then area
        else if (window id).isVisible ∧ (window id).state = .docked then
          screen.reserve area (window id)
        else area) (normal a) =
      normal (leaves window a (ids.filter fun id => some id ≠ exclude ∧ Stands (window id))) := by
    intro ids
    induction ids with
    | nil => exact fun _ _ => rfl
    | cons id ids ih =>
      intro a ha
      rw [List.foldl_cons, List.filter_cons]
      by_cases hexclude : some id = exclude
      · simp only [hexclude, if_true, ne_eq, not_true_eq_false, false_and, decide_false,
          Bool.false_eq_true, if_false]
        exact ih a ha
      · by_cases hdocked : (window id).isVisible ∧ (window id).state = .docked
        · rw [if_neg hexclude, if_pos hdocked, reserve_normal ha]
          have hinside : OnScreen screen (cut (window id).dockedType a (window id).rect) :=
            .of_inside (inside_cut.trans ha)
          rw [ih _ hinside]
          by_cases hfull : (window id).dockedType = .full
          · simp [Stands, hfull, cut]
          · simp [Stands, hfull, hexclude, hdocked]
        · rw [if_neg hexclude, if_neg hdocked]
          have hstands : ¬ Stands (window id) := fun h => hdocked ⟨h.1, h.2.1⟩
          simp only [hstands, and_false, decide_false, Bool.false_eq_true, if_false]
          exact ih a ha
  unfold Screen.windowAreaOf
  rw [← normal_totalArea]
  exact hfold screen.windows screen.totalArea (.of_inside (.refl _))

theorem inside_windowAreaOf : Inside (screen.windowAreaOf exclude window) screen.totalArea := by
  have hwidth := screen.width_nonneg
  have hheight := screen.height_nonneg
  obtain ⟨hx1, hx2, hy1, hy2⟩ := @inside_free Id screen window _ exclude
  rw [windowAreaOf_eq]
  simp only [Screen.totalArea, Inside, normal] at hx1 hx2 hy1 hy2 ⊢
  refine ⟨?_, ?_, ?_, ?_⟩ <;> split_ifs <;> omega

/-! ## Working it out -/

omit [DecidableEq Id] in
theorem Keeps.trans {window'' : Id → Window} (h : Keeps window window')
    (h' : Keeps window' window'') : Keeps window window'' := by
  refine ⟨fun id => (h.moved id).trans (h'.moved id), fun id hstill => ?_⟩
  have hstill' : (window' id).state ≠ .floating := by rwa [h.still id hstill]
  rw [h'.still id hstill', h.still id hstill]

theorem Keeps.update (h : Keeps window window') {id : Id} (hfloating : (window' id).state = .floating)
    (hmoved : Moved (window' id) w) : Keeps window (Function.update window' id w) := by
  have hstate := (h.moved id).state
  constructor
  · intro other
    by_cases hother : other = id
    · subst hother
      rw [Function.update_self]
      exact (h.moved other).trans hmoved
    · rw [Function.update_of_ne hother]
      exact h.moved other
  · intro other hstill
    by_cases hother : other = id
    · subst hother
      exact absurd (hstate ▸ hfloating) hstill
    · rw [Function.update_of_ne hother]
      exact h.still other hstill

theorem windowAreaOf_keeps (h : Keeps window window') :
    screen.windowAreaOf exclude window' = screen.windowAreaOf exclude window := by
  unfold Screen.windowAreaOf
  congr 1
  funext area id
  by_cases hstate : (window id).state = .floating
  · have hstate' : (window' id).state = .floating := by rw [(h.moved id).state, hstate]
    simp [hstate, hstate']
  · rw [h.still id hstate]

/-- **The rule of one call of `_update_window_area`**: what it keeps of a
window that it leaves alone, that it moves, and that it resizes. -/
theorem updateWindowArea_loop (J : List Id → Desktop Id → Prop)
    (hs : J [] { s with windowArea := screen.windowAreaOf exclude s.window })
    (hskip : ∀ past id t, J past t → (some id ≠ exclude → (t.window id).state ≠ .floating) →
      J (past ++ [id]) t)
    (hmove : ∀ past id t, J past t → some id ≠ exclude → (t.window id).state = .floating →
      (screen.refit t.windowArea (t.window id)).2 = false →
      J (past ++ [id]) (t.modify id fun w => (screen.refit t.windowArea w).1))
    (hresize : ∀ past id t t', J past t → some id ≠ exclude → (t.window id).state = .floating →
      (screen.refit t.windowArea (t.window id)).2 = true → screen.updateWindowArea calls none
        (t.modify id fun w => (screen.refit t.windowArea w).1) = some t' → J (past ++ [id]) t')
    (h : screen.updateWindowArea (calls + 1) exclude s = some s') : J screen.windows s' := by
  unfold Screen.updateWindowArea at h
  refine Library.foldlM_invariant J hs ?_ h
  intro past id rest t t' _ ht h
  split at h
  · rename_i hid
    cases h
    exact hskip past id t ht fun hne => absurd hid hne
  · rename_i hid
    split at h
    · rename_i hfloating
      unfold Desktop.change at h
      dsimp only at h
      split at h
      · rename_i hresized
        exact hresize past id t t' ht hid hfloating hresized h
      · rename_i hsame
        cases h
        exact hmove past id t ht hid hfloating (eq_false_of_ne_true hsame)
    · rename_i hfloating
      cases h
      exact hskip past id t ht fun _ => hfloating

/-- **The rule of `_update_window_area`**: what holds once the area is
worked out, and is kept as a floating window is fitted to it. -/
theorem updateWindowArea_invariant {P Q : Desktop Id → Prop} (hPQ : ∀ s, P s → Q s)
    (harea : ∀ s exclude', exclude' = exclude ∨ exclude' = none → Q s →
      P { s with windowArea := screen.windowAreaOf exclude' s.window })
    (hrefit : ∀ s id, P s → (s.window id).state = .floating →
      P (s.modify id fun w => (screen.refit s.windowArea w).1))
    (hs : Q s) (h : screen.updateWindowArea calls exclude s = some s') : P s' := by
  suffices hall : ∀ calls exclude' s s', exclude' = exclude ∨ exclude' = none → Q s →
      screen.updateWindowArea calls exclude' s = some s' → P s' from
    hall calls exclude s s' (.inl rfl) hs h
  intro calls
  induction calls with
  | zero =>
    intro exclude' s s' _ _ h
    cases h
  | succ calls ih =>
    intro exclude' s s' hexclude hs h
    refine updateWindowArea_loop (fun _ => P) (harea s exclude' hexclude hs) ?_ ?_ ?_ h
    · exact fun _ _ _ ht _ => ht
    · exact fun _ id t ht _ hfloating _ => hrefit t id ht hfloating
    · intro _ id t t' ht _ hfloating _ h
      exact ih none _ t' (.inr rfl) (hPQ _ (hrefit t id ht hfloating)) h

/-- **It moves only floating windows**, and the window area is that
without the window that is left out, or that of them all. -/
theorem updateWindowArea_spec (h : screen.updateWindowArea calls exclude s = some s') :
    Keeps s.window s'.window ∧ (s'.windowArea = screen.windowAreaOf exclude s.window ∨
      s'.windowArea = screen.windowAreaOf none s.window) := by
  refine updateWindowArea_invariant (Q := fun t => Keeps s.window t.window)
    (P := fun t => Keeps s.window t.window ∧ (t.windowArea = screen.windowAreaOf exclude s.window ∨
      t.windowArea = screen.windowAreaOf none s.window)) (fun _ => And.left) ?_ ?_ (.refl _) h
  · intro t exclude' hexclude ht
    refine ⟨ht, ?_⟩
    rcases hexclude with rfl | rfl
    · exact .inl (windowAreaOf_keeps ht)
    · exact .inr (windowAreaOf_keeps ht)
  · intro t id ht hfloating
    exact ⟨ht.1.update hfloating moved_refit, ht.2⟩

theorem updateWindowArea_none (h : screen.updateWindowArea calls none s = some s') :
    Keeps s.window s'.window ∧ s'.windowArea = screen.windowAreaOf none s'.window := by
  obtain ⟨hkeeps, harea⟩ := updateWindowArea_spec h
  rw [windowAreaOf_keeps hkeeps]
  exact ⟨hkeeps, harea.elim id id⟩

/-! ## What it leaves to fit -/

/-- **A window that is resized has them all fitted**, so in the end they
are, to whatever has room for the areas there were. -/
theorem fits_of_updateWindowArea
    (hexclude : (screen.windowAreaOf exclude s.window).width ≤ a.width ∧
      (screen.windowAreaOf exclude s.window).height ≤ a.height)
    (hnone : (screen.windowAreaOf none s.window).width ≤ a.width ∧
      (screen.windowAreaOf none s.window).height ≤ a.height)
    (h : screen.updateWindowArea calls exclude s = some s') (id : Id) (hid : some id ≠ exclude)
    (hfloating : (s.window id).state = .floating) : Fits a (s'.window id) := by
  induction calls generalizing exclude s s' id with
  | zero => cases h
  | succ calls ih =>
    refine (updateWindowArea_loop (fun past t => Keeps s.window t.window ∧
      (t.windowArea.width ≤ a.width ∧ t.windowArea.height ≤ a.height) ∧
      ∀ id ∈ past, some id ≠ exclude → (s.window id).state = .floating → Fits a (t.window id))
      ⟨.refl _, hexclude, fun id hid => absurd hid List.not_mem_nil⟩ ?_ ?_ ?_ h).2.2 id
      (screen.mem_windows id) hid hfloating
    · rintro past other t ⟨hkeeps, harea, hfits⟩ hother
      refine ⟨hkeeps, harea, fun id hid hexcluded hfloating => ?_⟩
      rcases List.mem_append.1 hid with hid | hid
      · exact hfits id hid hexcluded hfloating
      · obtain rfl := List.mem_singleton.1 hid
        exact absurd ((hkeeps.moved id).state.trans hfloating) (hother hexcluded)
    · rintro past other t ⟨hkeeps, harea, hfits⟩ - hother hsame
      refine ⟨hkeeps.update hother moved_refit, harea, fun id hid hexcluded hfloating => ?_⟩
      by_cases hne : id = other
      · -- It is not resized, so it fits.
        subst hne
        simp only [Desktop.modify, Function.update_self]
        exact (fits_refit hsame).2 ((refit_iff.1 hsame).mono harea.1 harea.2)
      · simp only [Desktop.modify, Function.update_of_ne hne]
        rcases List.mem_append.1 hid with hid | hid
        · exact hfits id hid hexcluded hfloating
        · exact absurd (List.mem_singleton.1 hid) hne
    · rintro past other t t' ⟨hkeeps, harea, hfits⟩ - hother - h
      have hkeeps' : Keeps s.window
          (t.modify other fun w => (screen.refit t.windowArea w).1).window :=
        hkeeps.update hother moved_refit
      rw [← windowAreaOf_keeps hkeeps'] at hnone
      obtain ⟨hcall, hcallArea⟩ := updateWindowArea_none h
      refine ⟨hkeeps'.trans hcall, ?_, fun id _ _ hfloating => ?_⟩
      · rw [hcallArea, windowAreaOf_keeps hcall]
        exact hnone
      · exact ih hnone hnone h id (by simp) ((hkeeps'.moved id).state.trans hfloating)

/-- **Where they all fit, none is resized**, and the window area is that
without the window that is left out. -/
theorem windowArea_of_fits
    (hfits : ∀ id, some id ≠ exclude → (s.window id).state = .floating →
      Fits (screen.windowAreaOf exclude s.window) (s.window id))
    (h : screen.updateWindowArea calls exclude s = some s') :
    s'.windowArea = screen.windowAreaOf exclude s.window := by
  cases calls with
  | zero => cases h
  | succ calls =>
    refine (updateWindowArea_loop (fun _ t =>
      t.windowArea = screen.windowAreaOf exclude s.window ∧
      ∀ id, some id ≠ exclude → (t.window id).state = .floating →
        Fits (screen.windowAreaOf exclude s.window) (t.window id)) ⟨rfl, hfits⟩ ?_ ?_ ?_ h).1
    · exact fun _ _ _ ht _ => ht
    · rintro _ other t ⟨harea, hfits⟩ hid hother hsame
      refine ⟨harea, fun id hexcluded hfloating => ?_⟩
      by_cases hne : id = other
      · subst hne
        simp only [Desktop.modify, Function.update_self]
        exact (fits_refit hsame).2 (hfits id hid hother)
      · simp only [Desktop.modify, Function.update_of_ne hne] at hfloating ⊢
        exact hfits id hexcluded hfloating
    · rintro _ other t t' ⟨harea, hfits⟩ hid hother hresized -
      rw [harea, refit_iff.2 (hfits other hid hother)] at hresized
      cases hresized

end DesktopManager

end Uberos
