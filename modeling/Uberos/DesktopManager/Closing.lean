import Uberos.DesktopManager.Area
/-!
# Closing up

`_disable_docked_window` takes the docked windows one by one to where they
go without the one that is gone, which it looks at anew for each. A window
that grows has the window area worked out in between, so this rests on the
one that is gone staying where it was.
-/

namespace Uberos

namespace DesktopManager

variable {Id : Type} [DecidableEq Id] {screen : Screen Id} {calls : ℕ} {s s' : Desktop Id} {id : Id}
variable {gone w : Window} {a : Rect}

/-! ## One by one -/

/-- **The rule of `_disable_docked_window`**: what it keeps of a window
that is not docked, of one it moves, and of one it resizes. -/
theorem disableDockedWindow_loop (J : List Id → Desktop Id → Prop) (hs : J [] s)
    (hskip : ∀ past other t, J past t → (t.window other).state ≠ .docked → J (past ++ [other]) t)
    (hmove : ∀ past other t, J past t → other ∉ past → (t.window other).state = .docked →
      (screen.closeUp (t.window id) (t.window other)).2 = false →
      J (past ++ [other]) (t.modify other fun w => (screen.closeUp (t.window id) w).1))
    (hresize : ∀ past other t t', J past t → other ∉ past → (t.window other).state = .docked →
      (screen.closeUp (t.window id) (t.window other)).2 = true →
      screen.updateWindowArea calls none
        (t.modify other fun w => (screen.closeUp (t.window id) w).1) = some t' →
      J (past ++ [other]) t')
    (h : screen.disableDockedWindow calls id s = some s') :
    ∃ t, J screen.windows t ∧ screen.updateWindowArea calls (some id) t = some s' := by
  unfold Screen.disableDockedWindow at h
  obtain ⟨t, hloop, harea⟩ := Option.bind_eq_some_iff.1 h
  refine ⟨t, Library.foldlM_invariant J hs ?_ hloop, harea⟩
  intro past other rest t t' hwindows ht h
  have hnew : other ∉ past := by
    have hnodup := screen.nodup
    rw [hwindows, List.nodup_append] at hnodup
    exact fun hpast => hnodup.2.2 other hpast other List.mem_cons_self rfl
  split at h
  · rename_i hdocked
    unfold Desktop.change at h
    dsimp only at h
    split at h
    · rename_i hresized
      exact hresize past other t t' ht hnew hdocked hresized h
    · rename_i hsame
      cases h
      exact hmove past other t ht hnew hdocked (eq_false_of_ne_true hsame)
  · rename_i hdocked
    cases h
    exact hskip past other t ht hdocked

/-- **Some have closed up, and the others have not.** -/
structure Midway (screen : Screen Id) (id : Id) (s : Desktop Id) (past : List Id) (t : Desktop Id) :
    Prop where
  moved : ∀ other, Moved (s.window other) (t.window other)
  closed : ∀ other ∈ past, (s.window other).state = .docked →
    t.window other = (screen.closeUp (s.window id) (s.window other)).1
  waiting : ∀ other ∉ past, (s.window other).state = .docked → t.window other = s.window other
  minimised : ∀ other, (s.window other).state = .minimised → t.window other = s.window other
  edges : SameEdges (s.window id) (t.window id)

variable {past : List Id} {t t' : Desktop Id}

omit [DecidableEq Id] in
theorem Midway.state (h : Midway screen id s past t) (other : Id) :
    (t.window other).state = (s.window other).state :=
  (h.moved other).state

omit [DecidableEq Id] in
/-- The window that is gone is asked for what it was asked for at first. -/
theorem Midway.closeUp (h : Midway screen id s past t) (w : Window) :
    screen.closeUp (t.window id) w = screen.closeUp (s.window id) w :=
  closeUp_congr h.edges

omit [DecidableEq Id] in
theorem Midway.skip (h : Midway screen id s past t) {other : Id}
    (hdocked : (s.window other).state ≠ .docked) : Midway screen id s (past ++ [other]) t where
  moved := h.moved
  closed j hj hstate := by
    rcases List.mem_append.1 hj with hj | hj
    · exact h.closed j hj hstate
    · exact absurd (List.mem_singleton.1 hj ▸ hstate) hdocked
  waiting j hj := h.waiting j fun hpast => hj (List.mem_append_left _ hpast)
  minimised := h.minimised
  edges := h.edges

/-- One more closes up. -/
theorem Midway.step (h : Midway screen id s past t)
    (hself : (s.window id).state = .docked → ¬ IsBehind (s.window id) (s.window id)) {other : Id}
    (hnew : other ∉ past) (hdocked : (s.window other).state = .docked) :
    Midway screen id s (past ++ [other])
      (t.modify other fun w => (screen.closeUp (t.window id) w).1) := by
  have hother : (t.modify other fun w => (screen.closeUp (t.window id) w).1).window other =
      (screen.closeUp (s.window id) (s.window other)).1 := by
    simp only [Desktop.modify, Function.update_self]
    rw [h.closeUp, h.waiting other hnew hdocked]
  have hrest : ∀ j, j ≠ other →
      (t.modify other fun w => (screen.closeUp (t.window id) w).1).window j = t.window j :=
    fun j hj => Function.update_of_ne hj _ _
  constructor
  · intro j
    by_cases hj : j = other
    · rw [hj, hother]
      exact moved_closeUp
    · rw [hrest j hj]
      exact h.moved j
  · intro j hpast hstate
    by_cases hj : j = other
    · rw [hj, hother]
    · rw [hrest j hj]
      refine h.closed j ?_ hstate
      rcases List.mem_append.1 hpast with hpast | hpast
      · exact hpast
      · exact absurd (List.mem_singleton.1 hpast) hj
  · intro j hpast hstate
    rw [List.mem_append, not_or, List.mem_singleton] at hpast
    rw [hrest j hpast.2]
    exact h.waiting j hpast.1 hstate
  · intro j hstate
    have hj : j ≠ other := by
      rintro rfl
      rw [hdocked] at hstate
      cases hstate
    rw [hrest j hj]
    exact h.minimised j hstate
  · by_cases hid : id = other
    · -- It is not behind itself.
      subst hid
      rw [hother, closeUp_of_not_behind (hself hdocked)]
      exact .refl _
    · rw [hrest id hid]
      exact h.edges

omit [DecidableEq Id] in
theorem Midway.keeps (h : Midway screen id s past t) (hkeeps : Keeps t.window t'.window)
    (hedges : SameEdges (s.window id) (t'.window id)) : Midway screen id s past t' where
  moved other := (h.moved other).trans (hkeeps.moved other)
  closed other hpast hdocked := by
    have hstill : (t.window other).state ≠ .floating := by rw [h.state, hdocked]; decide
    rw [hkeeps.still other hstill, h.closed other hpast hdocked]
  waiting other hpast hdocked := by
    have hstill : (t.window other).state ≠ .floating := by rw [h.state, hdocked]; decide
    rw [hkeeps.still other hstill, h.waiting other hpast hdocked]
  minimised other hminimised := by
    have hstill : (t.window other).state ≠ .floating := by rw [h.state, hminimised]; decide
    rw [hkeeps.still other hstill, h.minimised other hminimised]
  edges := hedges

omit [DecidableEq Id] in
theorem midway_start : Midway screen id s [] s where
  moved _ := .refl _
  closed _ hpast := absurd hpast List.not_mem_nil
  waiting _ _ _ := rfl
  minimised _ _ := rfl
  edges := .refl _

/-- Something is resized as a window goes. -/
def Resizes (screen : Screen Id) (id : Id) (s : Desktop Id) : Prop :=
  ∃ other, (s.window other).state = .docked ∧
    (screen.closeUp (s.window id) (s.window other)).2 = true

/-- What the window area being worked out in between must not do. -/
def Stable (screen : Screen Id) (calls : ℕ) (id : Id) (s : Desktop Id) : Prop :=
  (s.window id).state = .docked ∧ ¬ IsBehind (s.window id) (s.window id) ∨
    (s.window id).state ≠ .docked ∧ ∀ past t t', Resizes screen id s → Midway screen id s past t →
      screen.updateWindowArea calls none t = some t' → SameEdges (s.window id) (t'.window id)

theorem Stable.self (h : Stable screen calls id s) (hdocked : (s.window id).state = .docked) :
    ¬ IsBehind (s.window id) (s.window id) := by
  rcases h with ⟨-, hself⟩ | ⟨hne, -⟩
  · exact hself
  · exact absurd hdocked hne

theorem Stable.edges (h : Stable screen calls id s) (hresizes : Resizes screen id s)
    (hmidway : Midway screen id s past t) (hcall : screen.updateWindowArea calls none t = some t') :
    SameEdges (s.window id) (t'.window id) := by
  rcases h with ⟨hdocked, -⟩ | ⟨-, hedges⟩
  · have hstill : (t.window id).state ≠ .floating := by rw [hmidway.state, hdocked]; decide
    rw [(updateWindowArea_none hcall).1.still id hstill]
    exact hmidway.edges
  · exact hedges past t t' hresizes hmidway hcall

/-- **The same rule, with all of them closing up**, if the one that is
gone stays. -/
theorem disableDockedWindow_midway (K : List Id → Desktop Id → Prop)
    (hstable : Stable screen calls id s)
    (h : screen.disableDockedWindow calls id s = some s') (hs : K [] s)
    (hskip : ∀ past other t, K past t → (s.window other).state ≠ .docked → K (past ++ [other]) t)
    (hmove : ∀ past other t w, K past t → (s.window other).state = .docked →
      (screen.closeUp (s.window id) (s.window other)).2 = false → Midway screen id s past t →
      K (past ++ [other]) (t.modify other fun _ => w))
    (hresize : ∀ past other t t', Midway screen id s (past ++ [other]) t →
      screen.updateWindowArea calls none t = some t' → K (past ++ [other]) t') :
    ∃ t, (Midway screen id s screen.windows t ∧ K screen.windows t) ∧
      screen.updateWindowArea calls (some id) t = some s' := by
  refine disableDockedWindow_loop (fun past t => Midway screen id s past t ∧ K past t)
    ⟨midway_start, hs⟩ ?_ ?_ ?_ h
  · rintro past other t ⟨hmidway, ht⟩ hdocked
    rw [hmidway.state] at hdocked
    exact ⟨hmidway.skip hdocked, hskip past other t ht hdocked⟩
  · rintro past other t ⟨hmidway, ht⟩ hnew hdocked hsame
    rw [hmidway.state] at hdocked
    rw [hmidway.closeUp, hmidway.waiting other hnew hdocked] at hsame
    exact ⟨hmidway.step hstable.self hnew hdocked, hmove past other t _ ht hdocked hsame hmidway⟩
  · rintro past other t t' ⟨hmidway, ht⟩ hnew hdocked hresized hcall
    rw [hmidway.state] at hdocked
    rw [hmidway.closeUp, hmidway.waiting other hnew hdocked] at hresized
    have hstep := hmidway.step hstable.self hnew hdocked
    have hedges := hstable.edges ⟨other, hdocked, hresized⟩ hstep hcall
    exact ⟨hstep.keeps (updateWindowArea_none hcall).1 hedges, hresize past other _ t' hstep hcall⟩

/-- **All of them close up.** -/
theorem disableDockedWindow_spec (hstable : Stable screen calls id s)
    (h : screen.disableDockedWindow calls id s = some s') :
    ∃ t, Midway screen id s screen.windows t ∧
      screen.updateWindowArea calls (some id) t = some s' := by
  obtain ⟨t, ⟨hmidway, -⟩, hcall⟩ := disableDockedWindow_midway (fun _ _ => True) hstable h trivial
    (fun _ _ _ _ _ => trivial) (fun _ _ _ _ _ _ _ _ => trivial) fun _ _ _ _ _ _ => trivial
  exact ⟨t, hmidway, hcall⟩

/-- The floating windows fit an area, if they did at first or one of the
windows gone through has been resized. -/
def Fitted (screen : Screen Id) (id : Id) (s : Desktop Id) (a : Rect) (past : List Id)
    (t : Desktop Id) : Prop :=
  ((∀ other, (s.window other).state = .floating → Fits a (s.window other)) ∨
      ∃ other ∈ past, (s.window other).state = .docked ∧
        (screen.closeUp (s.window id) (s.window other)).2 = true) →
    ∀ other, (s.window other).state = .floating → Fits a (t.window other)

omit [DecidableEq Id] in
theorem fitted_start : Fitted screen id s a [] s := by
  rintro (hfits | ⟨other, hpast, -⟩)
  · exact hfits
  · exact absurd hpast List.not_mem_nil

omit [DecidableEq Id] in
/-- One that is not resized makes no difference. -/
theorem Fitted.append (h : Fitted screen id s a past t) {other : Id}
    (hsame : (s.window other).state = .docked →
      (screen.closeUp (s.window id) (s.window other)).2 = false)
    (hkept : ∀ j, (s.window j).state = .floating → t'.window j = t.window j) :
    Fitted screen id s a (past ++ [other]) t' := by
  intro hfits j hfloating
  rw [hkept j hfloating]
  refine h (hfits.imp_right ?_) j hfloating
  rintro ⟨k, hk, hdocked, hresized⟩
  rcases List.mem_append.1 hk with hk | hk
  · exact ⟨k, hk, hdocked, hresized⟩
  · obtain rfl := List.mem_singleton.1 hk
    rw [hsame hdocked] at hresized
    cases hresized

/-- **The floating windows then fit** whatever has room for the areas
there were, if they did before or something has been resized. -/
theorem disableDockedWindow_fits (hstable : Stable screen calls id s)
    (hroom : ∀ past t, Midway screen id s past t →
      (screen.windowAreaOf none t.window).width ≤ a.width ∧
        (screen.windowAreaOf none t.window).height ≤ a.height)
    (hfits : (∀ other, (s.window other).state = .floating → Fits a (s.window other)) ∨
      Resizes screen id s)
    (h : screen.disableDockedWindow calls id s = some s') :
    ∃ t, (Midway screen id s screen.windows t ∧
        ∀ other, (s.window other).state = .floating → Fits a (t.window other)) ∧
      screen.updateWindowArea calls (some id) t = some s' := by
  have hskip : ∀ past other t, Fitted screen id s a past t → (s.window other).state ≠ .docked →
      Fitted screen id s a (past ++ [other]) t :=
    fun _ _ _ ht hdocked => ht.append (fun hstate => absurd hstate hdocked) fun _ _ => rfl
  have hmove : ∀ past other t w, Fitted screen id s a past t → (s.window other).state = .docked →
      (screen.closeUp (s.window id) (s.window other)).2 = false → Midway screen id s past t →
      Fitted screen id s a (past ++ [other]) (t.modify other fun _ => w) := by
    intro past other t w ht hdocked hsame _
    refine ht.append (fun _ => hsame) fun j hfloating => Function.update_of_ne ?_ _ _
    rintro rfl
    rw [hdocked] at hfloating
    cases hfloating
  have hresize : ∀ past other t t', Midway screen id s (past ++ [other]) t →
      screen.updateWindowArea calls none t = some t' →
      Fitted screen id s a (past ++ [other]) t' := by
    intro past other t t' hmidway hcall _ j hfloating
    have hroom := hroom _ t hmidway
    exact fits_of_updateWindowArea hroom hroom hcall j (by simp) ((hmidway.state j).trans hfloating)
  obtain ⟨t, ⟨hmidway, ht⟩, hcall⟩ := disableDockedWindow_midway (Fitted screen id s a) hstable h
    fitted_start hskip hmove hresize
  refine ⟨t, ⟨hmidway, ht (hfits.imp_right ?_)⟩, hcall⟩
  rintro ⟨other, hresizes⟩
  exact ⟨other, screen.mem_windows other, hresizes⟩

/-! ## A floating window that is gone -/

section Edges

variable {x y width height : ℤ}

omit [DecidableEq Id]

theorem acrossX_moveAndResizeDisplay (hle : 16 ≤ w.width) (hx : a.x1 = w.x)
    (hwidth : a.width = w.width) : (w.moveAndResizeDisplay a).getX = w.getX ∧
      (w.moveAndResizeDisplay a).getWidth = w.getWidth := by
  have hmax : max 16 w.width = w.width := by omega
  unfold Window.moveAndResizeDisplay Window.resizeDisplay
  rw [hx, hwidth, hmax]
  split
  · exact ⟨rfl, rfl⟩
  · split <;> exact ⟨rfl, rfl⟩

theorem getX_moveTo (hle : 16 ≤ w.getWidth)
    (hscreen : 0 ≤ w.getX ∧ w.getX + w.getWidth ≤ screen.width) :
    (w.moveTo screen w.getX y).getX = w.getX := by
  unfold Window.moveTo clamp
  dsimp only
  split
  · rfl
  · simp only [Window.getX, Window.getWidth] at hscreen hle ⊢
    omega

/-- A window stays where it is from left to right, whatever else is asked
of it. -/
theorem acrossX_moveAndResizeTo (hle : 16 ≤ w.getWidth) (hclamp : w.clampWidth w.getWidth = w.getWidth)
    (hscreen : 0 ≤ w.getX ∧ w.getX + w.getWidth ≤ screen.width) :
    (w.moveAndResizeTo screen w.getX y w.getWidth height).1.getX = w.getX ∧
      (w.moveAndResizeTo screen w.getX y w.getWidth height).1.getWidth = w.getWidth := by
  have hdisplay : 16 ≤ w.width := by
    simp only [Window.getWidth] at hle
    omega
  have hclamp : ({ w with isAutomaticPlacement := false } : Window).clampWidth w.getWidth =
      w.getWidth := hclamp
  unfold Window.moveAndResizeTo
  dsimp only
  rw [hclamp]
  split
  · exact ⟨getX_moveTo hle hscreen, size_moveTo.1⟩
  · refine acrossX_moveAndResizeDisplay hdisplay ?_ ?_
    · simp only [Window.getX]
      omega
    · simp only [Window.getWidth, Rect.width]
      omega

theorem acrossY_moveAndResizeDisplay (hle : 16 ≤ w.height) (hy : a.y1 = w.y)
    (hheight : a.height = w.height) : (w.moveAndResizeDisplay a).getY = w.getY ∧
      (w.moveAndResizeDisplay a).getHeight = w.getHeight := by
  have hmax : max 16 w.height = w.height := by omega
  unfold Window.moveAndResizeDisplay Window.resizeDisplay
  rw [hy, hheight, hmax]
  split
  · exact ⟨rfl, rfl⟩
  · split <;> exact ⟨rfl, rfl⟩

theorem getY_moveTo (hle : 16 ≤ w.getHeight)
    (hscreen : 0 ≤ w.getY ∧ w.getY + w.getHeight ≤ screen.height) :
    (w.moveTo screen x w.getY).getY = w.getY := by
  unfold Window.moveTo clamp
  dsimp only
  split
  · rfl
  · simp only [Window.getY, Window.getHeight] at hscreen hle ⊢
    omega

/-- A window stays where it is from top to bottom, whatever else is asked
of it. -/
theorem acrossY_moveAndResizeTo (hle : 16 ≤ w.getHeight)
    (hclamp : w.clampHeight w.getHeight = w.getHeight)
    (hscreen : 0 ≤ w.getY ∧ w.getY + w.getHeight ≤ screen.height) :
    (w.moveAndResizeTo screen x w.getY width w.getHeight).1.getY = w.getY ∧
      (w.moveAndResizeTo screen x w.getY width w.getHeight).1.getHeight = w.getHeight := by
  have hdisplay : 16 ≤ w.height := by
    simp only [Window.getHeight] at hle
    omega
  have hclamp : ({ w with isAutomaticPlacement := false } : Window).clampHeight w.getHeight =
      w.getHeight := hclamp
  unfold Window.moveAndResizeTo
  dsimp only
  rw [hclamp]
  split
  · exact ⟨getY_moveTo hle hscreen, size_moveTo.2⟩
  · refine acrossY_moveAndResizeDisplay hdisplay ?_ ?_
    · simp only [Window.getY]
      omega
    · simp only [Window.getHeight, Rect.height]
      omega

/-- A side that is within the window area is given to it again. -/
theorem fitAxis_eq {lo hi x1 x2 : ℤ} (hlo : lo ≤ x1) (hhi : x2 ≤ hi) :
    Screen.fitAxis lo hi x1 x2 = (x1, x2) := by
  unfold Screen.fitAxis
  dsimp only
  split
  · rw [Prod.mk.injEq]
    omega
  · rw [if_neg (by omega), if_neg (by omega)]

/-- **A window that is within the window area across its side** keeps its
edges there. -/
theorem SameEdges.refit (hedges : SameEdges gone w) (hmoved : Moved gone w) (hroomy : Roomy gone)
    (hscreen : OnScreen screen gone.rect) (hclear : Clear gone.dockedType gone.rect a) :
    SameEdges gone (screen.refit a w).1 := by
  refine ⟨moved_refit.dockedType.trans hedges.dockedType, fun hside => ?_, fun hside => ?_⟩
  · obtain ⟨hx, hwidth⟩ := hedges.acrossX hside
    have hends : w.rect.x1 = gone.rect.x1 ∧ w.rect.x2 = gone.rect.x2 := by
      simp only [Window.rect, hx, hwidth, and_self]
    have hsize : gone.rect.x2 - gone.rect.x1 = w.getWidth := by
      simp only [Window.rect, hwidth]
      omega
    have hclear' : a.x1 ≤ gone.rect.x1 ∧ gone.rect.x2 ≤ a.x2 := by
      rcases hside with htype | htype <;> rwa [htype] at hclear
    have hfit := fitAxis_eq hclear'.1 hclear'.2
    unfold Screen.refit Screen.fit
    dsimp only [Rect.width, Rect.height]
    rw [hends.1, hends.2, hfit]
    dsimp only
    rw [hsize, ← hx, ← hwidth, ← hends.1]
    refine acrossX_moveAndResizeTo ?_ ?_ ?_
    · rw [hwidth]
      exact hroomy.le_width
    · rw [hmoved.clampWidth, hwidth]
      exact hroomy.clampWidth
    · rw [hx, hwidth]
      exact ⟨hscreen.1, hscreen.2.1⟩
  · obtain ⟨hy, hheight⟩ := hedges.acrossY hside
    have hends : w.rect.y1 = gone.rect.y1 ∧ w.rect.y2 = gone.rect.y2 := by
      simp only [Window.rect, hy, hheight, and_self]
    have hsize : gone.rect.y2 - gone.rect.y1 = w.getHeight := by
      simp only [Window.rect, hheight]
      omega
    have hclear' : a.y1 ≤ gone.rect.y1 ∧ gone.rect.y2 ≤ a.y2 := by
      rcases hside with htype | htype <;> rwa [htype] at hclear
    have hfit := fitAxis_eq hclear'.1 hclear'.2
    unfold Screen.refit Screen.fit
    dsimp only [Rect.width, Rect.height]
    rw [hends.1, hends.2, hfit]
    dsimp only
    rw [hsize, ← hy, ← hheight, ← hends.1]
    refine acrossY_moveAndResizeTo ?_ ?_ ?_
    · rw [hheight]
      exact hroomy.le_height
    · rw [hmoved.clampHeight, hheight]
      exact hroomy.clampHeight
    · rw [hy, hheight]
      exact ⟨hscreen.2.2.1, hscreen.2.2.2⟩

end Edges

/-- **So it does while the window area is worked out.** -/
theorem SameEdges.updateWindowArea (hedges : SameEdges gone (t.window id))
    (hmoved : Moved gone (t.window id)) (hroomy : Roomy gone) (hscreen : OnScreen screen gone.rect)
    (hclear : Clear gone.dockedType gone.rect (screen.windowAreaOf none t.window))
    (h : screen.updateWindowArea calls none t = some t') : SameEdges gone (t'.window id) := by
  refine (updateWindowArea_invariant
    (Q := fun u => Keeps t.window u.window ∧ SameEdges gone (u.window id))
    (P := fun u => (Keeps t.window u.window ∧ SameEdges gone (u.window id)) ∧
      u.windowArea = screen.windowAreaOf none t.window) (fun _ => And.left) ?_ ?_
    ⟨.refl _, hedges⟩ h).1.2
  · rintro u exclude' hexclude ⟨hkeeps, hu⟩
    have hnone : exclude' = none := hexclude.elim (fun h => h) fun h => h
    subst hnone
    exact ⟨⟨hkeeps, hu⟩, windowAreaOf_keeps hkeeps⟩
  · rintro u other ⟨⟨hkeeps, hu⟩, harea⟩ hfloating
    refine ⟨⟨hkeeps.update hfloating moved_refit, ?_⟩, harea⟩
    by_cases hid : id = other
    · subst hid
      simp only [Desktop.modify, Function.update_self]
      rw [harea]
      exact hu.refit (hmoved.trans (hkeeps.moved id)) hroomy hscreen hclear
    · simp only [Desktop.modify, Function.update_of_ne hid]
      exact hu

end DesktopManager

end Uberos
