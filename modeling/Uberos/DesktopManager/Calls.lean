import Uberos.DesktopManager.Updates
/-!
# Which calls end

`resize_to`, `move_and_resize_to`, `dock` and `restore` change one window
after another, and each that is resized has the floating windows fitted
before the next. Such a call ends exactly when every update of the window
area that it comes to begins where no window is stuck. That is always so
of windows whose smallest size, their margins with it, is sixteen pixels
or more; a window that is to be smaller than that calls itself for ever.
-/

namespace Uberos

namespace DesktopManager

variable {Id : Type} [DecidableEq Id]

/-! ## What a call does -/

/-- A part of a call: a change, and where `_update_window_area` follows,
the window that it leaves out. -/
abbrev Stage (Id : Type) := Desktop Id → Desktop Id × Option (Option Id)

namespace Stage

/-- With so many calls. -/
def run (screen : Screen Id) (stage : Stage Id) : Library.Counted (Desktop Id) := fun calls s =>
  match stage s with
  | (t, none) => some t
  | (t, some exclude) => screen.updateWindowArea calls exclude t

/-- A window changes, and may be resized. -/
def change (id : Id) (f : Desktop Id → Window → Window × Bool) : Stage Id := fun s =>
  (s.modify id fun w => (f s w).1, if (f s (s.window id)).2 then some none else none)

/-- A window changes otherwise. -/
def modify (id : Id) (f : Window → Window) : Stage Id := fun s => (s.modify id f, none)

/-- `_update_window_area` itself. -/
def update (exclude : Option Id) : Stage Id := fun s => (s, some exclude)

/-- A docked window closes up where one is gone. -/
def closeUp (screen : Screen Id) (id other : Id) : Stage Id := fun s =>
  if (s.window other).state = .docked then
    change other (fun s => screen.closeUp (s.window id)) s
  else (s, none)

/-- `_disable_docked_window`. -/
def closing (screen : Screen Id) (id : Id) : List (Stage Id) :=
  screen.windows.map (closeUp screen id) ++ [update (some id)]

/-- A window is docked, whatever it was. -/
def docking (screen : Screen Id) (id : Id) (type : DockedType) : List (Stage Id) :=
  [modify id fun w => { w with state := .docked, dockedType := type },
    change id fun s => screen.moveToDock s.windowArea type,
    update none]

/-- `dock`. -/
def dock (screen : Screen Id) (id : Id) (type : DockedType) (s : Desktop Id) : List (Stage Id) :=
  if (s.window id).state = .docked ∧ (s.window id).dockedType = type then []
  else
    match (s.window id).state with
    | .docked => closing screen id ++ docking screen id type
    | .floating =>
      modify id (fun w => { w with defaultFloatingRect := w.rect }) :: docking screen id type
    | .minimised =>
      modify id (fun w => { w with isVisible := true, defaultFloatingRect := w.rect }) ::
        docking screen id type

/-- `restore`. -/
def restore (screen : Screen Id) (id : Id) (s : Desktop Id) : List (Stage Id) :=
  match (s.window id).state with
  | .docked =>
    modify id (fun w => { w with state := .floating }) ::
      (closing screen id ++ [change id fun _ => screen.moveToFloat])
  | .floating => []
  | .minimised => [modify id fun w => { w with state := .floating, isVisible := true }]

end Stage

/-- A call. -/
inductive Call (Id : Type)
  | resizeTo (id : Id) (width height : ℤ)
  | moveAndResizeTo (id : Id) (x y width height : ℤ)
  | dock (id : Id) (type : DockedType)
  | restore (id : Id)
  deriving DecidableEq, Repr

namespace Call

/-- With so many calls of `_update_window_area`, one in another. -/
def run (screen : Screen Id) : Call Id → Library.Counted (Desktop Id)
  | .resizeTo id width height, calls, s =>
    s.change (screen.updateWindowArea calls none) id fun w => w.resizeTo width height
  | .moveAndResizeTo id x y width height, calls, s =>
    s.change (screen.updateWindowArea calls none) id fun w =>
      w.moveAndResizeTo screen x y width height
  | .dock id type, calls, s => screen.dock calls id type s
  | .restore id, calls, s => screen.restore calls id s

/-- Its parts. -/
def stages (screen : Screen Id) : Call Id → Desktop Id → List (Stage Id)
  | .resizeTo id width height, _ => [Stage.change id fun _ w => w.resizeTo width height]
  | .moveAndResizeTo id x y width height, _ =>
    [Stage.change id fun _ w => w.moveAndResizeTo screen x y width height]
  | .dock id type, s => Stage.dock screen id type s
  | .restore id, s => Stage.restore screen id s

end Call

variable {screen : Screen Id} {call : Call Id} {calls : ℕ} {s s' t : Desktop Id} {id : Id}
variable {exclude : Option Id} {stage : Stage Id} {stages : List (Stage Id)}

theorem run_change {f : Desktop Id → Window → Window × Bool} : (Stage.change id f).run screen calls s =
    s.change (screen.updateWindowArea calls none) id (f s) := by
  unfold Stage.run Stage.change Desktop.change
  cases (f s (s.window id)).2 <;> rfl

theorem run_closeUp {other : Id} : (Stage.closeUp screen id other).run screen calls s =
    if (s.window other).state = .docked then
      s.change (screen.updateWindowArea calls none) other (screen.closeUp (s.window id))
    else some s := by
  unfold Stage.run Stage.closeUp
  split_ifs with hdocked
  · exact run_change
  · rfl

theorem run_closing : Library.inTurn (Stage.run screen) (Stage.closing screen id) calls s =
    screen.disableDockedWindow calls id s := by
  unfold Stage.closing Screen.disableDockedWindow
  rw [Library.inTurn_append, Library.inTurn_singleton]
  refine congrArg (· >>= screen.updateWindowArea calls (some id)) ?_
  unfold Library.inTurn
  rw [List.foldlM_map]
  simp only [run_closeUp]

theorem run_docking {type : DockedType} :
    Library.inTurn (Stage.run screen) (Stage.docking screen id type) calls s = (do
      let s := s.modify id fun w => { w with state := .docked, dockedType := type }
      let s ← s.change (screen.updateWindowArea calls none) id (screen.moveToDock s.windowArea type)
      screen.enableDockedWindow calls s) := by
  unfold Stage.docking
  rw [Library.inTurn_cons]
  refine (Option.bind_some _ _).trans ?_
  rw [Library.inTurn_cons, run_change, Library.inTurn_singleton]
  rfl

theorem run_dock {type : DockedType} :
    Library.inTurn (Stage.run screen) (Stage.dock screen id type s) calls s =
      screen.dock calls id type s := by
  have hdocking : Library.inTurn (Stage.run screen) (Stage.docking screen id type) calls = _ :=
    funext fun _ => run_docking
  unfold Stage.dock Screen.dock
  split_ifs
  · rfl
  · cases (s.window id).state with
    | docked =>
      dsimp only
      rw [Library.inTurn_append, run_closing, hdocking]
    | floating =>
      dsimp only
      rw [Library.inTurn_cons, hdocking]
      rfl
    | minimised =>
      dsimp only
      rw [Library.inTurn_cons, hdocking]
      rfl

theorem run_restore :
    Library.inTurn (Stage.run screen) (Stage.restore screen id s) calls s =
      screen.restore calls id s := by
  unfold Stage.restore Screen.restore
  cases (s.window id).state with
  | docked =>
    dsimp only
    rw [Library.inTurn_cons]
    refine (Option.bind_some _ _).trans ?_
    rw [Library.inTurn_append, run_closing, Library.inTurn_singleton]
    exact bind_congr fun t => run_change
  | floating => rfl
  | minimised => rfl

/-- **It is what its parts do in turn.** -/
theorem run_eq_inTurn :
    call.run screen calls s = Library.inTurn (Stage.run screen) (call.stages screen s) calls s := by
  cases call with
  | resizeTo id width height =>
    unfold Call.stages
    rw [Library.inTurn_singleton, run_change]
    rfl
  | moveAndResizeTo id x y width height =>
    unfold Call.stages
    rw [Library.inTurn_singleton, run_change]
    rfl
  | dock id type => exact run_dock.symm
  | restore id => exact run_restore.symm

/-! ## Which end -/

theorem grows_stage : Library.Grows (stage.run screen) := by
  intro calls calls' s s' hcalls h
  unfold Stage.run at h ⊢
  split at h
  · exact h
  · exact grows_updateWindowArea hcalls h

/-- A part ends exactly when what follows its change is safe. -/
theorem ends_stage : Library.Ends (stage.run screen) s ↔
    ∀ exclude t, stage s = (t, some exclude) → Safe screen exclude t := by
  constructor
  · rintro ⟨calls, s', h⟩ exclude t hstage
    unfold Stage.run at h
    rw [hstage] at h
    exact ends_updateWindowArea.1 ⟨calls, s', h⟩
  · intro hsafe
    unfold Library.Ends Stage.run
    generalize hstage : stage s = result at hsafe ⊢
    obtain ⟨t, exclude⟩ := result
    cases exclude with
    | none => exact ⟨0, t, rfl⟩
    | some exclude => exact ends_updateWindowArea.2 (hsafe exclude t rfl)

/-- **An update of the window area that is come to**, in a state and with
a window left out. -/
def Begins (screen : Screen Id) (stages : List (Stage Id)) (s : Desktop Id)
    (exclude : Option Id) (t : Desktop Id) : Prop :=
  ∃ past stage rest s', stages = past ++ stage :: rest ∧
    Library.Yields (Library.inTurn (Stage.run screen) past) s s' ∧ stage s' = (t, some exclude)

theorem ends_stages : Library.Ends (Library.inTurn (Stage.run screen) stages) s ↔
    ∀ exclude t, Begins screen stages s exclude t → Safe screen exclude t := by
  rw [Library.ends_inTurn_iff fun _ => grows_stage]
  constructor
  · rintro hends exclude t ⟨past, stage, rest, s', heq, hpast, hstage⟩
    exact ends_stage.1 (hends past stage rest s' heq hpast) exclude t hstage
  · intro hsafe past stage rest s' heq hpast
    refine ends_stage.2 fun exclude t hstage => ?_
    exact hsafe exclude t ⟨past, stage, rest, s', heq, hpast, hstage⟩

theorem ends_run : Library.Ends (call.run screen) s ↔
    Library.Ends (Library.inTurn (Stage.run screen) (call.stages screen s)) s := by
  unfold Library.Ends
  simp only [run_eq_inTurn]

/-- **A call ends exactly when every update it comes to is safe.** -/
theorem call_ends_iff (screen : Screen Id) (call : Call Id) (s : Desktop Id) :
    (∃ calls s', call.run screen calls s = some s') ↔
      ∀ exclude t, Begins screen (call.stages screen s) s exclude t → Safe screen exclude t :=
  ends_run.trans ends_stages

/-- **One that resizes a window** ends exactly when no window is stuck
then. -/
theorem ends_change {f : Desktop Id → Window → Window × Bool} :
    Library.Ends ((Stage.change id f).run screen) s ↔ ((f s (s.window id)).2 = true →
      Unstuck (screen.windowAreaOf none (s.modify id fun w => (f s w).1).window)
        (s.modify id fun w => (f s w).1).window) := by
  rw [ends_stage]
  unfold Stage.change
  constructor
  · intro hsafe hresized
    rw [if_pos hresized] at hsafe
    exact safe_none.1 (hsafe none _ rfl)
  · intro hunstuck exclude t hstage
    split at hstage
    · rename_i hresized
      cases hstage
      exact safe_none.2 (hunstuck hresized)
    · cases hstage

/-! ## Windows that never get stuck -/

variable {w w' : Window} {a : Rect} {type : DockedType}

/-- No size within its limits is smaller than a display can be. -/
def Ample (w : Window) : Prop :=
  (w.minSize.x ≤ w.maxSize.x ∧ w.minSize.x ≤ 0x7fffffff ∧
    16 ≤ w.leftMargin + w.minSize.x + w.rightMargin) ∧
  (w.minSize.y ≤ w.maxSize.y ∧ w.minSize.y ≤ 0x7fffffff ∧
    16 ≤ w.topMargin + w.minSize.y + w.bottomMargin)

theorem Moved.ample (h : Moved w w') (hample : Ample w) : Ample w' := by
  obtain ⟨x, y, width, height, isAutomaticPlacement, rfl⟩ := h
  exact hample

theorem Ample.liftLimit (h : Ample w) : Ample (Screen.liftLimit type w) := by
  obtain ⟨⟨hx, hmaxX, hwidth⟩, hy, hmaxY, hheight⟩ := h
  unfold Screen.liftLimit
  cases type with
  | top => exact ⟨⟨hmaxX, hmaxX, hwidth⟩, hy, hmaxY, hheight⟩
  | bottom => exact ⟨⟨hmaxX, hmaxX, hwidth⟩, hy, hmaxY, hheight⟩
  | left => exact ⟨⟨hx, hmaxX, hwidth⟩, hmaxY, hmaxY, hheight⟩
  | right => exact ⟨⟨hx, hmaxX, hwidth⟩, hmaxY, hmaxY, hheight⟩
  | full => exact ⟨⟨hmaxX, hmaxX, hwidth⟩, hmaxY, hmaxY, hheight⟩

/-- It is resized to just what it is asked to be, which fits. -/
theorem Ample.not_stuck (h : Ample w) : ¬ Stuck a w := by
  intro hstuck
  obtain ⟨⟨hx, -, hwidth⟩, hy, -, hheight⟩ := h
  refine hstuck.not_fits_then ⟨?_, ?_⟩
  · have hsize : (resizedThere a w).getWidth = w.clampWidth (min w.getWidth a.width) := by
      show max 16 (w.leftMargin + w.clampWidth (min w.getWidth a.width) + w.rightMargin) -
        w.leftMargin - w.rightMargin = w.clampWidth (min w.getWidth a.width)
      unfold Window.clampWidth clamp
      omega
    rw [hsize]
    exact clamp_clamp
  · have hsize : (resizedThere a w).getHeight = w.clampHeight (min w.getHeight a.height) := by
      show max 16 (w.topMargin + w.clampHeight (min w.getHeight a.height) + w.bottomMargin) -
        w.topMargin - w.bottomMargin = w.clampHeight (min w.getHeight a.height)
      unfold Window.clampHeight clamp
      omega
    rw [hsize]
    exact clamp_clamp

/-- A part of a call leaves windows as ample as they were. -/
def Stage.KeepsAmple (stage : Stage Id) : Prop :=
  ∀ s, (∀ id, Ample (s.window id)) → ∀ id, Ample ((stage s).1.window id)

theorem keepsAmple_change {f : Desktop Id → Window → Window × Bool}
    (h : ∀ s w, Ample w → Ample (f s w).1) : (Stage.change id f).KeepsAmple := by
  intro s hample other
  by_cases hother : other = id
  · subst hother
    show Ample ((s.modify other fun w => (f s w).1).window other)
    rw [Desktop.window_modify]
    exact h s _ (hample other)
  · show Ample ((s.modify id fun w => (f s w).1).window other)
    rw [Desktop.window_modify_of_ne hother]
    exact hample other

theorem keepsAmple_modify {f : Window → Window} (h : ∀ w, Ample w → Ample (f w)) :
    (Stage.modify id f).KeepsAmple :=
  fun s => keepsAmple_change (f := fun _ w => (f w, false)) (fun _ => h) s

omit [DecidableEq Id] in
theorem keepsAmple_update : (Stage.update exclude : Stage Id).KeepsAmple := fun _ h => h

theorem keepsAmple_closeUp {other : Id} : (Stage.closeUp screen id other).KeepsAmple := by
  intro s hample
  unfold Stage.closeUp
  split
  · exact keepsAmple_change (fun _ _ => moved_closeUp.ample) s hample
  · exact hample

theorem keepsAmple_of_mem_closing (hstage : stage ∈ Stage.closing screen id) : stage.KeepsAmple := by
  rcases List.mem_append.1 hstage with hstage | hstage
  · obtain ⟨other, -, rfl⟩ := List.mem_map.1 hstage
    exact keepsAmple_closeUp
  · rw [List.mem_singleton.1 hstage]
    exact keepsAmple_update

theorem keepsAmple_of_mem_docking (hstage : stage ∈ Stage.docking screen id type) : stage.KeepsAmple := by
  unfold Stage.docking at hstage
  simp only [List.mem_cons, List.not_mem_nil, or_false] at hstage
  rcases hstage with rfl | rfl | rfl
  · exact keepsAmple_modify fun _ h => h
  · exact keepsAmple_change fun _ _ h => moved_moveAndResizeTo.ample h.liftLimit
  · exact keepsAmple_update

/-- **Every part of a call leaves windows as ample as they were.** -/
theorem keepsAmple_of_mem_stages (hstage : stage ∈ call.stages screen s) : stage.KeepsAmple := by
  cases call with
  | resizeTo id width height =>
    rw [List.mem_singleton.1 hstage]
    exact keepsAmple_change fun _ _ => moved_resizeTo.ample
  | moveAndResizeTo id x y width height =>
    rw [List.mem_singleton.1 hstage]
    exact keepsAmple_change fun _ _ => moved_moveAndResizeTo.ample
  | dock id type =>
    unfold Call.stages Stage.dock at hstage
    dsimp only at hstage
    split at hstage
    · exact absurd hstage List.not_mem_nil
    · split at hstage
      · rcases List.mem_append.1 hstage with hstage | hstage
        · exact keepsAmple_of_mem_closing hstage
        · exact keepsAmple_of_mem_docking hstage
      · rcases List.mem_cons.1 hstage with rfl | hstage
        · exact keepsAmple_modify fun _ h => h
        · exact keepsAmple_of_mem_docking hstage
      · rcases List.mem_cons.1 hstage with rfl | hstage
        · exact keepsAmple_modify fun _ h => h
        · exact keepsAmple_of_mem_docking hstage
  | restore id =>
    unfold Call.stages Stage.restore at hstage
    dsimp only at hstage
    split at hstage
    · rcases List.mem_cons.1 hstage with rfl | hstage
      · exact keepsAmple_modify fun _ h => h
      · rcases List.mem_append.1 hstage with hstage | hstage
        · exact keepsAmple_of_mem_closing hstage
        · rw [List.mem_singleton.1 hstage]
          exact keepsAmple_change fun _ _ => moved_moveAndResizeTo.ample
    · exact absurd hstage List.not_mem_nil
    · rw [List.mem_singleton.1 hstage]
      exact keepsAmple_modify fun _ h => h

/-- **Ample windows never get stuck**: with all of them so, every call
ends. -/
theorem ends_of_ample (hample : ∀ id, Ample (s.window id)) (call : Call Id) :
    Library.Ends (call.run screen) s := by
  rw [ends_run, ends_stages]
  rintro exclude t ⟨past, stage, rest, s', heq, hpast, hstage⟩
  have hkeeps : ∀ other ∈ past ++ stage :: rest, other.KeepsAmple :=
    fun other hother => keepsAmple_of_mem_stages (heq ▸ hother)
  have hcome : ∀ id, Ample (s'.window id) := by
    refine Library.inTurn_invariant (J := fun s => ∀ id, Ample (s.window id)) hample ?_ hpast
    rintro u u' other hother hu ⟨calls, hrun⟩
    have hchanged := hkeeps other (List.mem_append_left _ hother) u hu
    unfold Stage.run at hrun
    split at hrun
    · rename_i hstage
      cases hrun
      rwa [hstage] at hchanged
    · rename_i hstage
      rw [hstage] at hchanged
      exact fun id => ((updateWindowArea_spec hrun).1.moved id).ample (hchanged id)
  have ht := hkeeps stage (List.mem_append_right _ List.mem_cons_self) s' hcome
  rw [hstage] at ht
  have hpass := keeps_firstPass screen exclude screen.windows
    { t with windowArea := screen.windowAreaOf exclude t.window }
  intro _ id _
  exact ((hpass.moved id).ample (ht id)).not_stuck

/-! ## One that does not end -/

/-- A screen. -/
def smallScreen : Screen Unit where
  width := 640
  height := 480
  windows := [()]
  width_nonneg := by decide
  height_nonneg := by decide
  width_le := by decide
  height_le := by decide
  nodup := by decide
  mem_windows := fun _ => List.mem_singleton_self _

/-- A window on it, which is to be smaller than a display can be. -/
def smallWindow : Desktop Unit where
  window := fun _ =>
    { x := 100, y := 100, width := 100, height := 100, isVisible := true
      leftMargin := 0, topMargin := 0, rightMargin := 0, bottomMargin := 0
      minSize := ⟨8, 8⟩, maxSize := ⟨8, 8⟩
      maxDockedWidth := 640, maxDockedHeight := 480
      state := .floating, dockedType := .full
      defaultFloatingRect := ⟨100, 100, 200, 200⟩, isAutomaticPlacement := false }
  windowArea := smallScreen.totalArea

/-- It is asked to be so, and is stuck. -/
theorem not_ends_smallWindow :
    ¬ Library.Ends ((Call.resizeTo () 8 8).run smallScreen) smallWindow := by
  rw [ends_run]
  unfold Call.stages
  rw [Library.inTurn_singleton, ends_change]
  intro hunstuck
  exact hunstuck (by decide) () (by decide) (by decide)

/-- **Not every call ends**, of windows with limits in order. -/
theorem not_every_call_ends : ¬ ∀ (screen : Screen Unit) (s : Desktop Unit),
    (∀ id, (s.window id).minSize.x ≤ (s.window id).maxSize.x ∧
      (s.window id).minSize.y ≤ (s.window id).maxSize.y) →
    ∀ call : Call Unit, ∃ calls s', call.run screen calls s = some s' := by
  intro hall
  refine not_ends_smallWindow (hall smallScreen smallWindow ?_ (.resizeTo () 8 8))
  exact fun _ => ⟨le_rfl, le_rfl⟩

end DesktopManager

end Uberos
