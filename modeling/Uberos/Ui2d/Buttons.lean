import Mathlib.Algebra.Order.BigOperators.Group.List
import Mathlib.Algebra.Order.Ring.Nat
import Uberos.DisplayManager.Model
import Uberos.Library.Run
/-!
# The buttons of a gui

`ui2d::Control` and `control::Button` of `common/ui2d`, and the loops of
`Gui.cpp` that tell all controls what the mouse does over the window.
What is done outside the window is not told. A button is to be clicked by
the left mouse button, pressed and released over it, and it is so as long
as the others are left alone meanwhile, nothing is released outside and no
button is pressed while it is hidden. What `on_pressed`, `on_released` and
`on_clicked` do comes after the event. The drawing is left out.
-/

namespace Uberos

open Library

/-- `Button::Type`. -/
inductive ButtonType
  | regular
  | toggle
  deriving DecidableEq, Repr

/-- `Button`, of which the address is `id`. -/
structure Button (Id : Type) where
  id : Id
  rect : Rect
  isVisible : Bool := true
  isHover : Bool := false
  isPressed : Bool := false
  type : ButtonType := .regular
  toggleActive : Bool := false
  deriving DecidableEq

/-- The virtual function that a button calls. -/
inductive ButtonCall
  | onPressed
  | onReleased
  | onClicked
  deriving DecidableEq, Repr

namespace Button

variable {Id : Type} (b : Button Id) (x y : ℤ) (button : ℕ)

/-- `on_mouse_moved`. -/
def onMouseMoved : Button Id := { b with isHover := b.rect.contains x y }

/-- `Control::on_mouse_pressed`. -/
def controlPressed : Button Id :=
  { b with isPressed := decide (b.rect.contains x y) && button == 0 }

/-- `Control::on_mouse_released`. -/
def controlReleased : Button Id :=
  if ¬ b.isVisible then b
  else if button = 0 then { b with isPressed := false }
  else b

/-- `Button::on_mouse_pressed`. -/
def onMousePressed : Button Id × List ButtonCall :=
  (b.controlPressed x y button,
    if button = 0 ∧ b.rect.contains x y then [.onPressed] else [])

/-- `Button::on_mouse_released`. -/
def onMouseReleased : Button Id × List ButtonCall :=
  let wasReleased := button = 0 ∧ b.isPressed
  let wasClicked := b.rect.contains x y ∧ b.isPressed
  let b' := if wasClicked ∧ b.type = .toggle then { b with toggleActive := !b.toggleActive } else b
  (b'.controlReleased button,
    (if wasReleased then [.onReleased] else []) ++ if wasClicked then [.onClicked] else [])

end Button

/-- `Gui`, with what its controls have called so far. -/
structure Gui (Id : Type) where
  controls : List (Button Id) := []
  calls : List (Id × ButtonCall) := []
  deriving DecidableEq

/-- What happens: to the mouse, with where that is if it is over the
window, and to the controls. -/
inductive GuiEvent (Id : Type)
  | moved (place : Option (ℤ × ℤ))
  | pressed (place : Option (ℤ × ℤ)) (button : ℕ)
  | released (place : Option (ℤ × ℤ)) (button : ℕ)
  | add (id : Id) (rect : Rect)
  | remove (id : Id)
  | setRect (id : Id) (rect : Rect)
  | setIsVisible (id : Id) (set : Bool)
  | setRegular (id : Id)
  | setToggle (id : Id) (active : Bool)
  deriving DecidableEq

namespace Gui

variable {Id : Type} [DecidableEq Id]

/-- The loop over `controls`. -/
def each (g : Gui Id) (f : Button Id → Button Id × List ButtonCall) : Gui Id where
  controls := g.controls.map fun b => (f b).1
  calls := g.calls ++ g.controls.flatMap fun b => (f b).2.map (b.id, ·)

/-- One control changes. -/
def modify (g : Gui Id) (id : Id) (f : Button Id → Button Id) : Gui Id :=
  g.each fun b => (if b.id = id then f b else b, [])

/-- One event. -/
def step (g : Gui Id) : GuiEvent Id → Gui Id
  | .moved (some (x, y)) => g.each fun b => (b.onMouseMoved x y, [])
  | .pressed (some (x, y)) button => g.each fun b => b.onMousePressed x y button
  | .released (some (x, y)) button => g.each fun b => b.onMouseReleased x y button
  | .moved none | .pressed none _ | .released none _ => g
  | .add id rect => { g with controls := g.controls ++ [{ id, rect }] }
  | .remove id => { g with controls := g.controls.eraseP fun b => b.id = id }
  | .setRect id rect => g.modify id fun b => { b with rect }
  | .setIsVisible id set => g.modify id fun b => { b with isVisible := set }
  | .setRegular id => g.modify id fun b => { b with type := .regular }
  | .setToggle id active => g.modify id fun b => { b with type := .toggle, toggleActive := active }

end Gui

/-! ## What it is for -/

/-- What a user sees of a button: whether the left mouse button is held
that was pressed over it. -/
structure Clickable (Id : Type) where
  id : Id
  rect : Rect
  isVisible : Bool := true
  isHeld : Bool := false
  type : ButtonType := .regular
  toggleActive : Bool := false
  deriving DecidableEq

namespace Clickable

variable {Id : Type} (t : Clickable Id)

/-- The left mouse button takes hold of a button that is there. -/
def hold (x y : ℤ) : Clickable Id × List ButtonCall :=
  if t.isVisible ∧ t.rect.contains x y then ({ t with isHeld := true }, [.onPressed])
  else ({ t with isHeld := false }, [])

/-- It lets go of it, which clicks it where the mouse is still over it. -/
def letGo (place : Option (ℤ × ℤ)) : Clickable Id × List ButtonCall :=
  if t.isHeld then
    if ∃ p ∈ place, t.rect.contains p.1 p.2 then
      ({ t with
        isHeld := false
        toggleActive := if t.type = .toggle then !t.toggleActive else t.toggleActive },
        [.onReleased, .onClicked])
    else ({ t with isHeld := false }, [.onReleased])
  else (t, [])

end Clickable

/-- The buttons that a user sees, and what is to be called. -/
structure Clickables (Id : Type) where
  targets : List (Clickable Id) := []
  calls : List (Id × ButtonCall) := []
  deriving DecidableEq

namespace Clickables

variable {Id : Type} [DecidableEq Id]

/-- All buttons, in their order. -/
def each (s : Clickables Id) (f : Clickable Id → Clickable Id × List ButtonCall) :
    Clickables Id where
  targets := s.targets.map fun t => (f t).1
  calls := s.calls ++ s.targets.flatMap fun t => (f t).2.map (t.id, ·)

/-- One button changes. -/
def modify (s : Clickables Id) (id : Id) (f : Clickable Id → Clickable Id) : Clickables Id :=
  s.each fun t => (if t.id = id then f t else t, [])

/-- One event: only the left mouse button presses and clicks. -/
def step (s : Clickables Id) : GuiEvent Id → Clickables Id
  | .pressed (some (x, y)) 0 => s.each fun t => t.hold x y
  | .released place 0 => s.each fun t => t.letGo place
  | .moved _ | .pressed _ _ | .released _ _ => s
  | .add id rect => { s with targets := s.targets ++ [{ id, rect }] }
  | .remove id => { s with targets := s.targets.eraseP fun t => t.id = id }
  | .setRect id rect => s.modify id fun t => { t with rect }
  | .setIsVisible id set => s.modify id fun t => { t with isVisible := set }
  | .setRegular id => s.modify id fun t => { t with type := .regular }
  | .setToggle id active => s.modify id fun t => { t with type := .toggle, toggleActive := active }

end Clickables

namespace Button

variable {Id : Type} (b : Button Id) (x y : ℤ) (button : ℕ)

/-- What a user would see if `isPressed` told what is held. -/
def target : Clickable Id where
  id := b.id
  rect := b.rect
  isVisible := b.isVisible
  isHeld := b.isPressed
  type := b.type
  toggleActive := b.toggleActive

/-- What goes well with a button. -/
def Plain : GuiEvent Id → Prop
  | .pressed (some (x, y)) 0 => b.rect.contains x y → b.isVisible
  | .pressed (some _) _ => ¬ b.isPressed
  | .released (some _) 0 => b.isPressed → b.isVisible
  | .released none 0 => ¬ b.isPressed
  | .released (some (x, y)) _ => b.isPressed → ¬ b.rect.contains x y
  | _ => True

instance (event : GuiEvent Id) : Decidable (b.Plain event) := by
  unfold Plain
  split <;> infer_instance

end Button

namespace Gui

variable {Id : Type} [DecidableEq Id]

/-- The buttons as a user sees them, and what they have called. -/
def targets (g : Gui Id) : Clickables Id := ⟨g.controls.map Button.target, g.calls⟩

/-- **No pressed button is disturbed**: no other mouse button is pressed in
the window meanwhile, or released over it, the left one is not released
outside, and what is pressed is visible then and when it is released. -/
def Plain (g : Gui Id) (event : GuiEvent Id) : Prop := ∀ b ∈ g.controls, b.Plain event

instance (g : Gui Id) (event : GuiEvent Id) : Decidable (g.Plain event) :=
  inferInstanceAs (Decidable (∀ b ∈ g.controls, b.Plain event))

end Gui

/-! ## One button -/

/-- What is let go of and is as before was not held. -/
theorem Clickable.calls_letGo_of_eq {Id : Type} {t : Clickable Id} {place : Option (ℤ × ℤ)}
    (h : (t.letGo place).1 = t) : (t.letGo place).2 = [] := by
  unfold letGo at h ⊢
  split at h
  · rename_i hheld
    have hnot : t.isHeld = false := by
      split at h
      · exact (congrArg Clickable.isHeld h).symm
      · exact (congrArg Clickable.isHeld h).symm
    exact absurd (hheld.symm.trans hnot) (by simp)
  · rename_i hnot
    rw [if_neg hnot]

namespace Button

variable {Id : Type} {b : Button Id} {x y : ℤ} {button : ℕ}

theorem target_onMouseMoved : (b.onMouseMoved x y).target = b.target := rfl

/-- The left mouse button is pressed. -/
theorem pressed_left_iff :
    ((b.onMousePressed x y 0).1.target, (b.onMousePressed x y 0).2) = b.target.hold x y ↔
      (b.rect.contains x y → b.isVisible) := by
  unfold onMousePressed controlPressed Clickable.hold target
  by_cases hover : b.rect.contains x y
  · cases hvisible : b.isVisible <;> simp [hover]
  · simp [hover]

theorem length_hold_le :
    (b.target.hold x y).2.length ≤ (b.onMousePressed x y 0).2.length := by
  unfold Clickable.hold onMousePressed target
  by_cases hover : b.rect.contains x y
  · cases b.isVisible <;> simp [hover]
  · simp [hover]

/-- Another one is. -/
theorem pressed_other_iff (h : button ≠ 0) :
    ((b.onMousePressed x y button).1.target, (b.onMousePressed x y button).2) = (b.target, []) ↔
      ¬ b.isPressed := by
  unfold onMousePressed controlPressed target
  have hbutton : (button == 0) = false := beq_eq_false_iff_ne.2 h
  rw [hbutton, Bool.and_false, if_neg fun hleft => h hleft.1]
  cases hpressed : b.isPressed <;> simp

/-- The left mouse button is released over the window. -/
theorem released_left_iff :
    ((b.onMouseReleased x y 0).1.target, (b.onMouseReleased x y 0).2) =
        b.target.letGo (some (x, y)) ↔ (b.isPressed → b.isVisible) := by
  unfold onMouseReleased controlReleased Clickable.letGo target
  cases hpressed : b.isPressed with
  | false =>
    cases hvisible : b.isVisible <;> simp [hpressed, hvisible]
  | true =>
    by_cases hover : b.rect.contains x y
    · cases htype : b.type <;> cases hvisible : b.isVisible <;>
        simp [hover, htype, hvisible, hpressed]
    · cases hvisible : b.isVisible <;> simp [hover, hvisible, hpressed]

theorem length_letGo_le :
    (b.target.letGo (some (x, y))).2.length ≤ (b.onMouseReleased x y 0).2.length := by
  unfold Clickable.letGo onMouseReleased target
  cases hpressed : b.isPressed with
  | false => simp
  | true => by_cases hover : b.rect.contains x y <;> simp [hover]

/-- It is released outside. -/
theorem released_outside_iff : (b.target, []) = b.target.letGo none ↔ ¬ b.isPressed := by
  unfold Clickable.letGo target
  cases hpressed : b.isPressed <;> simp

/-- Another one is released over the window. -/
theorem released_other_iff (h : button ≠ 0) :
    ((b.onMouseReleased x y button).1.target, (b.onMouseReleased x y button).2) =
        (b.target, []) ↔ (b.isPressed → ¬ b.rect.contains x y) := by
  unfold onMouseReleased controlReleased target
  by_cases hclicked : b.rect.contains x y ∧ b.isPressed
  · simp [h, hclicked]
  · simp only [h, hclicked, false_and, if_false, List.append_nil]
    rw [ite_self]
    exact iff_of_true rfl fun hpressed hover => hclicked ⟨hover, hpressed⟩

end Button

/-! ## All of them -/

/-- Where each part is no longer than the other's, the wholes are the same
just where all the parts are. -/
theorem flatMap_eq_iff {α β : Type} {f k : α → List β} {l : List α}
    (h : ∀ a ∈ l, (k a).length ≤ (f a).length) :
    l.flatMap f = l.flatMap k ↔ ∀ a ∈ l, f a = k a := by
  refine ⟨fun heq => ?_, List.flatMap_congr⟩
  induction l with
  | nil => exact fun a ha => absurd ha List.not_mem_nil
  | cons a l ih =>
    have hrest : (l.flatMap k).length ≤ (l.flatMap f).length := by
      rw [List.length_flatMap, List.length_flatMap]
      exact List.sum_le_sum fun c hc => h c (List.mem_cons_of_mem _ hc)
    have hhead := h a List.mem_cons_self
    rw [List.flatMap_cons, List.flatMap_cons] at heq
    have hlength := congrArg List.length heq
    rw [List.length_append, List.length_append] at hlength
    obtain ⟨hsame, htail⟩ := List.append_inj heq (by omega)
    intro c hc
    rcases List.mem_cons.1 hc with rfl | hc
    · exact hsame
    · exact ih (fun d hd => h d (List.mem_cons_of_mem _ hd)) htail c hc

namespace Gui

variable {Id : Type} [DecidableEq Id] {g : Gui Id} {f : Button Id → Button Id × List ButtonCall}
variable {k : Clickable Id → Clickable Id × List ButtonCall} {event : GuiEvent Id}

omit [DecidableEq Id] in
/-- **What the loop does is what it is for, just where that is so of each
button**, as long as no call is missing. -/
theorem targets_each_iff (h : ∀ b ∈ g.controls, (f b).1.target = (k b.target).1 →
    (k b.target).2.length ≤ (f b).2.length) :
    (g.each f).targets = g.targets.each k ↔
      ∀ b ∈ g.controls, ((f b).1.target, (f b).2) = k b.target := by
  have hsame : ∀ b : Button Id, (f b).2.map (b.id, ·) = (k b.target).2.map (b.id, ·) ↔
      (f b).2 = (k b.target).2 := fun b =>
    (List.map_injective_iff.2 fun _ _ heq => (Prod.mk.inj heq).2).eq_iff
  simp only [targets, each, Clickables.each, Clickables.mk.injEq, List.map_map,
    List.map_inj_left, Function.comp_apply, List.append_cancel_left_eq, List.flatMap_map,
    Prod.ext_iff]
  rw [forall₂_and]
  refine and_congr_right fun htargets => ?_
  refine (flatMap_eq_iff fun b hb => ?_).trans (forall₂_congr fun b _ => hsame b)
  rw [List.length_map, List.length_map]
  exact h b hb (htargets b hb)

omit [DecidableEq Id] in
theorem each_nothing (s : Clickables Id) : (s.each fun t => (t, [])) = s := by
  have hnone : (s.targets.flatMap fun _ => ([] : List (Id × ButtonCall))) = [] :=
    List.flatMap_eq_nil_iff.2 fun _ _ => rfl
  simp only [Clickables.each, List.map_nil, hnone, List.append_nil, List.map_id']

omit [DecidableEq Id] in
theorem each_same : (g.each fun b => (b, [])) = g := by
  have hnone : (g.controls.flatMap fun _ => ([] : List (Id × ButtonCall))) = [] :=
    List.flatMap_eq_nil_iff.2 fun _ _ => rfl
  simp only [each, List.map_nil, hnone, List.append_nil, List.map_id']

omit [DecidableEq Id] in
/-- The loop that is to do nothing. -/
theorem targets_each_iff_same : (g.each f).targets = g.targets ↔
    ∀ b ∈ g.controls, ((f b).1.target, (f b).2) = (b.target, []) := by
  conv_lhs => rw [← each_nothing g.targets]
  exact targets_each_iff fun b _ _ => Nat.zero_le _

theorem targets_modify {id : Id} {change : Button Id → Button Id}
    {change' : Clickable Id → Clickable Id}
    (h : ∀ b, (change b).target = change' b.target) :
    (g.modify id change).targets = g.targets.modify id change' := by
  refine (targets_each_iff fun b _ _ => Nat.zero_le _).2 fun b _ => ?_
  have hid : b.target.id = b.id := rfl
  rw [hid]
  split
  · rw [h]
  · rfl

/-- **One event.** -/
theorem targets_step_iff : (g.step event).targets = g.targets.step event ↔ g.Plain event := by
  have htrue : ∀ {event : GuiEvent Id}, (∀ b : Button Id, b.Plain event) → g.Plain event :=
    fun h b _ => h b
  cases event with
  | moved place =>
    refine iff_of_true ?_ (htrue fun b => trivial)
    rcases place with - | ⟨x, y⟩
    · rfl
    · exact targets_each_iff_same.2 fun b _ => rfl
  | pressed place button =>
    rcases place with - | ⟨x, y⟩
    · refine iff_of_true ?_ (htrue fun b => ?_)
      · cases button <;> rfl
      · cases button <;> trivial
    · cases button with
      | zero =>
        exact (targets_each_iff fun b _ _ => Button.length_hold_le).trans
          (forall₂_congr fun b _ => Button.pressed_left_iff)
      | succ button =>
        exact targets_each_iff_same.trans
          (forall₂_congr fun b _ => Button.pressed_other_iff (Nat.succ_ne_zero _))
  | released place button =>
    rcases place with - | ⟨x, y⟩
    · cases button with
      | zero =>
        have hsame : (g.step (.released none 0)).targets = (g.each fun b => (b, [])).targets := by
          rw [each_same]
          rfl
        rw [hsame]
        refine (targets_each_iff fun b _ htarget => ?_).trans
          (forall₂_congr fun b _ => Button.released_outside_iff)
        exact Nat.le_of_eq (congrArg List.length (Clickable.calls_letGo_of_eq htarget.symm))
      | succ button => exact iff_of_true rfl (htrue fun b => trivial)
    · cases button with
      | zero =>
        exact (targets_each_iff fun b _ _ => Button.length_letGo_le).trans
          (forall₂_congr fun b _ => Button.released_left_iff)
      | succ button =>
        exact targets_each_iff_same.trans
          (forall₂_congr fun b _ => Button.released_other_iff (Nat.succ_ne_zero _))
  | add id rect =>
    refine iff_of_true ?_ (htrue fun b => trivial)
    simp [Gui.step, Clickables.step, targets, Button.target]
  | remove id =>
    refine iff_of_true ?_ (htrue fun b => trivial)
    simp only [Gui.step, Clickables.step, targets, List.eraseP_map]
    rfl
  | setRect id rect => exact iff_of_true (targets_modify fun b => rfl) (htrue fun b => trivial)
  | setIsVisible id set => exact iff_of_true (targets_modify fun b => rfl) (htrue fun b => trivial)
  | setRegular id => exact iff_of_true (targets_modify fun b => rfl) (htrue fun b => trivial)
  | setToggle id active => exact iff_of_true (targets_modify fun b => rfl) (htrue fun b => trivial)

/-! ## The result -/

/-- A gui, beside what a user sees of it. -/
def stepSeen (s : Gui Id × Clickables Id) (event : GuiEvent Id) : Gui Id × Clickables Id :=
  (s.1.step event, s.2.step event)

/-- A button on which the right mouse button is released while the left one
is held is clicked twice. -/
example : ((run step ({} : Gui ℕ) [.add 0 ⟨0, 0, 8, 8⟩, .pressed (some (1, 1)) 0,
    .released (some (1, 1)) 1, .released (some (1, 1)) 0]).calls) =
      [(0, .onPressed), (0, .onClicked), (0, .onReleased), (0, .onClicked)] := by
  decide

end Gui

end Uberos
