import Mathlib.Data.List.TakeWhile
import Uberos.DisplayManager.Composed
/-!
# Where the framebuffers are

`_update_framebuffer_positions`, `_on_driver_event` and
`_on_graphics_event` of `drivers/DisplayManager.cpp`, and the start of the
manager. The framebuffers of the graphics drivers come and go, and are
without a buffer while they change. Of an update of the screen it is
looked at only which framebuffers are painted. Coordinates do not wrap.
-/

namespace Uberos

/-- `Framebuffer`, with a mark of its own: its area has been updated since
it has had this buffer and this area. -/
structure Screens.Framebuffer (Driver : Type) where
  driver : Driver
  driverFramebuffer : ℕ
  /-- The width and the height of its buffer. -/
  buffer : Option (ℕ × ℕ)
  area : Rect
  painted : Bool
  deriving DecidableEq

/-- `framebuffers` and `totalArea`. -/
structure Screens (Driver : Type) where
  framebuffers : List (Screens.Framebuffer Driver)
  totalArea : Rect
  deriving DecidableEq

/-- What the graphics drivers tell, with what `get_framebuffer` then returns. -/
inductive ScreenEvent (Driver : Type)
  | driverStarted (driver : Driver) (buffers : List (Option (ℕ × ℕ)))
  | driverStopped (driver : Driver)
  | framebufferChanging (driver : Driver) (index : ℕ)
  | framebufferChanged (driver : Driver) (index : ℕ) (buffer : Option (ℕ × ℕ))

/-- A framebuffer is given a new area, which is updated. -/
def Screens.Framebuffer.moveTo {Driver : Type} (framebuffer : Screens.Framebuffer Driver)
    (newArea : Rect) : Screens.Framebuffer Driver :=
  if framebuffer.area ≠ newArea then { framebuffer with area := newArea, painted := true }
  else framebuffer

namespace Screens

variable {Driver : Type}

/-- The turns of `_update_framebuffer_positions`, from a framebuffer on. -/
def updateFrom : ℤ → Rect → List (Framebuffer Driver) → Screens Driver
  | _, totalArea, [] => ⟨[], totalArea⟩
  | x, totalArea, framebuffer :: rest =>
    match framebuffer.buffer with
    | none => ⟨framebuffer :: rest, totalArea⟩
    | some (width, height) =>
      let newArea : Rect := ⟨x, 0, x + width, height⟩
      let framebuffer := framebuffer.moveTo newArea
      let rest := updateFrom framebuffer.area.x2 (totalArea.extend newArea) rest
      ⟨framebuffer :: rest.framebuffers, rest.totalArea⟩

/-- `_update_framebuffer_positions` -/
def updatePositions (framebuffers : List (Framebuffer Driver)) : Screens Driver :=
  updateFrom 0 ⟨0, 0, 0, 0⟩ framebuffers

/-- The framebuffers of a driver, as they are pushed. -/
def pushed (driver : Driver) (buffers : List (Option (ℕ × ℕ))) : List (Framebuffer Driver) :=
  buffers.zipIdx.map fun (buffer, i) => ⟨driver, i, buffer, ⟨0, 0, 0, 0⟩, false⟩

/-- `_on_start`, with the drivers that are active or could be started. -/
def start (drivers : List (Driver × List (Option (ℕ × ℕ)))) : Screens Driver :=
  updatePositions (drivers.flatMap fun driver => pushed driver.1 driver.2)

section Events

variable [DecidableEq Driver]

/-- The first framebuffer with this index of the driver is changed. -/
def changeFirst (driver : Driver) (index : ℕ)
    (change : Framebuffer Driver → Framebuffer Driver) :
    List (Framebuffer Driver) → List (Framebuffer Driver)
  | [] => []
  | framebuffer :: rest =>
    if framebuffer.driver = driver ∧ index = framebuffer.driverFramebuffer then
      change framebuffer :: rest
    else framebuffer :: changeFirst driver index change rest

/-- `_on_driver_event` and `_on_graphics_event`. -/
def step (s : Screens Driver) : ScreenEvent Driver → Screens Driver
  | .driverStarted driver buffers => updatePositions (s.framebuffers ++ pushed driver buffers)
  | .driverStopped driver => updatePositions (s.framebuffers.filter (·.driver ≠ driver))
  | .framebufferChanging driver index =>
    { s with framebuffers := changeFirst driver index ({ · with buffer := none }) s.framebuffers }
  | .framebufferChanged driver index buffer =>
    if ∃ f ∈ s.framebuffers, f.driver = driver ∧ index = f.driverFramebuffer then
      updatePositions (changeFirst driver index
        (fun f => { f with buffer := buffer, area := ⟨0, 0, 0, 0⟩, painted := false })
        s.framebuffers)
    else s

end Events

/-! ## What it is for -/

/-- The framebuffers in front of the first that is changing. -/
def settled (framebuffers : List (Framebuffer Driver)) : List (Framebuffer Driver) :=
  framebuffers.takeWhile (·.buffer.isSome)

/-- They are one to the right of the other, each of its buffer's size. -/
def InRow (x : ℤ) (framebuffers : List (Framebuffer Driver)) : Prop :=
  (settled framebuffers).map (·.area) =
    DisplayManager.framebufferAreas x ((settled framebuffers).filterMap (·.buffer))

/-- It has been painted where it is, if there is anything of it. -/
def Painted (framebuffer : Framebuffer Driver) : Prop :=
  framebuffer.painted = true ∨ framebuffer.area = ⟨0, 0, 0, 0⟩

/-- **The screens are tiled**: the settled framebuffers are in a row from
the origin on, they are within the total area, and they have been painted. -/
structure Tiled (s : Screens Driver) : Prop where
  inRow : InRow 0 s.framebuffers
  painted : ∀ f ∈ s.framebuffers, Painted f
  inside : ∀ f ∈ settled s.framebuffers, ∀ x y, f.area.contains x y → s.totalArea.contains x y

variable {framebuffers : List (Framebuffer Driver)} {f : Framebuffer Driver} {s : Screens Driver}
variable {x : ℤ} {totalArea : Rect} {width height : ℕ}

/-! ## A row -/

theorem settled_cons_none (h : f.buffer = none) : settled (f :: framebuffers) = [] := by
  rw [settled, List.takeWhile_cons_of_neg (by simp [h])]

theorem settled_cons_some (h : f.buffer = some (width, height)) :
    settled (f :: framebuffers) = f :: settled framebuffers := by
  rw [settled, List.takeWhile_cons_of_pos (by simp [h]), settled]

theorem inRow_cons_none (h : f.buffer = none) : InRow x (f :: framebuffers) := by
  rw [InRow, settled_cons_none h]
  rfl

theorem inRow_cons_some (h : f.buffer = some (width, height)) :
    InRow x (f :: framebuffers) ↔
      f.area = ⟨x, 0, x + width, height⟩ ∧ InRow (x + width) framebuffers := by
  rw [InRow, settled_cons_some h, List.map_cons, List.filterMap_cons_some h,
    DisplayManager.framebufferAreas, List.cons.injEq, InRow]

/-! ## Putting them in a row -/

theorem area_moveTo (newArea : Rect) : (f.moveTo newArea).area = newArea := by
  rw [Framebuffer.moveTo]
  split
  · rfl
  · next heq => exact not_not.1 heq

theorem buffer_moveTo (newArea : Rect) : (f.moveTo newArea).buffer = f.buffer := by
  rw [Framebuffer.moveTo]
  split
  · rfl
  · rfl

theorem Painted.moveTo (h : Painted f) (newArea : Rect) : Painted (f.moveTo newArea) := by
  rw [Framebuffer.moveTo]
  split
  · exact Or.inl rfl
  · exact h

theorem updateFrom_none (h : f.buffer = none) :
    updateFrom x totalArea (f :: framebuffers) = ⟨f :: framebuffers, totalArea⟩ := by
  simp only [updateFrom, h]

theorem updateFrom_some (h : f.buffer = some (width, height)) :
    updateFrom x totalArea (f :: framebuffers) =
      let rest := updateFrom (x + width) (totalArea.extend ⟨x, 0, x + width, height⟩) framebuffers
      ⟨f.moveTo ⟨x, 0, x + width, height⟩ :: rest.framebuffers, rest.totalArea⟩ := by
  simp only [updateFrom, h, area_moveTo]

/-- The total area only grows. -/
theorem contains_updateFrom {x' y' : ℤ} (h : totalArea.contains x' y') :
    (updateFrom x totalArea framebuffers).totalArea.contains x' y' := by
  induction framebuffers generalizing x totalArea with
  | nil => exact h
  | cons f framebuffers ih =>
    rcases hbuffer : f.buffer with - | ⟨width, height⟩
    · rw [updateFrom_none hbuffer]
      exact h
    · rw [updateFrom_some hbuffer]
      exact ih (Rect.contains_extend (Or.inl h))

theorem inRow_updateFrom : InRow x (updateFrom x totalArea framebuffers).framebuffers := by
  induction framebuffers generalizing x totalArea with
  | nil => rfl
  | cons f framebuffers ih =>
    rcases hbuffer : f.buffer with - | ⟨width, height⟩
    · rw [updateFrom_none hbuffer]
      exact inRow_cons_none hbuffer
    · rw [updateFrom_some hbuffer]
      exact (inRow_cons_some ((buffer_moveTo _).trans hbuffer)).2 ⟨area_moveTo _, ih⟩

theorem painted_updateFrom (h : ∀ f ∈ framebuffers, Painted f) :
    ∀ f ∈ (updateFrom x totalArea framebuffers).framebuffers, Painted f := by
  induction framebuffers generalizing x totalArea with
  | nil => exact h
  | cons f framebuffers ih =>
    rcases hbuffer : f.buffer with - | ⟨width, height⟩
    · rw [updateFrom_none hbuffer]
      exact h
    · rw [updateFrom_some hbuffer]
      intro f' hf'
      rcases List.mem_cons.1 hf' with rfl | hf'
      · exact (h f List.mem_cons_self).moveTo _
      · exact ih (fun f' hf' => h f' (List.mem_cons_of_mem _ hf')) f' hf'

/-- **What is settled is within the total area.** -/
theorem inside_updateFrom :
    ∀ f ∈ settled (updateFrom x totalArea framebuffers).framebuffers, ∀ x' y',
      f.area.contains x' y' →
        (updateFrom x totalArea framebuffers).totalArea.contains x' y' := by
  induction framebuffers generalizing x totalArea with
  | nil => exact fun f hf => absurd hf List.not_mem_nil
  | cons f framebuffers ih =>
    rcases hbuffer : f.buffer with - | ⟨width, height⟩
    · rw [updateFrom_none hbuffer, settled_cons_none hbuffer]
      exact fun f hf => absurd hf List.not_mem_nil
    · rw [updateFrom_some hbuffer, settled_cons_some ((buffer_moveTo _).trans hbuffer)]
      intro f' hf' x' y' hcontains
      rcases List.mem_cons.1 hf' with rfl | hf'
      · rw [area_moveTo] at hcontains
        exact contains_updateFrom (Rect.contains_extend (Or.inr hcontains))
      · exact ih f' hf' x' y' hcontains

theorem tiled_updatePositions (h : ∀ f ∈ framebuffers, Painted f) :
    (updatePositions framebuffers).Tiled :=
  ⟨inRow_updateFrom, painted_updateFrom h, inside_updateFrom⟩

/-! ## What the drivers tell -/

theorem painted_pushed {driver : Driver} {buffers : List (Option (ℕ × ℕ))}
    (hf : f ∈ pushed driver buffers) : Painted f := by
  obtain ⟨⟨buffer, i⟩, -, rfl⟩ := List.mem_map.1 hf
  exact Or.inr rfl

section Change

variable [DecidableEq Driver] {driver : Driver} {index : ℕ}
variable {change : Framebuffer Driver → Framebuffer Driver}

theorem painted_changeFirst (h : ∀ f ∈ framebuffers, Painted f)
    (hchange : ∀ f, Painted f → Painted (change f)) :
    ∀ f ∈ changeFirst driver index change framebuffers, Painted f := by
  induction framebuffers with
  | nil => exact h
  | cons f framebuffers ih =>
    have hrest := fun f' hf' => h f' (List.mem_cons_of_mem _ hf')
    rw [changeFirst]
    split
    · intro f' hf'
      rcases List.mem_cons.1 hf' with rfl | hf'
      · exact hchange f (h f List.mem_cons_self)
      · exact hrest f' hf'
    · intro f' hf'
      rcases List.mem_cons.1 hf' with rfl | hf'
      · exact h f' List.mem_cons_self
      · exact ih hrest f' hf'

/-- **A framebuffer that changes** is settled no more, nor are those
behind it, and the others are as they were. -/
theorem settled_changing :
    settled (changeFirst driver index ({ · with buffer := none }) framebuffers) <+:
      settled framebuffers := by
  induction framebuffers with
  | nil => exact List.prefix_rfl
  | cons f framebuffers ih =>
    rw [changeFirst]
    split
    · rw [settled_cons_none rfl]
      exact List.nil_prefix
    · rcases hbuffer : f.buffer with - | ⟨width, height⟩
      · rw [settled_cons_none hbuffer]
        exact List.nil_prefix
      · rw [settled_cons_some hbuffer, settled_cons_some hbuffer]
        exact (List.prefix_cons_inj f).2 ih

theorem InRow.changing (h : InRow x framebuffers) :
    InRow x (changeFirst driver index ({ · with buffer := none }) framebuffers) := by
  induction framebuffers generalizing x with
  | nil => exact h
  | cons f framebuffers ih =>
    rw [changeFirst]
    split
    · exact inRow_cons_none rfl
    · rcases hbuffer : f.buffer with - | ⟨width, height⟩
      · exact inRow_cons_none hbuffer
      · rw [inRow_cons_some hbuffer] at h ⊢
        exact ⟨h.1, ih h.2⟩

/-- **Each event keeps them tiled.** -/
theorem Tiled.step (h : s.Tiled) (event : ScreenEvent Driver) : (s.step event).Tiled := by
  cases event with
  | driverStarted driver buffers =>
    refine tiled_updatePositions fun f hf => ?_
    rcases List.mem_append.1 hf with hf | hf
    · exact h.painted f hf
    · exact painted_pushed hf
  | driverStopped driver =>
    exact tiled_updatePositions fun f hf => h.painted f (List.mem_of_mem_filter hf)
  | framebufferChanging driver index =>
    refine ⟨h.inRow.changing, painted_changeFirst h.painted fun f hf => hf, fun f hf => ?_⟩
    exact h.inside f (settled_changing.subset hf)
  | framebufferChanged driver index buffer =>
    rw [Screens.step]
    split
    · exact tiled_updatePositions (painted_changeFirst h.painted fun f _ => Or.inr rfl)
    · exact h

/-- **The screens are tiled throughout**, whatever graphics drivers start,
stop and change their framebuffers. -/
theorem tiled_run (drivers : List (Driver × List (Option (ℕ × ℕ))))
    (events : List (ScreenEvent Driver)) :
    Library.Throughout step Tiled (start drivers) events := by
  have hstart : (start drivers).Tiled := by
    refine tiled_updatePositions fun f hf => ?_
    obtain ⟨driver, -, hf⟩ := List.mem_flatMap.1 hf
    exact painted_pushed hf
  exact Library.throughout_of_invariant Library.along_true hstart
    (fun s event h _ => h.step event) fun _ h => h

end Change

end Screens

end Uberos
