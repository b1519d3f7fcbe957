import Mathlib.Data.List.Chain
import Uberos.DesktopManager.Model
/-!
# Children in rows that wrap

`WrapBox::layout` of `common/ui2d/controlContainer/WrapBox.cpp`, with
`fillSpace` off. Its two directions are each other's copies with `x` and `y`
exchanged, but for one `x` in the vertical one. Coordinates do not overflow.
-/

namespace Uberos

open DesktopManager

namespace WrapBox

/-- What `layout` asks a child for. -/
structure Child where
  isVisible : Bool
  minSize : IVec2
  maxSize : IVec2
  minSize_nonneg : 0 ≤ minSize.x ∧ 0 ≤ minSize.y
  minSize_le : minSize.x ≤ maxSize.x ∧ minSize.y ≤ maxSize.y

/-- A call of `set_rect`, by the index of the child. -/
structure SetRect where
  child : ℕ
  rect : Rect
  deriving DecidableEq, Repr

/-- `maths::clamp` -/
def clamp (x a b : ℤ) : ℤ := min (max x a) b

variable (spacing : ℤ) (rect : Rect)

/-! ## Vertical -/

/-- The loop that counts up `to`: how much it is counted up, and `rowSize`. -/
def verticalTake : (first : Bool) → (length rowSize : ℤ) → List Child → ℕ × ℤ
  | _, _, rowSize, [] => (0, rowSize)
  | first, length, rowSize, child :: children =>
    if child.isVisible then
      let newLength := length + (if first then 0 else spacing) + child.minSize.y
      if ¬first ∧ newLength > rect.y2 - rect.y1 then (0, rowSize)
      else
        let taken := verticalTake false newLength (max rowSize child.minSize.x) children
        (taken.1 + 1, taken.2)
    else
      let taken := verticalTake false length rowSize children
      (taken.1 + 1, taken.2)

/-- The loop over a row. -/
def verticalRow (rowSize x : ℤ) : (i : ℕ) → (y : ℤ) → List Child → List SetRect
  | _, _, [] => []
  | i, y, child :: children =>
    if child.isVisible then
      let childWidth := clamp rowSize child.minSize.x child.maxSize.x
      let childHeight := child.minSize.y
      let childX := x + if childWidth < rowSize then (rowSize - childWidth) / 2 else 0
      ⟨i, rect.x1 + childX, rect.y1 + y, rect.x1 + childX + childWidth, rect.x1 + y + childHeight⟩
        :: verticalRow rowSize x (i + 1) (y + childHeight + spacing) children
    else verticalRow rowSize x (i + 1) y children

/-- The loop over the rows, so many times. -/
def verticalRows : ℕ → (i : ℕ) → (x : ℤ) → List Child → Option (List (List SetRect))
  | 0, _, _, _ => none
  | turns + 1, i, x, children =>
    let taken := verticalTake spacing rect true 0 0 children
    let row := verticalRow spacing rect taken.2 x i 0 (children.take taken.1)
    if taken.1 < children.length then
      (verticalRows turns (i + taken.1) (x + taken.2 + spacing) (children.drop taken.1)).map
        (row :: ·)
    else some [row]

/-! ## Horizontal -/

/-- The loop that counts up `to`: how much it is counted up, and `rowSize`. -/
def horizontalTake : (first : Bool) → (length rowSize : ℤ) → List Child → ℕ × ℤ
  | _, _, rowSize, [] => (0, rowSize)
  | first, length, rowSize, child :: children =>
    if child.isVisible then
      let newLength := length + (if first then 0 else spacing) + child.minSize.x
      if ¬first ∧ newLength > rect.x2 - rect.x1 then (0, rowSize)
      else
        let taken := horizontalTake false newLength (max rowSize child.minSize.y) children
        (taken.1 + 1, taken.2)
    else
      let taken := horizontalTake false length rowSize children
      (taken.1 + 1, taken.2)

/-- The loop over a row. -/
def horizontalRow (rowSize y : ℤ) : (i : ℕ) → (x : ℤ) → List Child → List SetRect
  | _, _, [] => []
  | i, x, child :: children =>
    if child.isVisible then
      let childWidth := child.minSize.x
      let childHeight := clamp rowSize child.minSize.y child.maxSize.y
      let childY := y + if childHeight < rowSize then (rowSize - childHeight) / 2 else 0
      ⟨i, rect.x1 + x, rect.y1 + childY, rect.x1 + (x + childWidth), rect.y1 + childY + childHeight⟩
        :: horizontalRow rowSize y (i + 1) (x + childWidth + spacing) children
    else horizontalRow rowSize y (i + 1) x children

/-- The loop over the rows, so many times. -/
def horizontalRows : ℕ → (i : ℕ) → (y : ℤ) → List Child → Option (List (List SetRect))
  | 0, _, _, _ => none
  | turns + 1, i, y, children =>
    let taken := horizontalTake spacing rect true 0 0 children
    let row := horizontalRow spacing rect taken.2 y i 0 (children.take taken.1)
    if taken.1 < children.length then
      (horizontalRows turns (i + taken.1) (y + taken.2 + spacing) (children.drop taken.1)).map
        (row :: ·)
    else some [row]

/-! ## Both -/

inductive Direction
  | vertical
  | horizontal
  deriving DecidableEq, Repr

/-- **`layout`**, row by row. It has no result where its loop does not end in
so many turns. -/
def layout (turns : ℕ) (direction : Direction) (children : List Child) :
    Option (List (List SetRect)) :=
  match direction with
  | .vertical => verticalRows spacing rect turns 0 0 children
  | .horizontal => horizontalRows spacing rect turns 0 0 children

/-! ## What it is for -/

/-- `x` and `y` exchanged. -/
def Child.transpose (child : Child) : Child where
  isVisible := child.isVisible
  minSize := ⟨child.minSize.y, child.minSize.x⟩
  maxSize := ⟨child.maxSize.y, child.maxSize.x⟩
  minSize_nonneg := child.minSize_nonneg.symm
  minSize_le := child.minSize_le.symm

def transposeRect (rect : Rect) : Rect := ⟨rect.y1, rect.x1, rect.y2, rect.x2⟩

def SetRect.transpose (call : SetRect) : SetRect := ⟨call.child, transposeRect call.rect⟩

/-- Where a child begins in its row, -/
def SetRect.start (direction : Direction) (call : SetRect) : ℤ :=
  match direction with
  | .vertical => call.rect.y1
  | .horizontal => call.rect.x1

/-- and where it ends. -/
def SetRect.finish (direction : Direction) (call : SetRect) : ℤ :=
  match direction with
  | .vertical => call.rect.y2
  | .horizontal => call.rect.x2

/-- The children of a row are `spacing` apart, and none reaches into another
where that is not negative. -/
structure Spaced (direction : Direction) (row : List SetRect) : Prop where
  apart : row.IsChain fun call next => next.start direction = call.finish direction + spacing
  disjoint : 0 ≤ spacing →
    row.Pairwise fun call later => call.finish direction ≤ later.start direction

/-- **The directions are each other's transposes**, and either ends, with its
rows spaced. -/
structure Lays (children : List Child) : Prop where
  transposed : ∀ turns, layout spacing rect turns .vertical children
    = (layout spacing (transposeRect rect) turns .horizontal (children.map Child.transpose)).map
      (·.map (·.map SetRect.transpose))
  ends : ∀ direction, ∃ turns rows, layout spacing rect turns direction children = some rows
  spaced : ∀ direction turns rows, layout spacing rect turns direction children = some rows →
    ∀ row ∈ rows, Spaced spacing direction row

variable {spacing : ℤ} {rect : Rect} {children : List Child} {turns i : ℕ} {x y rowSize : ℤ}

/-! ## The loops end -/

/-- **A row takes a child**, shown or hidden. -/
theorem horizontalTake_pos (spacing : ℤ) (rect : Rect) (length rowSize : ℤ) (child : Child)
    (children : List Child) :
    0 < (horizontalTake spacing rect true length rowSize (child :: children)).1 := by
  rw [horizontalTake]
  dsimp only
  split
  · rw [if_neg fun h => h.1 rfl]
    exact Nat.succ_pos _
  · exact Nat.succ_pos _

variable (spacing rect i y) in
/-- So there are at most as many rows as children. -/
theorem exists_horizontalRows (h : children.length < turns) :
    ∃ rows, horizontalRows spacing rect turns i y children = some rows := by
  induction turns generalizing i y children with
  | zero => exact absurd h (Nat.not_lt_zero _)
  | succ turns ih =>
    rw [horizontalRows]
    split
    · next hmore =>
      obtain ⟨child, rest, rfl⟩ := List.exists_cons_of_length_pos (Nat.zero_lt_of_lt hmore)
      have hpos := horizontalTake_pos spacing rect 0 0 child rest
      have hless : ((child :: rest).drop
          (horizontalTake spacing rect true 0 0 (child :: rest)).1).length < turns := by
        rw [List.length_drop]
        omega
      obtain ⟨rows, hrows⟩ := ih _ _ hless
      rw [hrows]
      exact ⟨_, rfl⟩
    · exact ⟨_, rfl⟩

/-! ## The rows are spaced -/

/-- The first that is shown begins where the loop stands. -/
theorem start_of_mem_head? {call : SetRect}
    (h : call ∈ (horizontalRow spacing rect rowSize y i x children).head?) :
    call.start .horizontal = rect.x1 + x := by
  induction children generalizing i with
  | nil => exact absurd h (by simp [horizontalRow])
  | cons child children ih =>
    rw [horizontalRow] at h
    split at h
    · rw [← Option.some.inj h]
      rfl
    · exact ih h

theorem start_le_of_mem {call : SetRect} (hspacing : 0 ≤ spacing)
    (h : call ∈ horizontalRow spacing rect rowSize y i x children) :
    rect.x1 + x ≤ call.start .horizontal := by
  induction children generalizing i x with
  | nil => exact absurd h (by simp [horizontalRow])
  | cons child children ih =>
    rw [horizontalRow] at h
    split at h
    · rcases List.mem_cons.mp h with rfl | hlater
      · exact Int.le_refl _
      · have hle := ih hlater
        have hsize := child.minSize_nonneg.1
        omega
    · exact ih h

/-- **A row is spaced.** -/
theorem spaced_horizontalRow :
    Spaced spacing .horizontal (horizontalRow spacing rect rowSize y i x children) := by
  induction children generalizing i x with
  | nil => exact ⟨.nil, fun _ => .nil⟩
  | cons child children ih =>
    rw [horizontalRow]
    split
    · refine ⟨List.isChain_cons.mpr ⟨fun next hnext => ?_, ih.apart⟩, fun hspacing =>
        List.pairwise_cons.mpr ⟨fun later hlater => ?_, ih.disjoint hspacing⟩⟩
      · rw [start_of_mem_head? hnext]
        dsimp only [SetRect.finish]
        omega
      · have hle := start_le_of_mem hspacing hlater
        dsimp only [SetRect.finish] at hle ⊢
        omega
    · exact ih

theorem spaced_of_horizontalRows {rows : List (List SetRect)}
    (h : horizontalRows spacing rect turns i y children = some rows) :
    ∀ row ∈ rows, Spaced spacing .horizontal row := by
  induction turns generalizing i y children rows with
  | zero => exact absurd h (by rw [horizontalRows]; exact Option.some_ne_none rows ∘ Eq.symm)
  | succ turns ih =>
    rw [horizontalRows] at h
    split at h
    · obtain ⟨rest, hrest, rfl⟩ := Option.map_eq_some_iff.mp h
      exact List.forall_mem_cons.mpr ⟨spaced_horizontalRow, ih hrest⟩
    · rw [← Option.some.inj h]
      exact List.forall_mem_singleton.mpr spaced_horizontalRow

/-- A row is as spaced as its transpose. -/
theorem spaced_transpose {row : List SetRect} (h : Spaced spacing .horizontal row) :
    Spaced spacing .vertical (row.map SetRect.transpose) :=
  ⟨(List.isChain_map _).mpr h.apart, fun hspacing => List.pairwise_map.mpr (h.disjoint hspacing)⟩

/-! ## The directions -/

/-- A row takes as many in either direction. -/
theorem verticalTake_eq (spacing : ℤ) (rect : Rect) (first : Bool) (length rowSize : ℤ)
    (children : List Child) :
    verticalTake spacing rect first length rowSize children
      = horizontalTake spacing (transposeRect rect) first length rowSize
        (children.map Child.transpose) := by
  induction children generalizing first length rowSize with
  | nil => rfl
  | cons child children ih =>
    rw [List.map_cons, verticalTake, horizontalTake]
    simp only [ih]
    rfl

variable (spacing rect children i x y rowSize) in
/-- **A vertical row is the transpose of a horizontal one** where none of it
is shown, or where the coordinate that is taken for the other is the same. -/
theorem verticalRow_eq_iff :
    verticalRow spacing rect rowSize x i y children
      = (horizontalRow spacing (transposeRect rect) rowSize x i y
          (children.map Child.transpose)).map SetRect.transpose ↔
      (∀ child ∈ children, child.isVisible = false) ∨ rect.x1 = rect.y1 := by
  induction children generalizing i y with
  | nil => exact iff_of_true rfl (.inl fun _ h => absurd h List.not_mem_nil)
  | cons child children ih =>
    rw [List.map_cons, verticalRow, horizontalRow]
    cases hvisible : child.isVisible with
    | false =>
      have hhidden : child.transpose.isVisible = false := hvisible
      rw [if_neg Bool.false_ne_true, hhidden, if_neg Bool.false_ne_true, ih, List.forall_mem_cons,
        hvisible]
      simp only [true_and]
    | true =>
      have hshown : child.transpose.isVisible = true := hvisible
      rw [if_pos rfl, hshown, if_pos rfl, List.map_cons, List.cons.injEq]
      constructor
      · intro h
        have hy := congrArg (·.rect.y2) h.1
        dsimp only [SetRect.transpose, transposeRect, Child.transpose] at hy
        exact .inr (by omega)
      · rintro (hnone | heq)
        · have hhidden := hnone child (List.mem_cons_self ..)
          exact absurd (hvisible.symm.trans hhidden) (by decide)
        · refine ⟨?_, (ih _ _).mpr (.inr heq)⟩
          dsimp only [SetRect.transpose, transposeRect, Child.transpose]
          have hy : rect.x1 + y + child.minSize.y = rect.y1 + (y + child.minSize.y) := by omega
          rw [SetRect.mk.injEq, Rect.mk.injEq]
          exact ⟨rfl, rfl, rfl, rfl, hy⟩

/-- No child is shown, or the coordinate is the same. -/
theorem verticalRows_eq_iff
    (hends : ∃ rows, verticalRows spacing rect turns i x children = some rows) :
    verticalRows spacing rect turns i x children
      = (horizontalRows spacing (transposeRect rect) turns i x
          (children.map Child.transpose)).map (·.map (·.map SetRect.transpose)) ↔
      (∀ child ∈ children, child.isVisible = false) ∨ rect.x1 = rect.y1 := by
  induction turns generalizing i x children with
  | zero =>
    obtain ⟨rows, hrows⟩ := hends
    exact absurd hrows (by rw [verticalRows]; exact Option.some_ne_none rows ∘ Eq.symm)
  | succ turns ih =>
    have hrow := verticalRow_eq_iff spacing rect
      (children.take (verticalTake spacing rect true 0 0 children).1) i x 0
      (verticalTake spacing rect true 0 0 children).2
    have hall : (∀ child ∈ children, child.isVisible = false) ↔
        (∀ child ∈ children.take (verticalTake spacing rect true 0 0 children).1,
            child.isVisible = false) ∧
          ∀ child ∈ children.drop (verticalTake spacing rect true 0 0 children).1,
            child.isVisible = false := by
      rw [← List.forall_mem_append, List.take_append_drop]
    rw [verticalRows] at hends
    rw [verticalRows, horizontalRows, ← verticalTake_eq, List.length_map, ← List.map_take,
      ← List.map_drop]
    rw [hall, and_or_right, ← hrow]
    split
    · next hmore =>
      rw [if_pos hmore] at hends
      obtain ⟨rows, hrows⟩ := hends
      obtain ⟨rest, hrest, -⟩ := Option.map_eq_some_iff.mp hrows
      rw [← ih ⟨rest, hrest⟩, hrest, Option.map_some, Option.map_map]
      constructor
      · intro h
        obtain ⟨left, hleft, heq⟩ := Option.map_eq_some_iff.mp h.symm
        obtain ⟨hfirst, hothers⟩ := List.cons.inj heq
        refine ⟨hfirst.symm, ?_⟩
        rw [hleft, ← hothers]
        rfl
      · rintro ⟨hfirst, hothers⟩
        obtain ⟨left, hleft, heq⟩ := Option.map_eq_some_iff.mp hothers.symm
        rw [hleft, hfirst, ← heq]
        rfl
    · next hlast =>
      have hnone : children.drop (verticalTake spacing rect true 0 0 children).1 = [] :=
        List.drop_eq_nil_of_le (Nat.not_lt.mp hlast)
      rw [hnone]
      constructor
      · intro h
        exact ⟨(List.cons.inj (Option.some.inj h)).1,
          .inl fun _ hmem => absurd hmem List.not_mem_nil⟩
      · rintro ⟨hfirst, -⟩
        rw [hfirst]
        rfl

/-- So many rows, or no result, in either direction. -/
theorem isSome_verticalRows :
    (verticalRows spacing rect turns i x children).isSome
      = (horizontalRows spacing (transposeRect rect) turns i x
          (children.map Child.transpose)).isSome := by
  induction turns generalizing i x children with
  | zero => rfl
  | succ turns ih =>
    rw [verticalRows, horizontalRows, ← verticalTake_eq, List.length_map, ← List.map_drop]
    split
    · rw [Option.isSome_map, Option.isSome_map, ih]
    · rfl

/-- **Where the directions are each other's transposes**, the rows of both are
spaced. -/
theorem lays_iff :
    Lays spacing rect children ↔
      (∀ child ∈ children, child.isVisible = false) ∨ rect.x1 = rect.y1 := by
  have hvertical : ∃ rows,
      verticalRows spacing rect (children.length + 1) 0 0 children = some rows := by
    obtain ⟨rows, hrows⟩ := exists_horizontalRows spacing (transposeRect rect) 0 0
      (show (children.map Child.transpose).length < children.length + 1 by
        rw [List.length_map]; exact Nat.lt_succ_self _)
    rw [← Option.isSome_iff_exists, isSome_verticalRows, hrows]
    rfl
  constructor
  · intro h
    exact (verticalRows_eq_iff hvertical).mp (h.transposed (children.length + 1))
  · intro h
    have htransposed : ∀ turns, verticalRows spacing rect turns 0 0 children
        = (horizontalRows spacing (transposeRect rect) turns 0 0
          (children.map Child.transpose)).map (·.map (·.map SetRect.transpose)) := by
      intro turns
      by_cases hends : ∃ rows, verticalRows spacing rect turns 0 0 children = some rows
      · exact (verticalRows_eq_iff hends).mpr h
      · rw [← Option.isSome_iff_exists, isSome_verticalRows, Bool.not_eq_true,
          Option.isSome_eq_false_iff, Option.isNone_iff_eq_none] at hends
        have hnone : verticalRows spacing rect turns 0 0 children = none := by
          rw [← Option.isNone_iff_eq_none, ← Option.isSome_eq_false_iff, isSome_verticalRows, hends]
          rfl
        rw [hnone, hends]
        rfl
    refine ⟨htransposed, fun direction => ?_, fun direction turns rows hrows row hrow => ?_⟩
    · cases direction with
      | vertical => exact ⟨children.length + 1, hvertical⟩
      | horizontal =>
        exact ⟨children.length + 1, exists_horizontalRows spacing rect 0 0 (Nat.lt_succ_self _)⟩
    · cases direction with
      | vertical =>
        obtain ⟨others, hothers, rfl⟩ :=
          Option.map_eq_some_iff.mp ((htransposed turns).symm.trans hrows)
        obtain ⟨other, hother, rfl⟩ := List.mem_map.mp hrow
        exact spaced_transpose (spaced_of_horizontalRows hothers other hother)
      | horizontal => exact spaced_of_horizontalRows hrows row hrow

/-- A child of ten by ten, in a container that is not at the diagonal. -/
theorem not_lays_offset : ¬Lays 8 ⟨100, 0, 200, 100⟩
    [⟨true, ⟨10, 10⟩, ⟨10, 10⟩, by decide, by decide⟩] := by
  intro h
  have hrows := h.transposed 2
  exact absurd hrows (by decide)

end WrapBox

end Uberos
