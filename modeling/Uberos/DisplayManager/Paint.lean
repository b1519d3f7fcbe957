import Uberos.DisplayManager.Scan
/-!
# What painting does to the pixels

Which places are in the rectangles the painting is cut to, and which
pixels of a framebuffer are set, to which colours, when it is painted row
by row in runs. The rest stay.
-/

namespace Uberos

/-! ## Rectangles -/

namespace Rect

variable {r s : Rect} {x y dx dy : ℤ}

/-- A side that comes to nothing has no place, zero or not. -/
theorem contains_side {x1 x2 : ℤ} :
    (if x2 ≤ x1 then 0 else x1) ≤ x ∧ x < (if x2 ≤ x1 then 0 else x2) ↔ x1 ≤ x ∧ x < x2 := by
  split
  · omega
  · exact Iff.rfl

theorem contains_intersect : (r.intersect s).contains x y ↔ r.contains x y ∧ s.contains x y := by
  simp only [contains, intersect]
  rw [← and_assoc, contains_side, contains_side, Int.max_le, Int.max_le, Int.lt_min, Int.lt_min]
  constructor
  · rintro ⟨⟨⟨h1, h2⟩, h3, h4⟩, ⟨h5, h6⟩, h7, h8⟩
    exact ⟨⟨h1, h3, h5, h7⟩, h2, h4, h6, h8⟩
  · rintro ⟨⟨h1, h3, h5, h7⟩, h2, h4, h6, h8⟩
    exact ⟨⟨⟨h1, h2⟩, h3, h4⟩, ⟨h5, h6⟩, h7, h8⟩

theorem contains_offset : (r.offset dx dy).contains x y ↔ r.contains (x - dx) (y - dy) := by
  simp only [contains, offset]
  omega

/-- A rectangle cut to another and, at an offset, to a third. -/
theorem contains_clip {a : Rect} :
    ((((r.intersect s).offset dx dy).intersect a).offset (-dx) (-dy)).contains x y ↔
      (r.contains x y ∧ s.contains x y) ∧ a.contains (x + dx) (y + dy) := by
  rw [contains_offset, Int.sub_neg, Int.sub_neg, contains_intersect, contains_offset,
    Int.add_sub_cancel, Int.add_sub_cancel, contains_intersect]

/-- What is included has the places of both. -/
theorem contains_extend (h : r.contains x y ∨ s.contains x y) : (r.extend s).contains x y := by
  rw [extend]
  split
  · rcases h with ⟨h1, h2, h3, h4⟩ | ⟨h1, h2, h3, h4⟩
    · exact ⟨(min_le_left _ _).trans h1, h2.trans_le (le_max_left _ _),
        (min_le_left _ _).trans h3, h4.trans_le (le_max_left _ _)⟩
    · exact ⟨(min_le_right _ _).trans h1, h2.trans_le (le_max_right _ _),
        (min_le_right _ _).trans h3, h4.trans_le (le_max_right _ _)⟩
  · rename_i hzero
    simp only [isNonzero, Bool.or_eq_true, decide_eq_true_eq, not_or, ne_eq, not_not] at hzero
    refine h.resolve_left fun hr => ?_
    rw [contains] at hr
    omega

end Rect

namespace Framebuffer

open DisplayManager

variable {Colour : Type} {f f' f'' : Framebuffer Colour} {P Q : ℤ → ℤ → Prop}
variable {colour colour' : ℤ → ℤ → Colour}

/-! ## Rows -/

/-- **These places are set to their colours**, and no others. -/
structure IsSet (f f' : Framebuffer Colour) (P : ℤ → ℤ → Prop) (colour : ℤ → ℤ → Colour) :
    Prop where
  area : f'.area = f.area
  on : ∀ x y, P x y → f'.pixels x y = colour x y
  off : ∀ x y, ¬ P x y → f'.pixels x y = f.pixels x y

namespace IsSet

theorem none (f : Framebuffer Colour) (colour : ℤ → ℤ → Colour) :
    IsSet f f (fun _ _ => False) colour :=
  ⟨rfl, fun _ _ h => absurd h not_false, fun _ _ _ => rfl⟩

theorem trans (h : IsSet f f' P colour) (h' : IsSet f' f'' Q colour) :
    IsSet f f'' (fun x y => P x y ∨ Q x y) colour where
  area := h'.area.trans h.area
  on := by
    intro x y hPQ
    by_cases hQ : Q x y
    · exact h'.on x y hQ
    · rw [h'.off x y hQ]
      exact h.on x y (hPQ.resolve_right hQ)
  off := by
    intro x y hnot
    rw [not_or] at hnot
    rw [h'.off x y hnot.2, h.off x y hnot.1]

theorem congr (h : IsSet f f' P colour) (hPQ : ∀ x y, P x y ↔ Q x y)
    (hcolour : ∀ x y, P x y → colour x y = colour' x y) : IsSet f f' Q colour' where
  area := h.area
  on := by
    intro x y hQ
    have hP := (hPQ x y).2 hQ
    rw [h.on x y hP, hcolour x y hP]
  off := by
    intro x y hQ
    exact h.off x y fun hP => hQ ((hPQ x y).1 hP)

end IsSet

theorem isSet_set (f : Framebuffer Colour) (x1 x2 y : ℤ) (colour : ℤ → Colour) :
    IsSet f (f.set x1 x2 y colour) (fun x y' => y' = y ∧ x1 ≤ x ∧ x < x2) fun x _ => colour x :=
  ⟨rfl, fun _ _ h => if_pos h, fun _ _ h => if_neg h⟩

/-- The runs of a row. -/
theorem isSet_runs (f : Framebuffer Colour) (dx y : ℤ) (runs : List (ℤ × ℤ))
    (colour : ℤ → Colour) :
    IsSet f (runs.foldl (fun f run => f.set (dx + run.1) (dx + run.2) y colour) f)
      (fun x y' => y' = y ∧ Painted runs (x - dx)) fun x _ => colour x := by
  induction runs generalizing f with
  | nil =>
    refine (IsSet.none f _).congr (fun x y' => ?_) fun _ _ _ => rfl
    exact iff_of_false not_false fun h => not_painted_nil h.2
  | cons run runs ih =>
    refine ((isSet_set f (dx + run.1) (dx + run.2) y colour).trans (ih _)).congr (fun x y' => ?_)
      fun _ _ _ => rfl
    have hcons : Painted (run :: runs) (x - dx) ↔
        (run.1 ≤ x - dx ∧ x - dx < run.2) ∨ Painted runs (x - dx) := by
      simp [Painted]
    have hrun : (dx + run.1 ≤ x ∧ x < dx + run.2) ↔ (run.1 ≤ x - dx ∧ x - dx < run.2) := by omega
    rw [hcons, hrun, and_or_left]

/-- **What painting rows does.** -/
theorem isSet_paint (f : Framebuffer Colour) (dx dy y1 y2 : ℤ) (runs : ℤ → List (ℤ × ℤ))
    (colour : ℤ → ℤ → Colour) :
    IsSet f (f.paint dx dy y1 y2 runs colour)
      (fun x y => (y1 ≤ y - dy ∧ y - dy < y2) ∧ Painted (runs (y - dy)) (x - dx))
      fun x y => colour (x - dx) (y - dy) := by
  rw [paint]
  have hrows : ∀ rows : ℕ, IsSet f ((List.range rows).foldl (fun f (row : ℕ) =>
      let y := y1 + row
      (runs y).foldl (fun f run => f.set (dx + run.1) (dx + run.2) (dy + y)
        fun x => colour (x - dx) y) f) f)
      (fun x y => (y1 ≤ y - dy ∧ y - dy < y1 + rows) ∧ Painted (runs (y - dy)) (x - dx))
      fun x y => colour (x - dx) (y - dy) := by
    intro rows
    induction rows with
    | zero =>
      refine (IsSet.none f fun x y => colour (x - dx) (y - dy)).congr (fun x y => ?_)
        fun _ _ _ => rfl
      exact iff_of_false not_false fun h => by omega
    | succ rows ih =>
      rw [List.range_succ, List.foldl_append, List.foldl_cons, List.foldl_nil]
      have hrow := (isSet_runs ((List.range rows).foldl (fun f (row : ℕ) =>
        let y := y1 + row
        (runs y).foldl (fun f run => f.set (dx + run.1) (dx + run.2) (dy + y)
          fun x => colour (x - dx) y) f) f) dx (dy + (y1 + rows)) (runs (y1 + rows))
          fun x => colour (x - dx) (y1 + rows)).congr
        (Q := fun x y => y - dy = y1 + rows ∧ Painted (runs (y - dy)) (x - dx)) (fun x y => ?_)
        fun x y h => (?_ : _ = colour (x - dx) (y - dy))
      · refine (ih.trans hrow).congr (fun x y => ?_) fun _ _ _ => rfl
        rw [← or_and_right]
        refine and_congr_left fun _ => ?_
        omega
      · have hy : y = dy + (y1 + rows) ↔ y - dy = y1 + rows := by omega
        rw [hy]
        exact and_congr_right fun h => by rw [h]
      · have hy : y - dy = y1 + rows := by omega
        rw [hy]
  refine (hrows (y2 - y1).toNat).congr (fun x y => ?_) fun _ _ _ => rfl
  refine and_congr_left fun _ => ?_
  omega

end Framebuffer

end Uberos
