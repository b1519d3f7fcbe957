import Mathlib.Data.List.Perm.Basic
import Uberos.DesktopManager.Model
import Uberos.DisplayManager.Paint
/-!
# Strips

What docking is for, without the windows: strips that are laid one after
another along a side of what the ones before them leave. They and what is
left in the end make up the area, and none meets another. When one of them
is gone, those behind it close up, and the area is as if they had been
laid without it.
-/

namespace Uberos

namespace DesktopManager

/-! ## One strip -/

/-- A strip along a side of an area, from end to end of it. -/
def IsStrip : DockedType → Rect → Rect → Prop
  | .top, a, r => r.x1 = a.x1 ∧ r.x2 = a.x2 ∧ r.y1 = a.y1 ∧ r.y2 ≤ a.y2 ∧ r.x1 < r.x2 ∧ r.y1 < r.y2
  | .bottom, a, r =>
    r.x1 = a.x1 ∧ r.x2 = a.x2 ∧ a.y1 ≤ r.y1 ∧ r.y2 = a.y2 ∧ r.x1 < r.x2 ∧ r.y1 < r.y2
  | .left, a, r => r.y1 = a.y1 ∧ r.y2 = a.y2 ∧ r.x1 = a.x1 ∧ r.x2 ≤ a.x2 ∧ r.x1 < r.x2 ∧ r.y1 < r.y2
  | .right, a, r =>
    r.y1 = a.y1 ∧ r.y2 = a.y2 ∧ a.x1 ≤ r.x1 ∧ r.x2 = a.x2 ∧ r.x1 < r.x2 ∧ r.y1 < r.y2
  | .full, _, _ => False

instance (type : DockedType) (a r : Rect) : Decidable (IsStrip type a r) := by
  cases type <;> unfold IsStrip <;> infer_instance

/-- Within another, side by side. -/
def Inside (r a : Rect) : Prop := a.x1 ≤ r.x1 ∧ r.x2 ≤ a.x2 ∧ a.y1 ≤ r.y1 ∧ r.y2 ≤ a.y2

/-- What it leaves. -/
def cut : DockedType → Rect → Rect → Rect
  | .top, a, r => { a with y1 := max a.y1 r.y2 }
  | .bottom, a, r => { a with y2 := min a.y2 r.y1 }
  | .left, a, r => { a with x1 := max a.x1 r.x2 }
  | .right, a, r => { a with x2 := min a.x2 r.x1 }
  | .full, a, _ => a

/-- What it leaves when another on that side is gone. -/
def giveBack : DockedType → Rect → Rect → Rect
  | .top, gone, a => { a with y1 := a.y1 - gone.height }
  | .bottom, gone, a => { a with y2 := a.y2 + gone.height }
  | .left, gone, a => { a with x1 := a.x1 - gone.width }
  | .right, gone, a => { a with x2 := a.x2 + gone.width }
  | .full, _, a => a

/-- Where a strip goes that is behind the one that is gone: one on its
side moves, and one that ends at it is longer. -/
def closed : DockedType → Rect → DockedType → Rect → Rect
  | .top, gone, .top, r => r.offset 0 (-gone.height)
  | .top, _, .bottom, r => r
  | .bottom, gone, .bottom, r => r.offset 0 gone.height
  | .bottom, _, .top, r => r
  | .left, gone, .left, r => r.offset (-gone.width) 0
  | .left, _, .right, r => r
  | .right, gone, .right, r => r.offset gone.width 0
  | .right, _, .left, r => r
  | type, gone, _, r => giveBack type gone r

/-- The other side. -/
def opposite : DockedType → DockedType
  | .top => .bottom
  | .bottom => .top
  | .left => .right
  | .right => .left
  | .full => .full

/-- What begins there stays where it is. -/
theorem closed_opposite {type : DockedType} (hfull : type ≠ .full) (gone r : Rect) :
    closed type gone (opposite type) r = r := by
  cases type with
  | full => exact absurd rfl hfull
  | _ => rfl

/-- Behind it, of those that do not begin at the other side. -/
def Behind : DockedType → Rect → DockedType → Rect → Prop
  | .top, gone, type, r => type ≠ .bottom ∧ gone.y2 ≤ r.y1
  | .bottom, gone, type, r => type ≠ .top ∧ r.y2 ≤ gone.y1
  | .left, gone, type, r => type ≠ .right ∧ gone.x2 ≤ r.x1
  | .right, gone, type, r => type ≠ .left ∧ r.x2 ≤ gone.x1
  | .full, _, _, _ => False

instance (type : DockedType) (gone : Rect) (type' : DockedType) (r : Rect) :
    Decidable (Behind type gone type' r) := by
  cases type <;> unfold Behind <;> infer_instance

variable {type type' : DockedType} {a r gone : Rect} {x y : ℤ}

/-- What begins at the other side is not behind. -/
theorem not_behind_opposite : ¬ Behind type gone (opposite type) r := by
  cases type <;> simp [Behind, opposite]

/-- No place is in two of these. -/
theorem contains_cut (h : IsStrip type a r) :
    (cut type a r).contains x y ↔ a.contains x y ∧ ¬ r.contains x y := by
  cases type with
  | full => exact h.elim
  | _ =>
    simp only [IsStrip] at h
    simp only [cut, Rect.contains]
    omega

/-- A strip is in its area. -/
theorem contains_of_strip (h : IsStrip type a r) (hr : r.contains x y) : a.contains x y := by
  cases type with
  | full => exact h.elim
  | _ =>
    simp only [IsStrip] at h
    simp only [Rect.contains] at hr ⊢
    omega

/-- The area has room for what is behind a strip that is gone. -/
theorem isStrip_closed (hgone : 0 ≤ gone.width ∧ 0 ≤ gone.height) (h : IsStrip type' a r) :
    IsStrip type' (giveBack type gone a) (closed type gone type' r) := by
  simp only [Rect.width, Rect.height] at hgone
  cases type' with
  | full => exact h.elim
  | _ =>
    simp only [IsStrip] at h
    cases type with
    | _ =>
      simp only [IsStrip, giveBack, closed, Rect.offset, Rect.width, Rect.height]
      omega

theorem cut_closed (h : IsStrip type' a r) :
    cut type' (giveBack type gone a) (closed type gone type' r) =
      giveBack type gone (cut type' a r) := by
  cases type' with
  | full => exact h.elim
  | _ =>
    simp only [IsStrip] at h
    cases type with
    | _ =>
      simp only [cut, giveBack, closed, Rect.offset, Rect.width, Rect.height, Rect.mk.injEq,
        true_and, and_true]
      try omega

/-- It takes up no more. -/
theorem inside_cut_closed (hgone : 0 ≤ gone.width ∧ 0 ≤ gone.height) :
    Inside (cut type' a r) (cut type' a (closed type gone type' r)) := by
  simp only [Rect.width, Rect.height] at hgone
  cases type <;> cases type' <;>
    simp only [Inside, cut, closed, giveBack, Rect.offset, Rect.width, Rect.height] <;> omega

/-- With what it takes up, the area is what it was. -/
theorem giveBack_cut (h : IsStrip type a r) : giveBack type r (cut type a r) = a := by
  cases type with
  | full => exact h.elim
  | _ =>
    simp only [IsStrip] at h
    obtain ⟨x1, y1, x2, y2⟩ := a
    simp only [giveBack, cut, Rect.width, Rect.height, Rect.mk.injEq, true_and, and_true] at h ⊢
    omega

/-! ## Within another -/

variable {b r' : Rect}

theorem Inside.refl (r : Rect) : Inside r r :=
  ⟨le_rfl, le_rfl, le_rfl, le_rfl⟩

theorem Inside.trans {r a b : Rect} (h : Inside r a) (h' : Inside a b) : Inside r b := by
  unfold Inside at h h' ⊢
  omega

theorem inside_cut : Inside (cut type a r) a := by
  cases type <;> simp only [Inside, cut] <;> omega

/-- More of more is left. -/
theorem Inside.cut (h : Inside a b) : Inside (cut type a r) (cut type b r) := by
  cases type <;> simp only [Inside, DesktopManager.cut] at h ⊢ <;> omega

/-- In whichever order. -/
theorem cut_comm : cut type (cut type' a r') r = cut type' (cut type a r) r' := by
  cases type <;> cases type' <;>
    simp only [cut, Rect.mk.injEq, true_and, and_true] <;> omega

/-! ## One after another -/

variable {ι : Type} {rect rect' : ι → Rect} {types : ι → DockedType} {is js : List ι} {i j : ι}
variable {area final : Rect}

/-- **Strips laid one after another**, each in what is left, and what is
left of the area in the end. -/
inductive Laid (rect : ι → Rect) (types : ι → DockedType) : Rect → List ι → Rect → Prop
  | nil (area : Rect) : Laid rect types area [] area
  | cons {area final : Rect} {i : ι} {is : List ι} (hstrip : IsStrip (types i) area (rect i))
      (hrest : Laid rect types (cut (types i) area (rect i)) is final) :
      Laid rect types area (i :: is) final

theorem laid_append : Laid rect types area (is ++ js) final ↔
    ∃ middle, Laid rect types area is middle ∧ Laid rect types middle js final := by
  induction is generalizing area with
  | nil =>
    refine ⟨fun h => ⟨area, .nil area, h⟩, ?_⟩
    rintro ⟨middle, hnil, h⟩
    cases hnil
    exact h
  | cons i is ih =>
    constructor
    · intro h
      cases h with
      | cons hstrip hrest =>
        obtain ⟨middle, his, hjs⟩ := ih.1 hrest
        exact ⟨middle, .cons hstrip his, hjs⟩
    · rintro ⟨middle, h, hjs⟩
      cases h with
      | cons hstrip hrest => exact .cons hstrip (ih.2 ⟨middle, hrest, hjs⟩)

theorem laid_singleton : Laid rect types area [i] final ↔
    IsStrip (types i) area (rect i) ∧ final = cut (types i) area (rect i) := by
  constructor
  · intro h
    cases h with
    | cons hstrip hrest =>
      cases hrest
      exact ⟨hstrip, rfl⟩
  · rintro ⟨hstrip, rfl⟩
    exact .cons hstrip (.nil _)

/-- Only these strips matter. -/
theorem Laid.congr (h : Laid rect types area is final) (hrect : ∀ i ∈ is, rect' i = rect i)
    {types' : ι → DockedType} (htypes : ∀ i ∈ is, types' i = types i) :
    Laid rect' types' area is final := by
  induction h with
  | nil area => exact .nil area
  | @cons area final i is hstrip hrest ih =>
    have hi := hrect i List.mem_cons_self
    have hti := htypes i List.mem_cons_self
    rw [← hi, ← hti] at hstrip
    have hlater := ih (fun j hj => hrect j (List.mem_cons_of_mem _ hj))
      fun j hj => htypes j (List.mem_cons_of_mem _ hj)
    rw [← hi, ← hti] at hlater
    exact .cons hstrip hlater

/-- **What is left is what no strip takes.** -/
theorem Laid.contains_iff (h : Laid rect types area is final) :
    final.contains x y ↔ area.contains x y ∧ ∀ i ∈ is, ¬ (rect i).contains x y := by
  induction h with
  | nil area => simp
  | cons hstrip hrest ih =>
    rw [ih, contains_cut hstrip, List.forall_mem_cons, and_assoc]

/-- Each strip is in the area. -/
theorem Laid.contains_area (h : Laid rect types area is final) (hi : i ∈ is)
    (hx : (rect i).contains x y) : area.contains x y := by
  induction h with
  | nil area => cases hi
  | cons hstrip hrest ih =>
    rcases List.mem_cons.1 hi with rfl | hi
    · exact contains_of_strip hstrip hx
    · exact ((contains_cut hstrip).1 (ih hi)).1

/-- **No two strips meet.** -/
theorem Laid.pairwise (h : Laid rect types area is final) :
    is.Pairwise fun i j => ∀ x y, ¬ ((rect i).contains x y ∧ (rect j).contains x y) := by
  induction h with
  | nil area => exact .nil
  | cons hstrip hrest ih =>
    refine List.pairwise_cons.2 ⟨fun j hj x y hboth => ?_, ih⟩
    exact ((contains_cut hstrip).1 (hrest.contains_area hj hboth.2)).2 hboth.1

/-- The sides of a strip are between those of the area. -/
theorem Laid.bounds (h : Laid rect types area is final) (hi : i ∈ is) :
    area.x1 ≤ (rect i).x1 ∧ (rect i).x2 ≤ area.x2 ∧ area.y1 ≤ (rect i).y1 ∧
      (rect i).y2 ≤ area.y2 ∧ (rect i).x1 < (rect i).x2 ∧ (rect i).y1 < (rect i).y2 := by
  induction h with
  | nil area => cases hi
  | @cons area final j is hstrip hrest ih =>
    rcases List.mem_cons.1 hi with rfl | hi
    · cases htype : types i with
      | full =>
        rw [htype] at hstrip
        exact hstrip.elim
      | _ =>
        rw [htype] at hstrip
        simp only [IsStrip] at hstrip
        omega
    · have hbounds := ih hi
      cases htype : types j with
      | full => rwa [htype] at hbounds
      | _ =>
        rw [htype] at hbounds
        simp only [cut] at hbounds
        omega

/-! ## When one is gone -/

/-- **Those behind one that is gone close up**, and are laid as in an area
that has what it took. -/
theorem Laid.close (h : Laid rect types area is final) (hgone : 0 ≤ gone.width ∧ 0 ≤ gone.height)
    (hclosed : ∀ i ∈ is, rect' i = closed type gone (types i) (rect i)) :
    Laid rect' types (giveBack type gone area) is (giveBack type gone final) := by
  induction h with
  | nil area => exact .nil _
  | @cons area final i is hstrip hrest ih =>
    have hi := hclosed i List.mem_cons_self
    have hlater := ih fun j hj => hclosed j (List.mem_cons_of_mem _ hj)
    rw [← cut_closed hstrip, ← hi] at hlater
    refine .cons ?_ hlater
    rw [hi]
    exact isStrip_closed hgone hstrip

/-- **One of them goes**: those before it stay. -/
theorem Laid.remove (h : Laid rect types area (is ++ i :: js) final)
    (hbefore : ∀ j ∈ is, rect' j = rect j)
    (hafter : ∀ j ∈ js, rect' j = closed (types i) (rect i) (types j) (rect j)) :
    Laid rect' types area (is ++ js) (giveBack (types i) (rect i) final) := by
  obtain ⟨middle, his, hi⟩ := laid_append.1 h
  refine laid_append.2 ⟨middle, his.congr hbefore fun _ _ => rfl, ?_⟩
  have hbounds := hi.bounds List.mem_cons_self
  cases hi with
  | cons hstrip hjs =>
    have hgone : 0 ≤ (rect i).width ∧ 0 ≤ (rect i).height := by
      simp only [Rect.width, Rect.height]
      omega
    have hclose := hjs.close hgone hafter
    rwa [giveBack_cut hstrip] at hclose

/-- **What is laid after a strip is behind it**, unless it begins at the
other side. -/
theorem Laid.behind (h : Laid rect types area (i :: js) final) (hj : j ∈ js)
    (hside : types j ≠ opposite (types i)) :
    Behind (types i) (rect i) (types j) (rect j) := by
  cases h with
  | cons hstrip hrest =>
    have hbounds := hrest.bounds hj
    cases hi : types i with
    | full =>
      rw [hi] at hstrip
      exact hstrip.elim
    | _ =>
      rw [hi] at hbounds hside
      simp only [cut] at hbounds
      refine ⟨hside, ?_⟩
      omega

/-- What is laid before it is not. -/
theorem Laid.not_behind (h : Laid rect types area (is ++ i :: js) final) (hj : j ∈ is) :
    ¬ Behind (types i) (rect i) (types j) (rect j) := by
  obtain ⟨before, between, rfl⟩ := List.append_of_mem hj
  rw [List.append_assoc, List.cons_append, laid_append] at h
  obtain ⟨middle, -, h⟩ := h
  cases h with
  | cons hstrip hrest =>
    have hbounds := hrest.bounds (List.mem_append_right _ List.mem_cons_self)
    intro hbehind
    cases hi : types i with
    | full =>
      rw [hi] at hbehind
      exact hbehind.elim
    | _ =>
      rw [hi] at hbehind
      cases hj' : types j with
      | full =>
        rw [hj'] at hstrip
        exact hstrip.elim
      | _ =>
        rw [hj'] at hbehind hstrip hbounds
        simp only [Behind, IsStrip, cut] at hbehind hstrip hbounds
        obtain ⟨hside, hbehind⟩ := hbehind
        first | exact hside rfl | omega

/-! ## Across its side -/

/-- An area that is clear of a strip across the strip's side. -/
def Clear : DockedType → Rect → Rect → Prop
  | .left, gone, a => a.x1 ≤ gone.x1 ∧ gone.x2 ≤ a.x2
  | .right, gone, a => a.x1 ≤ gone.x1 ∧ gone.x2 ≤ a.x2
  | .top, gone, a => a.y1 ≤ gone.y1 ∧ gone.y2 ≤ a.y2
  | .bottom, gone, a => a.y1 ≤ gone.y1 ∧ gone.y2 ≤ a.y2
  | .full, _, _ => True

/-- Strips that are apart there, or that begin at different sides. -/
def Apart : DockedType → Rect → DockedType → Rect → Prop
  | .left, gone, .left, r => r.x2 ≤ gone.x1
  | .left, gone, .right, r => gone.x2 ≤ r.x1
  | .right, gone, .left, r => r.x2 ≤ gone.x1
  | .right, gone, .right, r => gone.x2 ≤ r.x1
  | .top, gone, .top, r => r.y2 ≤ gone.y1
  | .top, gone, .bottom, r => gone.y2 ≤ r.y1
  | .bottom, gone, .top, r => r.y2 ≤ gone.y1
  | .bottom, gone, .bottom, r => gone.y2 ≤ r.y1
  | _, _, _, _ => True

/-- A strip behind another that begins at neither of its sides is apart
from it, wherever it is. -/
theorem apart_of_behind {r' : Rect} (h : Behind type gone type' r) (hne : type' ≠ type) :
    Apart type gone type' r' := by
  cases type <;> cases type' <;> simp_all [Behind, Apart]

theorem Clear.cut (h : Clear type gone a) (hapart : Apart type gone type' r) :
    Clear type gone (cut type' a r) := by
  cases type <;> cases type' <;>
    simp only [Clear, Apart, DesktopManager.cut] at h hapart ⊢ <;> omega

theorem Laid.clear_area (h : Laid rect types area is final) (hi : i ∈ is) (type : DockedType) :
    Clear type (rect i) area := by
  have hbounds := h.bounds hi
  cases type <;> simp only [Clear] <;> omega

/-- **Two strips are apart**, unless they are of one side and the other is
behind. -/
theorem Laid.apart (h : Laid rect types area is final) (hi : i ∈ is) (hj : j ∈ is) (hne : j ≠ i)
    (hbehind : types j = types i → ¬ Behind (types i) (rect i) (types j) (rect j)) :
    Apart (types i) (rect i) (types j) (rect j) := by
  induction h with
  | nil area => cases hi
  | @cons area final k is hstrip hrest ih =>
    rcases List.mem_cons.1 hi with rfl | hlater
    · rcases List.mem_cons.1 hj with rfl | hafter
      · exact absurd rfl hne
      · -- What is laid after it is past it.
        have hbounds := hrest.bounds hafter
        cases hti : types i <;> cases htj : types j <;>
          simp only [hti, htj, Behind, Apart, cut, IsStrip, forall_const] at hbounds hbehind hstrip ⊢
        all_goals first | omega | (exfalso; apply hbehind; refine ⟨by decide, ?_⟩; omega)
    · rcases List.mem_cons.1 hj with rfl | hafter
      · have hbounds := hrest.bounds hlater
        cases types i <;> cases htj : types j <;>
          simp only [htj, Apart, cut, IsStrip] at hbounds hstrip ⊢
        all_goals omega
      · exact ih hlater hafter

end DesktopManager

end Uberos
