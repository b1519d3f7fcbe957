import Mathlib.Data.Set.BooleanAlgebra
import Mathlib.Order.CompletePartialOrder
import Mathlib.Order.Interval.Set.Basic
import Mathlib.Order.MinMax
import Mathlib.Data.List.Pairwise
/-!
# Sets as lists of intervals

A set of points of a linear order kept as a list of half-open intervals,
from left to right. Adding an interval merges it with those it meets or
touches, cutting one trims, splits and removes, and a query walks the
list until it has passed the interval asked for. On an ordered list they
are union, difference and intersection; a list whose intervals are not
empty and do not touch stays one.
-/

namespace Library

/-- The points from `start` up to `stop`. -/
structure Span (α : Type*) where
  start : α
  stop : α
  deriving DecidableEq, Repr

namespace Span

variable {α : Type*} [LinearOrder α] {r s : Span α} {rs : List (Span α)} {x : α}

/-- The points of the intervals. -/
def covered (rs : List (Span α)) : Set α := {x | ∃ r ∈ rs, r.start ≤ x ∧ x < r.stop}

/-- From left to right, with no point in two of them. -/
def Ordered (rs : List (Span α)) : Prop :=
  rs.Pairwise (fun a b => a.stop ≤ b.start) ∧ ∀ r ∈ rs, r.start ≤ r.stop

/-- From left to right, with a gap between any two, and none empty. -/
def Separated (rs : List (Span α)) : Prop :=
  rs.Pairwise (fun a b => a.stop < b.start) ∧ ∀ r ∈ rs, r.start < r.stop

instance [DecidableLT α] (rs : List (Span α)) : Decidable (Separated rs) :=
  inferInstanceAs (Decidable (_ ∧ _))

/-- `r`, reaching to `stop` or beyond, with the intervals that start no
later than `stop` merged into it. -/
def absorb (stop : α) (r : Span α) : List (Span α) → List (Span α)
  | [] => [r]
  | next :: rs =>
    if next.start ≤ stop then absorb stop ⟨r.start, max r.stop next.stop⟩ rs else r :: next :: rs

/-- The intervals with `r` added. -/
def add (r : Span α) : List (Span α) → List (Span α)
  | [] => [r]
  | s :: rs =>
    if r.stop < s.start then r :: s :: rs
    else if s.stop < r.start then s :: add r rs
    else if s.stop < r.stop then absorb r.stop ⟨min r.start s.start, r.stop⟩ rs
    else ⟨min r.start s.start, s.stop⟩ :: rs

/-- The intervals with `r` taken out. -/
def cut (r : Span α) : List (Span α) → List (Span α)
  | [] => []
  | s :: rs =>
    if r.stop ≤ s.start then s :: rs
    else if s.stop ≤ r.start then s :: cut r rs
    else if r.start ≤ s.start ∧ s.stop ≤ r.stop then cut r rs
    else if s.start < r.start then
      if r.stop < s.stop then ⟨s.start, r.start⟩ :: ⟨r.stop, s.stop⟩ :: rs
      else ⟨s.start, r.start⟩ :: cut r rs
    else if r.stop < s.stop then ⟨r.stop, s.stop⟩ :: cut r rs
    else s :: cut r rs

/-- Whether `r` meets one of the intervals. -/
def meets (r : Span α) : List (Span α) → Bool
  | [] => false
  | s :: rs =>
    if r.stop ≤ s.start then false else if s.stop ≤ r.start then meets r rs else true

@[simp] theorem covered_nil : covered ([] : List (Span α)) = ∅ := by
  simp [covered]

@[simp] theorem covered_cons : covered (r :: rs) = Set.Ico r.start r.stop ∪ covered rs := by
  ext x
  simp [covered]

theorem ordered_nil : Ordered ([] : List (Span α)) :=
  ⟨List.Pairwise.nil, fun _ hr => absurd hr List.not_mem_nil⟩

theorem ordered_cons :
    Ordered (r :: rs) ↔ (∀ s ∈ rs, r.stop ≤ s.start) ∧ r.start ≤ r.stop ∧ Ordered rs := by
  simp only [Ordered, List.pairwise_cons, List.forall_mem_cons]
  tauto

theorem separated_nil : Separated ([] : List (Span α)) :=
  ⟨List.Pairwise.nil, fun _ hr => absurd hr List.not_mem_nil⟩

theorem separated_cons :
    Separated (r :: rs) ↔ (∀ s ∈ rs, r.stop < s.start) ∧ r.start < r.stop ∧ Separated rs := by
  simp only [Separated, List.pairwise_cons, List.forall_mem_cons]
  tauto

theorem Separated.ordered (h : Separated rs) : Ordered rs :=
  ⟨h.1.imp le_of_lt, fun r hr => (h.2 r hr).le⟩

/-! ## Adding -/

/-- What `absorb` covers, and where its intervals start. -/
theorem covered_absorb {stop : α} (h : Ordered rs) (hr : r.start ≤ stop) (hstop : stop ≤ r.stop)
    (hle : ∀ s ∈ rs, r.start ≤ s.start) :
    covered (absorb stop r rs) = Set.Ico r.start r.stop ∪ covered rs := by
  induction rs generalizing r with
  | nil => simp [absorb]
  | cons next rs ih =>
    obtain ⟨hnext, hnonempty, hrest⟩ := ordered_cons.1 h
    rw [absorb]
    split
    · rename_i hmerge
      have hstart := hle next (List.mem_cons_self ..)
      have hrec : covered (absorb stop ⟨r.start, max r.stop next.stop⟩ rs) =
          Set.Ico r.start (max r.stop next.stop) ∪ covered rs :=
        ih hrest hr (hstop.trans (le_max_left _ _)) fun s hs => hle s (List.mem_cons_of_mem _ hs)
      rw [hrec, covered_cons, ← Set.union_assoc]
      congr 1
      ext x
      simp only [Set.mem_Ico, Set.mem_union, lt_max_iff]
      constructor
      · rintro ⟨hx, hx' | hx'⟩
        · exact Or.inl ⟨hx, hx'⟩
        · rcases lt_or_ge x r.stop with hlt | hge
          · exact Or.inl ⟨hx, hlt⟩
          · exact Or.inr ⟨hmerge.trans (hstop.trans hge), hx'⟩
      · rintro (⟨hx, hx'⟩ | ⟨hx, hx'⟩)
        · exact ⟨hx, Or.inl hx'⟩
        · exact ⟨hstart.trans hx, Or.inr hx'⟩
    · rw [covered_cons]

/-- **Adding is union.** -/
theorem covered_add (h : Ordered rs) (hr : r.start ≤ r.stop) :
    covered (add r rs) = covered rs ∪ Set.Ico r.start r.stop := by
  induction rs with
  | nil => simp [add]
  | cons s rs ih =>
    obtain ⟨hs, hnonempty, hrest⟩ := ordered_cons.1 h
    rw [add]
    split
    · rw [covered_cons, Set.union_comm]
    split
    · rw [covered_cons, covered_cons, ih hrest, Set.union_assoc]
    rename_i hstart hstop
    rw [not_lt] at hstart hstop
    split
    · rename_i hgrow
      have hmin : ∀ t ∈ rs, min r.start s.start ≤ t.start := fun t ht =>
        (min_le_right _ _).trans (hnonempty.trans (hs t ht))
      have hmerged : covered (absorb r.stop ⟨min r.start s.start, r.stop⟩ rs) =
          Set.Ico (min r.start s.start) r.stop ∪ covered rs :=
        covered_absorb hrest ((min_le_left _ _).trans hr) le_rfl hmin
      rw [hmerged, covered_cons, Set.union_right_comm]
      congr 1
      ext x
      simp only [Set.mem_Ico, Set.mem_union, min_le_iff]
      constructor
      · rintro ⟨hx | hx, hx'⟩
        · exact Or.inr ⟨hx, hx'⟩
        · rcases lt_or_ge x s.stop with hlt | hge
          · exact Or.inl ⟨hx, hlt⟩
          · exact Or.inr ⟨hstop.trans hge, hx'⟩
      · rintro (⟨hx, hx'⟩ | ⟨hx, hx'⟩)
        · exact ⟨Or.inr hx, hx'.trans hgrow⟩
        · exact ⟨Or.inl hx, hx'⟩
    · rename_i hkeep
      rw [not_lt] at hkeep
      rw [covered_cons, covered_cons, Set.union_right_comm]
      congr 1
      ext x
      simp only [Set.mem_Ico, Set.mem_union, min_le_iff]
      constructor
      · rintro ⟨hx | hx, hx'⟩
        · rcases lt_or_ge x r.stop with hlt | hge
          · exact Or.inr ⟨hx, hlt⟩
          · exact Or.inl ⟨hstart.trans hge, hx'⟩
        · exact Or.inl ⟨hx, hx'⟩
      · rintro (⟨hx, hx'⟩ | ⟨hx, hx'⟩)
        · exact ⟨Or.inr hx, hx'⟩
        · exact ⟨Or.inl hx, lt_of_lt_of_le hx' hkeep⟩

/-- What `absorb` keeps starts where `r` or one of the intervals did. -/
theorem start_absorb {stop : α} (hs : s ∈ absorb stop r rs) :
    s.start = r.start ∨ ∃ t ∈ rs, s.start = t.start := by
  induction rs generalizing r with
  | nil =>
    rw [absorb, List.mem_singleton] at hs
    exact Or.inl (by rw [hs])
  | cons next rs ih =>
    rw [absorb] at hs
    split at hs
    · rcases ih hs with heq | ⟨t, ht, heq⟩
      · exact Or.inl heq
      · exact Or.inr ⟨t, List.mem_cons_of_mem _ ht, heq⟩
    · rcases List.mem_cons.1 hs with rfl | hs
      · exact Or.inl rfl
      · exact Or.inr ⟨s, hs, rfl⟩

theorem start_add (hs : s ∈ add r rs) : s.start = r.start ∨ ∃ t ∈ rs, s.start = t.start := by
  induction rs with
  | nil =>
    rw [add, List.mem_singleton] at hs
    exact Or.inl (by rw [hs])
  | cons t rs ih =>
    rw [add] at hs
    have hmin : min r.start t.start = r.start ∨ ∃ u ∈ t :: rs, min r.start t.start = u.start :=
      (min_choice r.start t.start).imp_right fun h => ⟨t, List.mem_cons_self .., h⟩
    split at hs
    · rcases List.mem_cons.1 hs with rfl | hs
      · exact Or.inl rfl
      · exact Or.inr ⟨s, hs, rfl⟩
    split at hs
    · rcases List.mem_cons.1 hs with rfl | hs
      · exact Or.inr ⟨s, List.mem_cons_self .., rfl⟩
      · exact (ih hs).imp_right fun ⟨u, hu, heq⟩ => ⟨u, List.mem_cons_of_mem _ hu, heq⟩
    split at hs
    · rcases start_absorb hs with heq | ⟨u, hu, heq⟩
      · rw [heq]
        exact hmin
      · exact Or.inr ⟨u, List.mem_cons_of_mem _ hu, heq⟩
    · rcases List.mem_cons.1 hs with rfl | hs
      · exact hmin
      · exact Or.inr ⟨s, List.mem_cons_of_mem _ hs, rfl⟩

theorem ordered_absorb {stop : α} (h : Ordered rs) (hr : r.start ≤ r.stop)
    (hgap : ∀ s ∈ rs, stop < s.start → r.stop ≤ s.start) : Ordered (absorb stop r rs) := by
  induction rs generalizing r with
  | nil => exact ordered_cons.2 ⟨fun _ hs => absurd hs List.not_mem_nil, hr, ordered_nil⟩
  | cons next rs ih =>
    obtain ⟨hnext, hnonempty, hrest⟩ := ordered_cons.1 h
    rw [absorb]
    split
    · refine ih hrest (hr.trans (le_max_left _ _)) fun s hs hlt => ?_
      exact max_le (hgap s (List.mem_cons_of_mem _ hs) hlt) (hnext s hs)
    · rename_i hbeyond
      rw [not_le] at hbeyond
      have hfirst := hgap next (List.mem_cons_self ..) hbeyond
      refine ordered_cons.2 ⟨fun s hs => ?_, hr, h⟩
      rcases List.mem_cons.1 hs with rfl | hs
      · exact hfirst
      · exact hfirst.trans (hnonempty.trans (hnext s hs))

/-- **Adding keeps the list ordered.** -/
theorem Ordered.add (h : Ordered rs) (hr : r.start ≤ r.stop) : Ordered (add r rs) := by
  induction rs with
  | nil => exact ordered_cons.2 ⟨fun _ hs => absurd hs List.not_mem_nil, hr, ordered_nil⟩
  | cons s rs ih =>
    obtain ⟨hs, hnonempty, hrest⟩ := ordered_cons.1 h
    rw [Span.add]
    split
    · rename_i hlt
      refine ordered_cons.2 ⟨fun t ht => ?_, hr, h⟩
      rcases List.mem_cons.1 ht with rfl | ht
      · exact hlt.le
      · exact hlt.le.trans (hnonempty.trans (hs t ht))
    split
    · rename_i hlt
      refine ordered_cons.2 ⟨fun t ht => ?_, hnonempty, ih hrest⟩
      rcases start_add ht with heq | ⟨u, hu, heq⟩
      · rw [heq]
        exact hlt.le
      · rw [heq]
        exact hs u hu
    split
    · exact ordered_absorb hrest ((min_le_left _ _).trans hr) fun _ _ hlt => hlt.le
    · exact ordered_cons.2 ⟨hs, (min_le_right _ _).trans hnonempty, hrest⟩

theorem separated_absorb {stop : α} (h : Separated rs) (hr : r.start < r.stop)
    (hgap : ∀ s ∈ rs, stop < s.start → r.stop < s.start) : Separated (absorb stop r rs) := by
  induction rs generalizing r with
  | nil => exact separated_cons.2 ⟨fun _ hs => absurd hs List.not_mem_nil, hr, separated_nil⟩
  | cons next rs ih =>
    obtain ⟨hnext, hnonempty, hrest⟩ := separated_cons.1 h
    rw [absorb]
    split
    · refine ih hrest (lt_of_lt_of_le hr (le_max_left _ _)) fun s hs hlt => ?_
      exact max_lt (hgap s (List.mem_cons_of_mem _ hs) hlt) (hnext s hs)
    · rename_i hbeyond
      rw [not_le] at hbeyond
      have hfirst := hgap next (List.mem_cons_self ..) hbeyond
      refine separated_cons.2 ⟨fun s hs => ?_, hr, h⟩
      rcases List.mem_cons.1 hs with rfl | hs
      · exact hfirst
      · exact hfirst.trans (hnonempty.trans (hnext s hs))

/-- **Adding keeps the gaps**: what it would touch it merges. -/
theorem Separated.add (h : Separated rs) (hr : r.start < r.stop) : Separated (add r rs) := by
  induction rs with
  | nil => exact separated_cons.2 ⟨fun _ hs => absurd hs List.not_mem_nil, hr, separated_nil⟩
  | cons s rs ih =>
    obtain ⟨hs, hnonempty, hrest⟩ := separated_cons.1 h
    rw [Span.add]
    split
    · rename_i hlt
      refine separated_cons.2 ⟨fun t ht => ?_, hr, h⟩
      rcases List.mem_cons.1 ht with rfl | ht
      · exact hlt
      · exact hlt.trans (hnonempty.trans (hs t ht))
    split
    · rename_i hlt
      refine separated_cons.2 ⟨fun t ht => ?_, hnonempty, ih hrest⟩
      rcases start_add ht with heq | ⟨u, hu, heq⟩
      · rw [heq]
        exact hlt
      · rw [heq]
        exact hs u hu
    split
    · exact separated_absorb hrest (lt_of_le_of_lt (min_le_left _ _) hr) fun _ _ hlt => hlt
    · exact separated_cons.2 ⟨hs, lt_of_le_of_lt (min_le_right _ _) hnonempty, hrest⟩

/-! ## Cutting -/

/-- What a cut leaves is part of what was there. -/
theorem mem_cut (hs : s ∈ cut r rs) : ∃ t ∈ rs, t.start ≤ s.start ∧ s.stop ≤ t.stop := by
  induction rs with
  | nil => exact absurd hs List.not_mem_nil
  | cons t rs ih =>
    have hrest : s ∈ cut r rs → ∃ u ∈ t :: rs, u.start ≤ s.start ∧ s.stop ≤ u.stop := fun h =>
      let ⟨u, hu, hpart⟩ := ih h
      ⟨u, List.mem_cons_of_mem _ hu, hpart⟩
    have hself : s ∈ t :: rs → ∃ u ∈ t :: rs, u.start ≤ s.start ∧ s.stop ≤ u.stop := fun h =>
      ⟨s, h, le_rfl, le_rfl⟩
    have hhead : t.start ≤ s.start ∧ s.stop ≤ t.stop →
        ∃ u ∈ t :: rs, u.start ≤ s.start ∧ s.stop ≤ u.stop := fun h =>
      ⟨t, List.mem_cons_self .., h⟩
    rw [cut] at hs
    split at hs
    · exact hself hs
    rename_i hstart
    rw [not_le] at hstart
    split at hs
    · rcases List.mem_cons.1 hs with rfl | hs
      · exact hself (List.mem_cons_self ..)
      · exact hrest hs
    rename_i hstop
    rw [not_le] at hstop
    split at hs
    · exact hrest hs
    split at hs
    · split at hs
      · rcases List.mem_cons.1 hs with rfl | hs
        · exact hhead ⟨le_rfl, hstop.le⟩
        rcases List.mem_cons.1 hs with rfl | hs
        · exact hhead ⟨hstart.le, le_rfl⟩
        · exact hself (List.mem_cons_of_mem _ hs)
      · rcases List.mem_cons.1 hs with rfl | hs
        · exact hhead ⟨le_rfl, hstop.le⟩
        · exact hrest hs
    split at hs
    · rcases List.mem_cons.1 hs with rfl | hs
      · exact hhead ⟨hstart.le, le_rfl⟩
      · exact hrest hs
    · rcases List.mem_cons.1 hs with rfl | hs
      · exact hself (List.mem_cons_self ..)
      · exact hrest hs

theorem covered_cut_subset : covered (cut r rs) ⊆ covered rs := by
  rintro x ⟨s, hs, hx, hx'⟩
  obtain ⟨t, ht, hstart, hstop⟩ := mem_cut hs
  exact ⟨t, ht, hstart.trans hx, lt_of_lt_of_le hx' hstop⟩

/-- **Cutting is difference.** -/
theorem covered_cut (h : Ordered rs) :
    covered (cut r rs) = covered rs \ Set.Ico r.start r.stop := by
  induction rs with
  | nil => simp [cut]
  | cons s rs ih =>
    obtain ⟨hs, hnonempty, hrest⟩ := ordered_cons.1 h
    have hbeyond : ∀ x ∈ covered rs, s.stop ≤ x := fun x ⟨t, ht, hx, _⟩ => (hs t ht).trans hx
    have hcut : ∀ x, x ∈ covered (cut r rs) ↔ x ∈ covered rs ∧ ¬ (r.start ≤ x ∧ x < r.stop) := by
      intro x
      rw [ih hrest]
      rfl
    ext x
    have hx := hbeyond x
    rw [cut]
    -- beyond, before, within, split, cut from the right, cut from the left
    split
    · simp only [covered_cons, Set.mem_union, Set.mem_Ico, Set.mem_sdiff]
      grind
    split
    · simp only [covered_cons, Set.mem_union, Set.mem_Ico, Set.mem_sdiff, hcut]
      grind
    split
    · simp only [covered_cons, Set.mem_union, Set.mem_Ico, Set.mem_sdiff, hcut]
      grind
    split
    · split
      · simp only [covered_cons, Set.mem_union, Set.mem_Ico, Set.mem_sdiff]
        grind
      · simp only [covered_cons, Set.mem_union, Set.mem_Ico, Set.mem_sdiff, hcut]
        grind
    split
    · simp only [covered_cons, Set.mem_union, Set.mem_Ico, Set.mem_sdiff, hcut]
      grind
    · simp only [covered_cons, Set.mem_union, Set.mem_Ico, Set.mem_sdiff, hcut]
      grind

/-- **Cutting keeps the list ordered.** -/
theorem Ordered.cut (h : Ordered rs) (hr : r.start ≤ r.stop) : Ordered (cut r rs) := by
  induction rs with
  | nil => exact ordered_nil
  | cons s rs ih =>
    obtain ⟨hs, hnonempty, hrest⟩ := ordered_cons.1 h
    have hbeyond : ∀ t ∈ Span.cut r rs, s.stop ≤ t.start := fun t ht =>
      let ⟨u, hu, hstart, _⟩ := mem_cut ht
      (hs u hu).trans hstart
    have hrec := ih hrest
    rw [Span.cut]
    split
    · exact h
    split
    · exact ordered_cons.2 ⟨hbeyond, hnonempty, hrec⟩
    rename_i hstart hstop
    rw [not_le] at hstart hstop
    split
    · exact hrec
    split
    · rename_i hleft
      split
      · rename_i hright
        refine ordered_cons.2 ⟨fun t ht => ?_, hleft.le, ordered_cons.2 ⟨hs, hright.le, hrest⟩⟩
        rcases List.mem_cons.1 ht with rfl | ht
        · exact hr
        · exact hstop.le.trans (hs t ht)
      · exact ordered_cons.2 ⟨fun t ht => hstop.le.trans (hbeyond t ht), hleft.le, hrec⟩
    split
    · rename_i hright
      exact ordered_cons.2 ⟨hbeyond, hright.le, hrec⟩
    · exact ordered_cons.2 ⟨hbeyond, hnonempty, hrec⟩

/-- **Cutting keeps the gaps**, and leaves one where it splits. -/
theorem Separated.cut (h : Separated rs) (hr : r.start < r.stop) : Separated (cut r rs) := by
  induction rs with
  | nil => exact separated_nil
  | cons s rs ih =>
    obtain ⟨hs, hnonempty, hrest⟩ := separated_cons.1 h
    have hbeyond : ∀ t ∈ Span.cut r rs, s.stop < t.start := fun t ht =>
      let ⟨u, hu, hstart, _⟩ := mem_cut ht
      lt_of_lt_of_le (hs u hu) hstart
    have hrec := ih hrest
    rw [Span.cut]
    split
    · exact h
    split
    · exact separated_cons.2 ⟨hbeyond, hnonempty, hrec⟩
    rename_i hstart hstop
    rw [not_le] at hstart hstop
    split
    · exact hrec
    split
    · rename_i hleft
      split
      · rename_i hright
        refine separated_cons.2 ⟨fun t ht => ?_, hleft, separated_cons.2 ⟨hs, hright, hrest⟩⟩
        rcases List.mem_cons.1 ht with rfl | ht
        · exact hr
        · exact hstop.trans (hs t ht)
      · exact separated_cons.2 ⟨fun t ht => hstop.trans (hbeyond t ht), hleft, hrec⟩
    split
    · rename_i hright
      exact separated_cons.2 ⟨hbeyond, hright, hrec⟩
    · exact separated_cons.2 ⟨hbeyond, hnonempty, hrec⟩

/-! ## Meeting -/

/-- **A query finds an interval that meets `r`** where there is one. -/
theorem meets_iff (h : Ordered rs) :
    meets r rs = true ↔ ∃ s ∈ rs, s.start < r.stop ∧ r.start < s.stop := by
  induction rs with
  | nil => simp [meets]
  | cons s rs ih =>
    obtain ⟨hs, hnonempty, hrest⟩ := ordered_cons.1 h
    simp only [meets, List.mem_cons, exists_eq_or_imp]
    split
    · rename_i hbeyond
      refine iff_of_false Bool.false_ne_true ?_
      rintro (⟨hlt, -⟩ | ⟨t, ht, hlt, -⟩)
      · exact absurd hlt (not_lt.2 hbeyond)
      · exact absurd hlt (not_lt.2 (hbeyond.trans (hnonempty.trans (hs t ht))))
    split
    · rename_i hbefore
      rw [ih hrest]
      exact ⟨Or.inr, fun hex => hex.resolve_left fun hcon => absurd hcon.2 (not_lt.2 hbefore)⟩
    · rename_i hstart hstop
      exact iff_of_true rfl (Or.inl ⟨not_le.1 hstart, not_le.1 hstop⟩)

/-- **On intervals that are not empty it is intersection.** -/
theorem meets_iff_nonempty (h : Separated rs) (hr : r.start < r.stop) :
    meets r rs = true ↔ (covered rs ∩ Set.Ico r.start r.stop).Nonempty := by
  rw [meets_iff h.ordered]
  constructor
  · rintro ⟨s, hs, hlt, hlt'⟩
    exact ⟨max s.start r.start, ⟨s, hs, le_max_left _ _, max_lt (h.2 s hs) hlt'⟩,
      le_max_right _ _, max_lt hlt hr⟩
  · rintro ⟨x, ⟨s, hs, hx, hx'⟩, hle, hlt⟩
    exact ⟨s, hs, lt_of_le_of_lt hx hlt, lt_of_le_of_lt hle hx'⟩

/-- Where the query finds none, `r` has no point of the set. -/
theorem disjoint_of_not_meets (h : Ordered rs) (hmeets : meets r rs = false) :
    Disjoint (covered rs) (Set.Ico r.start r.stop) := by
  rw [Set.disjoint_left]
  rintro x ⟨s, hs, hx, hx'⟩ ⟨hle, hlt⟩
  have := (meets_iff h).2 ⟨s, hs, lt_of_le_of_lt hx hlt, lt_of_le_of_lt hle hx'⟩
  rw [hmeets] at this
  cases this

end Span

end Library
