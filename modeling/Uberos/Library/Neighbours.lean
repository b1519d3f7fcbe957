import Mathlib.Data.List.Nodup
import Mathlib.Data.List.Infix
/-!
# Neighbours in a list

`Adjacent xs x y` says that `y` comes right after `x` somewhere in `xs`.
In a list without repetitions an element has one successor at most and
the last one has none, so a relation between neighbours can be kept one
pair at a time while a list grows at its end and is eaten from its front.
-/

namespace Library

variable {α : Type*} {xs ys : List α} {x y z : α}

/-- `y` comes right after `x`. -/
def Adjacent (xs : List α) (x y : α) : Prop := ∃ ys zs, xs = ys ++ x :: y :: zs

theorem Adjacent.mem_left (h : Adjacent xs x y) : x ∈ xs := by
  obtain ⟨ys, zs, rfl⟩ := h
  simp

theorem not_adjacent_singleton : ¬ Adjacent [z] x y := by
  rintro ⟨ys, zs, h⟩
  have := congrArg List.length h
  simp only [List.length_append, List.length_cons, List.length_nil] at this
  omega

/-- The first pair of a list. -/
theorem adjacent_cons_cons : Adjacent (x :: y :: xs) x y := ⟨[], xs, rfl⟩

/-- The neighbours of a longer list are those of the shorter one and the
new pair. -/
theorem adjacent_cons_iff : Adjacent (z :: xs) x y ↔ z = x ∧ xs.head? = some y ∨ Adjacent xs x y := by
  constructor
  · rintro ⟨ys, zs, h⟩
    rcases ys with - | ⟨w, ys⟩
    · rw [List.nil_append] at h
      injection h with hz hxs
      exact Or.inl ⟨hz, by rw [hxs]; rfl⟩
    · rw [List.cons_append] at h
      injection h with _ hxs
      exact Or.inr ⟨ys, zs, hxs⟩
  · rintro (⟨rfl, hhead⟩ | ⟨ys, zs, rfl⟩)
    · obtain ⟨zs, rfl⟩ := List.head?_eq_some_iff.1 hhead
      exact ⟨[], zs, rfl⟩
    · exact ⟨z :: ys, zs, rfl⟩

/-- At the end likewise. -/
theorem adjacent_concat_iff :
    Adjacent (xs ++ [z]) x y ↔ Adjacent xs x y ∨ xs.getLast? = some x ∧ y = z := by
  constructor
  · rintro ⟨ys, zs, h⟩
    rcases List.eq_nil_or_concat' zs with rfl | ⟨zs, w, rfl⟩
    · have h' : xs ++ [z] = (ys ++ [x]) ++ [y] := by rw [h]; simp
      obtain ⟨rfl, hzy⟩ := List.append_inj' h' rfl
      injection hzy with hzy
      exact Or.inr ⟨List.getLast?_concat, hzy.symm⟩
    · have h' : xs ++ [z] = (ys ++ x :: y :: zs) ++ [w] := by rw [h]; simp
      obtain ⟨rfl, -⟩ := List.append_inj' h' rfl
      exact Or.inl ⟨ys, zs, rfl⟩
  · rintro (⟨ys, zs, rfl⟩ | ⟨hlast, rfl⟩)
    · exact ⟨ys, zs ++ [z], by simp⟩
    · obtain ⟨ys, rfl⟩ := List.getLast?_eq_some_iff.1 hlast
      exact ⟨ys, [], by simp⟩

/-- **One successor at most.** -/
theorem Adjacent.right_unique (h : Adjacent xs x y) (h' : Adjacent xs x z) (hnodup : xs.Nodup) :
    y = z := by
  induction xs with
  | nil =>
    obtain ⟨ys, zs, h⟩ := h
    simp at h
  | cons w xs ih =>
    obtain ⟨hw, hnodup⟩ := List.nodup_cons.1 hnodup
    rcases adjacent_cons_iff.1 h with ⟨rfl, hy⟩ | h <;>
      rcases adjacent_cons_iff.1 h' with ⟨hwx, hz⟩ | h'
    · exact Option.some.inj (hy.symm.trans hz)
    · exact absurd h'.mem_left hw
    · exact absurd (hwx ▸ h.mem_left) hw
    · exact ih h h' hnodup

/-- **The last has no successor.** -/
theorem Adjacent.ne_last (h : Adjacent xs x y) (hnodup : xs.Nodup) : xs.getLast? ≠ some x := by
  induction xs with
  | nil =>
    obtain ⟨ys, zs, h⟩ := h
    simp at h
  | cons w xs ih =>
    obtain ⟨hw, hnodup⟩ := List.nodup_cons.1 hnodup
    intro hlast
    rcases adjacent_cons_iff.1 h with ⟨rfl, hy⟩ | h
    · obtain ⟨zs, rfl⟩ := List.head?_eq_some_iff.1 hy
      rw [List.getLast?_cons_cons] at hlast
      exact hw (List.mem_of_getLast? hlast)
    · obtain ⟨v, hv⟩ : ∃ v, xs.head? = some v := by
        rcases xs with - | ⟨v, xs⟩
        · exact absurd h.mem_left List.not_mem_nil
        · exact ⟨v, rfl⟩
      obtain ⟨zs, rfl⟩ := List.head?_eq_some_iff.1 hv
      rw [List.getLast?_cons_cons] at hlast
      exact ih h hnodup hlast

end Library
