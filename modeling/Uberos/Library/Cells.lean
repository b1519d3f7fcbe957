import Mathlib.Logic.Function.Basic
import Mathlib.Tactic.Common
/-!
# Ranges of cells, copied one by one

A buffer is its cells, of which one may hold nothing yet. The loops copy
a range cell by cell, upwards or downwards, within a buffer or from
another. Within a buffer the ranges may overlap: the loop that leaves each
source alone until it has been read gives what copying all of them at
once would give.
-/

namespace Library

/-- The cells of a buffer. -/
abbrev Cells (α : Type*) := ℕ → Option α

namespace Cells

variable {α : Type*}

/-- The range from `src` lies from `dest` on as well, and all else stays. -/
def moved (source cells : Cells α) (dest src count : ℕ) : Cells α := fun i =>
  if dest ≤ i ∧ i < dest + count then source (src + (i - dest)) else cells i

/-- Copying upwards within a buffer. -/
def moveForwards (cells : Cells α) (dest src : ℕ) : ℕ → Cells α
  | 0 => cells
  | count + 1 =>
    moveForwards (Function.update cells dest (cells src)) (dest + 1) (src + 1) count

/-- Copying downwards within a buffer. -/
def moveBackwards (cells : Cells α) (dest src : ℕ) : ℕ → Cells α
  | 0 => cells
  | count + 1 =>
    moveBackwards (Function.update cells (dest + count) (cells (src + count))) dest src count

/-- Copying from another buffer. -/
def copyForwards (source cells : Cells α) (dest src : ℕ) : ℕ → Cells α
  | 0 => cells
  | count + 1 =>
    copyForwards source (Function.update cells dest (source src)) (dest + 1) (src + 1) count

variable {source source' cells : Cells α} {xs ys : List α} {dest src count i j : ℕ}

/-- A cell of the range is one of the source, -/
theorem moved_at (hfrom : dest ≤ i) (hto : i < dest + count) (hj : j + dest = i + src) :
    moved source cells dest src count i = source j := by
  have hread : src + (i - dest) = j := by omega
  rw [moved, if_pos ⟨hfrom, hto⟩, hread]

/-- and one before it stays, -/
theorem moved_of_lt (h : i < dest) : moved source cells dest src count i = cells i :=
  if_neg fun hrange => Nat.not_le.2 h hrange.1

/-- as one behind it does. -/
theorem moved_of_le (h : dest + count ≤ i) : moved source cells dest src count i = cells i :=
  if_neg fun hrange => Nat.not_le.2 hrange.2 h

theorem moved_zero (source cells : Cells α) (dest src : ℕ) :
    moved source cells dest src 0 = cells := by
  funext i
  rcases Nat.lt_or_ge i dest with hbefore | hbehind
  · exact moved_of_lt hbefore
  · exact moved_of_le hbehind

/-- The first cell of a range, and then the others from a source that has
them still. -/
theorem moved_first (h : ∀ k < count, source' (src + 1 + k) = source (src + 1 + k)) :
    moved source' (Function.update cells dest (source src)) (dest + 1) (src + 1) count =
      moved source cells dest src (count + 1) := by
  funext i
  -- before the range, at its first cell, or after that
  rcases Nat.lt_trichotomy i dest with hbefore | rfl | hlater
  · rw [moved_of_lt (by omega), moved_of_lt hbefore, Function.update_of_ne (by omega)]
  · rw [moved_of_lt (Nat.lt_succ_self i), Function.update_self,
      moved_at (Nat.le_refl i) (by omega) (Nat.add_comm src i)]
  · rcases Nat.lt_or_ge i (dest + 1 + count) with hrange | hbehind
    · obtain ⟨k, rfl⟩ : ∃ k, i = dest + 1 + k := ⟨i - (dest + 1), by omega⟩
      rw [moved_at (j := src + 1 + k) (by omega) hrange (by omega), h k (by omega),
        moved_at (j := src + 1 + k) (by omega) (by omega) (by omega)]
    · rw [moved_of_le hbehind, moved_of_le (by omega), Function.update_of_ne (by omega)]

/-- The last cell, and then those before it. -/
theorem moved_last (h : ∀ k < count, source' (src + k) = source (src + k)) :
    moved source' (Function.update cells (dest + count) (source (src + count))) dest src count =
      moved source cells dest src (count + 1) := by
  funext i
  rcases Nat.lt_or_ge i dest with hbefore | hlater
  · rw [moved_of_lt hbefore, moved_of_lt hbefore, Function.update_of_ne (by omega)]
  · obtain ⟨k, rfl⟩ := Nat.exists_eq_add_of_le hlater
    rcases Nat.lt_trichotomy k count with hrange | rfl | hbehind
    · rw [moved_at (j := src + k) (by omega) (by omega) (by omega), h k hrange,
        moved_at (j := src + k) (by omega) (by omega) (by omega)]
    · rw [moved_of_le (Nat.le_refl _), Function.update_self,
        moved_at (j := src + k) (by omega) (by omega) (by omega)]
    · rw [moved_of_le (by omega), moved_of_le (by omega), Function.update_of_ne (by omega)]

/-- **Upwards, a range may move down over itself.** -/
theorem moveForwards_eq (cells : Cells α) {dest src : ℕ} (h : dest ≤ src) (count : ℕ) :
    moveForwards cells dest src count = moved cells cells dest src count := by
  induction count generalizing cells dest src with
  | zero => exact (moved_zero cells cells dest src).symm
  | succ count ih =>
    rw [moveForwards, ih _ (by omega)]
    -- what is read is above `dest`
    exact moved_first fun k _ => Function.update_of_ne (by omega) _ _

/-- **Downwards, up over itself.** -/
theorem moveBackwards_eq (cells : Cells α) {dest src : ℕ} (h : src ≤ dest) (count : ℕ) :
    moveBackwards cells dest src count = moved cells cells dest src count := by
  induction count generalizing cells with
  | zero => exact (moved_zero cells cells dest src).symm
  | succ count ih =>
    rw [moveBackwards, ih]
    -- what is read is below `dest + count`
    exact moved_last fun k _ => Function.update_of_ne (by omega) _ _

/-- **Upwards, up beyond itself.** -/
theorem moveForwards_apart (cells : Cells α) {dest src count : ℕ} (h : src + count ≤ dest) :
    moveForwards cells dest src count = moved cells cells dest src count := by
  induction count generalizing cells dest src with
  | zero => exact (moved_zero cells cells dest src).symm
  | succ count ih =>
    rw [moveForwards, ih _ (by omega)]
    -- what is read is below `dest`
    exact moved_first fun k _ => Function.update_of_ne (by omega) _ _

/-- The last cell of a range is copied last. -/
theorem moveForwards_last (cells : Cells α) (dest src count : ℕ) :
    moveForwards cells dest src (count + 1) =
      Function.update (moveForwards cells dest src count) (dest + count)
        (moveForwards cells dest src count (src + count)) := by
  induction count generalizing cells dest src with
  | zero => rfl
  | succ count ih =>
    rw [moveForwards, ih, moveForwards]
    simp only [Nat.add_assoc, Nat.add_comm 1]

/-- **A range that runs into its own copy** ends with what that starts
with. -/
theorem moveForwards_touching (cells : Cells α) {dest src count : ℕ} (hcount : 0 < count)
    (h : src + count = dest) :
    moveForwards cells dest src (count + 1) =
      Function.update (moved cells cells dest src count) (dest + count) (cells src) := by
  have hfirst : moved cells cells dest src count (src + count) = cells src :=
    moved_at (by omega) (by omega) (by omega)
  rw [moveForwards_last, moveForwards_apart cells (Nat.le_of_eq h), hfirst]

/-- **From another buffer**, a range is copied as it is. -/
theorem copyForwards_eq (source cells : Cells α) (dest src count : ℕ) :
    copyForwards source cells dest src count = moved source cells dest src count := by
  induction count generalizing cells dest src with
  | zero => exact (moved_zero source cells dest src).symm
  | succ count ih =>
    rw [copyForwards, ih]
    exact moved_first fun _ _ => rfl

/-- A range is moved in two parts, the first first. -/
theorem moved_moved (cells : Cells α) {dest src : ℕ} (h : dest ≤ src) (n m : ℕ) :
    moved (moved cells cells dest src n) (moved cells cells dest src n) (dest + n) (src + n) m =
      moved cells cells dest src (n + m) := by
  funext i
  rcases Nat.lt_or_ge i (dest + n) with hfirst | hsecond
  · rw [moved_of_lt hfirst]
    rcases Nat.lt_or_ge i dest with hbefore | hlater
    · rw [moved_of_lt hbefore, moved_of_lt hbefore]
    · rw [moved_at (j := src + (i - dest)) hlater hfirst (by omega),
        moved_at (j := src + (i - dest)) hlater (by omega) (by omega)]
  · rcases Nat.lt_or_ge i (dest + n + m) with hrange | hbehind
    · have hread : src + n + (i - (dest + n)) + dest = i + src := by omega
      rw [moved_at (j := src + n + (i - (dest + n))) (by omega) (by omega) hread,
        moved_at (j := src + n + (i - (dest + n))) hsecond hrange (by omega)]
      -- what the second part reads is above the first
      exact moved_of_le (by omega)
    · rw [moved_of_le hbehind, moved_of_le hsecond, moved_of_le (by omega)]

/-! ## What a copy writes, however the ranges overlap -/

/-- **A copy changes its range only, and to what was in the source's.** -/
structure Draws (cells cells' : Cells α) (dest src count : ℕ) : Prop where
  outside : ∀ i, i < dest ∨ dest + count ≤ i → cells' i = cells i
  drawn : ∀ i, cells' i = cells i ∨ ∃ j, src ≤ j ∧ j < src + count ∧ cells' i = cells j

variable {cells' cells'' : Cells α} {dest' src' count' : ℕ}

theorem draws_refl (cells : Cells α) (dest src count : ℕ) : Draws cells cells dest src count :=
  ⟨fun _ _ => rfl, fun _ => Or.inl rfl⟩

/-- Two copies between the same ranges are one. -/
theorem Draws.trans (h : Draws cells cells' dest src count)
    (h' : Draws cells' cells'' dest src count) : Draws cells cells'' dest src count := by
  refine ⟨fun i hi => (h'.outside i hi).trans (h.outside i hi), fun i => ?_⟩
  have hback (j : ℕ) (hj : cells'' i = cells' j) (hsrc : src ≤ j ∧ j < src + count ∨ j = i) :
      cells'' i = cells i ∨ ∃ j, src ≤ j ∧ j < src + count ∧ cells'' i = cells j := by
    rcases h.drawn j with hsame | ⟨k, hk, hk', hsame⟩
    · rcases hsrc with hrange | rfl
      · exact Or.inr ⟨j, hrange.1, hrange.2, hj.trans hsame⟩
      · exact Or.inl (hj.trans hsame)
    · exact Or.inr ⟨k, hk, hk', hj.trans hsame⟩
  rcases h'.drawn i with hsame | ⟨j, hj, hj', hsame⟩
  · exact hback i hsame (Or.inr rfl)
  · exact hback j hsame (Or.inl ⟨hj, hj'⟩)

/-- A copy within the ranges is one between them. -/
theorem Draws.mono (h : Draws cells cells' dest src count) (hdest : dest' ≤ dest)
    (hdest' : dest + count ≤ dest' + count') (hsrc : src' ≤ src)
    (hsrc' : src + count ≤ src' + count') : Draws cells cells' dest' src' count' := by
  refine ⟨fun i hi => h.outside i (by omega), fun i => ?_⟩
  rcases h.drawn i with hsame | ⟨j, hj, hj', hsame⟩
  · exact Or.inl hsame
  · exact Or.inr ⟨j, by omega, by omega, hsame⟩

theorem draws_moved (cells : Cells α) (dest src count : ℕ) :
    Draws cells (moved cells cells dest src count) dest src count := by
  refine ⟨fun i hi => ?_, fun i => ?_⟩
  · rcases hi with hbefore | hbehind
    · exact moved_of_lt hbefore
    · exact moved_of_le hbehind
  · rw [moved]
    split
    · next hrange => exact Or.inr ⟨src + (i - dest), by omega, by omega, rfl⟩
    · exact Or.inl rfl

/-- One cell is copied. -/
theorem draws_update (cells : Cells α) (dest src : ℕ) :
    Draws cells (Function.update cells dest (cells src)) dest src 1 := by
  refine ⟨fun i hi => Function.update_of_ne (by omega) _ _, fun i => ?_⟩
  by_cases hi : i = dest
  · rw [hi, Function.update_self]
    exact Or.inr ⟨src, Nat.le_refl src, Nat.lt_succ_self src, rfl⟩
  · exact Or.inl (Function.update_of_ne hi _ _)

theorem draws_moveForwards (cells : Cells α) (dest src count : ℕ) :
    Draws cells (moveForwards cells dest src count) dest src count := by
  induction count generalizing cells dest src with
  | zero => exact draws_refl cells dest src 0
  | succ count ih =>
    have hfirst := draws_update cells dest src
    have hothers := ih (Function.update cells dest (cells src)) (dest + 1) (src + 1)
    rw [moveForwards]
    exact (hfirst.mono (by omega) (by omega) (by omega) (by omega)).trans
      (hothers.mono (by omega) (by omega) (by omega) (by omega))

theorem draws_moveBackwards (cells : Cells α) (dest src count : ℕ) :
    Draws cells (moveBackwards cells dest src count) dest src count := by
  induction count generalizing cells with
  | zero => exact draws_refl cells dest src 0
  | succ count ih =>
    have hlast := draws_update cells (dest + count) (src + count)
    have hothers := ih (Function.update cells (dest + count) (cells (src + count)))
    rw [moveBackwards]
    exact (hlast.mono (by omega) (by omega) (by omega) (by omega)).trans
      (hothers.mono (by omega) (by omega) (by omega) (by omega))

/-! ## What the cells hold -/

/-- The first cells hold the elements of a list. -/
def Hold (cells : Cells α) (xs : List α) : Prop := ∀ i < xs.length, cells i = xs[i]?

theorem hold_nil (cells : Cells α) : cells.Hold [] := fun _ h => absurd h (Nat.not_lt_zero _)

/-- They hold any part that comes first, too. -/
theorem Hold.take (h : cells.Hold xs) (count : ℕ) : cells.Hold (xs.take count) := by
  intro i hi
  rw [List.length_take] at hi
  rw [h i (by omega), List.getElem?_take_of_lt (by omega)]

/-- And the first of two lists one after the other. -/
theorem Hold.of_append (h : cells.Hold (xs ++ ys)) : cells.Hold xs := by
  intro i hi
  rw [h i (by rw [List.length_append]; omega), List.getElem?_append_left hi]

/-- One cell written behind them, one element more. -/
theorem Hold.concat (h : cells.Hold xs) (x : α) :
    Hold (Function.update cells xs.length (some x)) (xs ++ [x]) := by
  intro i hi
  rw [List.length_append, List.length_singleton] at hi
  rw [Function.update_apply]
  split
  · rename_i hlast
    rw [hlast, List.getElem?_concat_length]
  · rw [h i (by omega), List.getElem?_append_left (by omega)]

/-- A range copied to the front holds what it held. -/
theorem Hold.front (h : source.Hold xs) (hcount : xs.length ≤ count) :
    (moved source cells 0 0 count).Hold xs := by
  intro i hi
  rw [moved_at (Nat.zero_le i) (by omega) rfl, h i hi]

/-- **A range copied behind what the cells hold** is held behind it. -/
theorem Hold.behind (hxs : cells.Hold xs) (hys : source.Hold ys) :
    (moved source cells xs.length 0 ys.length).Hold (xs ++ ys) := by
  intro i hi
  rw [List.length_append] at hi
  rcases Nat.lt_or_ge i xs.length with hlt | hge
  · rw [moved_of_lt hlt, hxs i hlt, List.getElem?_append_left hlt]
  · rw [moved_at (j := i - xs.length) hge (by omega) (by omega), hys _ (by omega),
      List.getElem?_append_right hge]

/-- **A range moved down to an index** is held behind what was before it. -/
theorem Hold.closed (h : cells.Hold xs) (hdest : dest ≤ src) :
    (moved cells cells dest src (xs.length - src)).Hold (xs.take dest ++ xs.drop src) := by
  intro i hi
  rw [List.length_append, List.length_take, List.length_drop] at hi
  have hlength : (xs.take dest).length = min dest xs.length := List.length_take
  rcases Nat.lt_or_ge i dest with hlt | hge
  · rw [moved_of_lt hlt, h i (by omega), List.getElem?_append_left (by omega),
      List.getElem?_take_of_lt hlt]
  · rw [moved_at (j := src + (i - dest)) hge (by omega) (by omega), h _ (by omega),
      List.getElem?_append_right (by omega), List.getElem?_drop, hlength, Nat.min_eq_left (by omega)]

/-- **The elements from an index on moved up by one** leave a cell between
them and those before it. -/
theorem Hold.parted (h : source.Hold xs) (hbefore : ∀ k < i, cells k = source k)
    (hi : i ≤ xs.length) :
    (∀ k < i, moved source cells (i + 1) i (xs.length - i) k = xs[k]?) ∧
      ∀ k, i < k → k ≤ xs.length → moved source cells (i + 1) i (xs.length - i) k = xs[k - 1]? := by
  refine ⟨fun k hk => ?_, fun k hk hk' => ?_⟩
  · rw [moved_of_lt (by omega), hbefore k hk, h k (by omega)]
  · rw [moved_at (j := k - 1) hk (by omega) (by omega), h _ (by omega)]

/-- **One list only is held at a length.** -/
theorem Hold.unique (hxs : cells.Hold xs) (hys : cells.Hold ys) (hlength : xs.length = ys.length) :
    xs = ys := by
  refine List.ext_getElem? fun i => ?_
  rcases Nat.lt_or_ge i xs.length with hi | hi
  · rw [← hxs i hi, hys i (hlength ▸ hi)]
  · rw [List.getElem?_eq_none hi, List.getElem?_eq_none (hlength ▸ hi)]

end Cells

end Library
