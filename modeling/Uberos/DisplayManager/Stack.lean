import Uberos.DisplayManager.Compose
import Uberos.Library.Ranked
/-!
# The stack of displays

The displays are kept in the order of their layers, each once. A display
that is taken out and put back leaves the others in their order, so what
should be on the screen changes only where that display was topmost, or
is. What it ends up under is that it is put under.
-/

namespace Uberos

namespace DisplayManager

open Library

variable {n : ℕ} {Colour : Type} {m m' : DisplayManager n Colour} {i j other : Fin n}
variable {x y : ℤ} {display : Fin n → Display Colour} {layer : ℕ}
variable {before after others displays : List (Fin n)}

/-! ## Putting a display among others -/

theorem insertAfter_eq (other i : Fin n) (others : List (Fin n)) :
    insertAfter other i others = putAfter other i others := by
  induction others with
  | nil => rfl
  | cons first others ih => rw [insertAfter, putAfter, ih]

theorem insertBefore_eq (other i : Fin n) (others : List (Fin n)) :
    insertBefore other i others = putBefore other i others := by
  induction others with
  | nil => rfl
  | cons first others ih => rw [insertBefore, putBefore, ih]

/-- The layers of displays do not go down. -/
def InLayers (display : Fin n → Display Colour) (displays : List (Fin n)) : Prop :=
  displays.Pairwise fun i j => (display i).layer ≤ (display j).layer

/-- **A display put among others**: above those of no higher a layer,
under those of no lower a one, of which `under` holds. -/
def PutAmong (display : Fin n → Display Colour) (layer : ℕ) (i : Fin n)
    (others displays : List (Fin n)) (under : Fin n → Prop) : Prop :=
  ∃ before after, others = before ++ after ∧ displays = before ++ i :: after ∧
    (∀ j ∈ before, (display j).layer ≤ layer) ∧
    ∀ j ∈ after, layer ≤ (display j).layer ∧ under j

theorem PutAmong.perm {under : Fin n → Prop} (h : PutAmong display layer i others displays under) :
    displays.Perm (i :: others) := Among.perm h

/-- The order of layers is kept. -/
theorem PutAmong.inLayers {under : Fin n → Prop}
    (h : PutAmong display (display i).layer i others displays under)
    (hlayers : InLayers display others) : InLayers display displays := Among.inRanks h hlayers

theorem putAmong_insertAfter (hlayers : InLayers display others)
    (hothers : others = before ++ other :: after) (hother : other ∉ before) :
    PutAmong display (display other).layer i others (insertAfter other i others) (· ∈ after) := by
  rw [insertAfter_eq]
  exact among_putAfter hlayers hothers hother

theorem putAmong_insertBefore (hlayers : InLayers display others)
    (hothers : others = before ++ other :: after) (hother : other ∉ before) :
    PutAmong display (display other).layer i others (insertBefore other i others)
      (· ∈ other :: after) := by
  rw [insertBefore_eq]
  exact among_putBefore hlayers hothers hother

/-- On top of its layer, a display is under those of higher ones. -/
theorem putAmong_insertByLayer (hlayers : InLayers display others) (hnodup : others.Nodup) :
    PutAmong display (display i).layer i others (insertByLayer display i others)
      fun j => (display i).layer < (display j).layer := by
  have hput : Among (fun j => (display j).layer) (display i).layer i others _ _ :=
    among_putLast hlayers hnodup
  rw [insertByLayer]
  rw [putLast] at hput
  split at hput
  · rename_i other hfind
    rw [← insertAfter_eq] at hput
    rw [hfind]
    exact hput
  · rename_i hfind
    rw [hfind]
    exact hput

/-- Below all of a layer, a display is under those of the layer and of
higher ones. -/
theorem putAmong_insertUnderLayer (hlayers : InLayers display others) :
    PutAmong display layer i others (insertUnderLayer display layer i others)
      fun j => j ∈ others ∧ layer ≤ (display j).layer := by
  have hput : Among (fun j => (display j).layer) layer i others _ _ := among_putFirst hlayers
  rw [insertUnderLayer]
  rw [putFirst] at hput
  split at hput
  · rename_i other hfind
    rw [← insertBefore_eq] at hput
    rw [hfind]
    exact hput
  · rename_i hfind
    rw [hfind]
    exact hput

/-- The others of a list around one of them. -/
theorem Stacked.erase_split (h : m.Stacked) (hne : i ≠ other) :
    ∃ before after, m.displays.erase i = before ++ other :: after ∧ other ∉ before ∧
      ∀ j ∈ after, j ∈ m.above other := by
  obtain ⟨before, hlist, hother, -⟩ := h.split other
  rw [hlist]
  -- the display is before the other or after it
  by_cases hi : i ∈ before
  · refine ⟨before.erase i, m.above other, List.erase_append_left _ hi, ?_, fun _ hj => hj⟩
    exact fun hmem => hother (List.mem_of_mem_erase hmem)
  · refine ⟨before, (m.above other).erase i, ?_, hother, fun j hj => List.mem_of_mem_erase hj⟩
    rw [List.erase_append_right _ hi, List.erase_cons_tail (by simpa using Ne.symm hne)]

/-! ## A display on its own -/

/-- **All but one display are as they were**, in the order they had, and
nothing is painted. -/
structure AllBut (i : Fin n) (m m' : DisplayManager n Colour) : Prop where
  display : ∀ j, j ≠ i → m'.display j = m.display j
  others : m'.displays.erase i = m.displays.erase i
  framebuffers : m'.framebuffers = m.framebuffers
  totalArea : m'.totalArea = m.totalArea
  sampleBackgroundAt : m'.sampleBackgroundAt = m.sampleBackgroundAt

theorem allBut_setDisplay (m : DisplayManager n Colour) (i : Fin n) (d : Display Colour) :
    AllBut i m (m.setDisplay i d) :=
  ⟨fun _ hj => Function.update_of_ne hj _ _, rfl, rfl, rfl, rfl⟩

@[simp] theorem setDisplay_display_self (d : Display Colour) :
    (m.setDisplay i d).display i = d := Function.update_self _ _ _

/-- What is found from the top without a display that is not found. -/
theorem find?_erase {p : Fin n → Bool} (h : displays.reverse.find? p ≠ some i) :
    (displays.erase i).reverse.find? p = displays.reverse.find? p := by
  by_cases hi : i ∈ displays
  · obtain ⟨before, after, -, hlist, herase⟩ := List.exists_erase_eq hi
    rw [herase]
    rw [hlist] at h ⊢
    simp only [List.reverse_append, List.reverse_cons, List.find?_append, Option.or_assoc] at h ⊢
    rcases hfind : after.reverse.find? p with - | j
    · -- it comes next, and is passed
      rw [hfind, Option.none_or] at h
      rcases hp : p i with - | -
      · simp [hp]
      · simp [hp] at h
    · rw [Option.some_or, Option.some_or]
  · rw [List.erase_of_not_mem hi]

theorem AllBut.covers (h : AllBut i m m') (hne : j ≠ i) : m'.covers j x y ↔ m.covers j x y := by
  rw [DisplayManager.covers, DisplayManager.covers, h.display j hne]

/-- **Where it was not topmost and is not, nothing changes.** -/
theorem AllBut.topmost (h : AllBut i m m') (hm : m.Stacked) (htop : m.topmost x y ≠ some i)
    (htop' : m'.topmost x y ≠ some i) : m'.topmost x y = m.topmost x y := by
  rw [DisplayManager.topmost] at htop htop' ⊢
  rw [DisplayManager.topmost, ← find?_erase htop, ← find?_erase htop', h.others]
  refine List.find?_congr fun j hj => ?_
  have hne : j ≠ i := (hm.nodup.mem_erase_iff.1 (List.mem_reverse.1 hj)).1
  exact decide_eq_decide.2 (h.covers hne)

theorem AllBut.compose (h : AllBut i m m') (hm : m.Stacked) (htop : m.topmost x y ≠ some i)
    (htop' : m'.topmost x y ≠ some i) : m'.compose x y = m.compose x y := by
  have hsame := h.topmost hm htop htop'
  rw [DisplayManager.compose, DisplayManager.compose, hsame, h.sampleBackgroundAt]
  rcases htopmost : m.topmost x y with - | j
  · rfl
  · have hne : j ≠ i := fun heq => htop (heq ▸ htopmost)
    simp only [h.display j hne]

/-! ## Restacking -/

/-- The displays are in the order of their layers. -/
def Layered (m : DisplayManager n Colour) : Prop := InLayers m.display m.displays

section Restack

variable {insert : List (Fin n) → List (Fin n)} {under : Fin n → Prop}

theorem allBut_restack (hm : m.Stacked)
    (hput : PutAmong m.display layer i (m.displays.erase i) (insert (m.displays.erase i)) under) :
    AllBut i m (m.restack i layer insert) := by
  obtain ⟨before, after, hothers, hinsert, -⟩ := hput
  refine ⟨fun j hj => Function.update_of_ne hj _ _, ?_, rfl, rfl, rfl⟩
  have hi : i ∉ before := fun hmem =>
    hm.nodup.not_mem_erase (hothers ▸ List.mem_append_left _ hmem)
  simp only [restack]
  rw [hinsert, List.erase_append_right _ hi, List.erase_cons_head, hothers]

theorem stacked_restack (hm : m.Stacked)
    (hput : PutAmong m.display layer i (m.displays.erase i) (insert (m.displays.erase i)) under) :
    (m.restack i layer insert).Stacked := by
  have hperm : (m.restack i layer insert).displays.Perm m.displays :=
    hput.perm.trans (List.perm_cons_erase (hm.complete i)).symm
  exact ⟨hperm.nodup_iff.2 hm.nodup, fun j => hperm.mem_iff.2 (hm.complete j)⟩

theorem layered_restack (hm : m.Stacked) (hlayered : m.Layered)
    (hput : PutAmong m.display layer i (m.displays.erase i) (insert (m.displays.erase i)) under) :
    (m.restack i layer insert).Layered := by
  have hallBut := allBut_restack hm hput
  have hlayer : ((m.restack i layer insert).display i).layer = layer := by simp [restack]
  have hsame : ∀ j ∈ m.displays.erase i,
      ((m.restack i layer insert).display j).layer = (m.display j).layer := by
    intro j hj
    rw [hallBut.display j fun heq => hm.nodup.not_mem_erase (heq ▸ hj)]
  have hothers : InLayers (m.restack i layer insert).display (m.displays.erase i) := by
    refine List.Pairwise.imp_of_mem (fun {j k} hj hk hle => ?_)
      (hlayered.sublist List.erase_sublist)
    rwa [hsame j hj, hsame k hk]
  -- the layers it is put among are the same with its own layer set
  have hput' : PutAmong (m.restack i layer insert).display
      ((m.restack i layer insert).display i).layer i (m.displays.erase i)
      (insert (m.displays.erase i)) under := by
    obtain ⟨before, after, heq, hinsert, hbefore, hafter⟩ := hput
    refine ⟨before, after, heq, hinsert, ?_, ?_⟩
    · intro j hj
      rw [hsame j (heq ▸ List.mem_append_left _ hj), hlayer]
      exact hbefore j hj
    · intro j hj
      rw [hsame j (heq ▸ List.mem_append_right _ hj), hlayer]
      exact hafter j hj
  exact hput'.inLayers hothers

/-- **A display ends up under what it is put under.** -/
theorem under_of_mem_above (hm : m.Stacked)
    (hput : PutAmong m.display layer i (m.displays.erase i) (insert (m.displays.erase i)) under)
    (hj : j ∈ (m.restack i layer insert).above i) : j ≠ i ∧ under j := by
  obtain ⟨before, after, hothers, hinsert, -, hafter⟩ := hput
  have hne : ∀ k ∈ before ++ after, k ≠ i := by
    intro k hk heq
    exact hm.nodup.not_mem_erase (hothers ▸ heq ▸ hk)
  have habove : (m.restack i layer insert).above i = after := by
    have hdisplays : (m.restack i layer insert).displays = before ++ i :: after := hinsert
    rw [above, hdisplays, List.dropWhile_append_of_pos fun k hk =>
      decide_eq_true (hne k (List.mem_append_left _ hk))]
    simp
  rw [habove] at hj
  exact ⟨hne j (List.mem_append_right _ hj), (hafter j hj).2⟩

end Restack

end DisplayManager

end Uberos
