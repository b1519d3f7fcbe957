import Mathlib.Data.List.Basic
import Mathlib.Data.List.Count
import Mathlib.Tactic.Common
/-!
# The contents of a `PodArray`

`common/PodArray.hpp` as functions on `data[0..length)`. The elements are
plain data, every growth copies them, and no operation here reads beyond
`length`, so the contents are all there is to follow.
-/

namespace Uberos

namespace PodArray

variable {α : Type*}

/-- `push_back`. -/
def pushBack (contents : List α) (value : α) : List α := contents ++ [value]

/-- `insert`, at an index up to the length. -/
def insert (contents : List α) (index : ℕ) (value : α) : List α :=
  contents.take index ++ value :: contents.drop index

/-- `remove_front`. Its `memmove` goes from the front to the second
element: the front stays, and twice, and the last two elements are gone. -/
def removeFront : List α → List α
  | [] => []
  | front :: rest => (front :: front :: rest).take rest.length

/-- `remove_back`. -/
def removeBack (contents : List α) : List α := contents.dropLast

/-- `remove(index)`. -/
def remove (contents : List α) (index : ℕ) : List α :=
  if index ≥ contents.length then contents
  else if index = 0 then removeFront contents
  else if index = contents.length - 1 then removeBack contents
  else contents.take index ++ contents.drop (index + 1)

/-- The loops that find a value and remove it. -/
def removeValue [DecidableEq α] (contents : List α) (value : α) : List α :=
  match contents.findIdx? (· = value) with
  | some index => remove contents index
  | none => contents

/-- `clear`. -/
def clear (_contents : List α) : List α := []

/-- `shift_left`. -/
def shiftLeft (contents : List α) (count : ℕ) : List α :=
  if count ≥ contents.length then clear contents else contents.drop count

variable {before after : List α} {value : α}

theorem shiftLeft_eq_drop (contents : List α) (count : ℕ) :
    shiftLeft contents count = contents.drop count := by
  rw [shiftLeft]
  split
  · rename_i hge
    rw [List.drop_of_length_le hge, clear]
  · rfl

/-- Between the elements before and those after. -/
theorem insert_append : insert (before ++ after) before.length value = before ++ value :: after := by
  rw [insert, List.take_left, List.drop_left]

/-- **Anywhere but at the front, `remove` removes one element.** -/
theorem remove_append (hne : before ≠ []) :
    remove (before ++ value :: after) before.length = before ++ after := by
  have hlen : 0 < before.length := List.length_pos_iff.2 hne
  rw [remove, if_neg (by simp), if_neg (by omega)]
  split
  · rename_i hlast
    have hafter : after = [] := by
      rw [List.length_append, List.length_cons] at hlast
      exact List.length_eq_zero_iff.1 (by omega)
    subst hafter
    rw [removeBack, List.dropLast_concat, List.append_nil]
  · rw [List.take_left, List.drop_append, List.drop_of_length_le (by omega)]
    simp

/-- **At the front it removes nothing that is asked for**: of what it
leaves, the front is the element removed. -/
theorem remove_zero (value : α) (after : List α) :
    (remove (value :: after) 0).length = after.length ∧
      ∀ first ∈ (remove (value :: after) 0).head?, first = value := by
  have hremove : remove (value :: after) 0 = (value :: value :: after).take after.length := by
    rw [remove, if_neg (by simp), if_pos rfl, removeFront]
  rw [hremove]
  refine ⟨by simp only [List.length_take, List.length_cons]; omega, fun first hfirst => ?_⟩
  rcases after with - | ⟨second, after⟩
  · cases hfirst
  · rw [List.length_cons, List.take_succ_cons, List.head?_cons] at hfirst
    injection hfirst with hfirst
    exact hfirst.symm

/-! ## Removing a value -/

variable [DecidableEq α] {contents : List α} {other : α}

/-- The value is at the front of several elements. -/
def AtFront (contents : List α) (value : α) : Prop :=
  1 < contents.length ∧ contents.head? = some value

instance (contents : List α) (value : α) : Decidable (AtFront contents value) :=
  inferInstanceAs (Decidable (_ ∧ _))

/-- Where the value is, if it is anywhere. -/
theorem findIdx?_append (hbefore : value ∉ before) :
    (before ++ value :: after).findIdx? (· = value) = some before.length := by
  rw [List.findIdx?_append, List.findIdx?_eq_none_iff.2 fun x hx => ?_]
  · simp [List.findIdx?_cons]
  · rw [decide_eq_false_iff_not]
    exact fun heq => hbefore (heq ▸ hx)

/-- **A value that is not at the front of others is removed**, where it
is first. -/
theorem removeValue_eq (h : ¬ AtFront contents value) :
    removeValue contents value = contents.erase value := by
  by_cases hmem : value ∈ contents
  · obtain ⟨before, after, hbefore, rfl, herase⟩ := List.exists_erase_eq hmem
    rw [herase, removeValue, findIdx?_append hbefore]
    rcases before with - | ⟨first, before⟩
    · -- it is the only element
      rcases after with - | ⟨second, after⟩
      · rfl
      · exact absurd ⟨by simp, rfl⟩ h
    · exact remove_append (List.cons_ne_nil first before)
  · rw [removeValue, List.findIdx?_eq_none_iff.2 fun x hx => ?_, List.erase_of_not_mem hmem]
    rw [decide_eq_false_iff_not]
    exact fun heq => hmem (heq ▸ hx)

/-- **At the front of others it stays.** -/
theorem mem_removeValue (h : AtFront contents value) : value ∈ removeValue contents value := by
  obtain ⟨hlength, hhead⟩ := h
  rcases contents with - | ⟨first, - | ⟨second, rest⟩⟩
  · cases hhead
  · simp at hlength
  · rw [List.head?_cons, Option.some.injEq] at hhead
    subst hhead
    simp [removeValue, List.findIdx?_cons, remove, removeFront]

end PodArray

/-!
## The contents of a `ListOrdered`

`common/ListOrdered.hpp` as functions on `data[0..length)`, but for
`insert`, whose result is not a function of the contents alone: it moves
the elements apart and stores nothing between them.
-/

namespace ListOrdered

variable {α : Type*}

/-- `push_back`. -/
def pushBack (contents : List α) (item : α) : List α := contents ++ [item]

/-- `push_front`. -/
def pushFront (contents : List α) (item : α) : List α := item :: contents

/-- `pop_back`. -/
def popBack (contents : List α) : List α := contents.dropLast

/-- `pop_front`. Its `memmove` goes from the front to the second element,
as that of a `PodArray` does. -/
def popFront (contents : List α) : List α := PodArray.removeFront contents

/-- `remove`. -/
def remove (contents : List α) (index : ℕ) : List α :=
  contents.take index ++ contents.drop (index + 1)

/-- `pop`. -/
def pop (contents : List α) (index : ℕ) : List α :=
  if index = 0 then popFront contents
  else if index = contents.length - 1 then popBack contents
  else remove contents index

/-- `clear`. -/
def clear (_contents : List α) : List α := []

/-- **`remove` removes any element**, -/
theorem remove_eq_eraseIdx (contents : List α) (index : ℕ) :
    remove contents index = contents.eraseIdx index :=
  (List.eraseIdx_eq_take_drop_succ contents index).symm

/-- and `pop` any but the first. -/
theorem pop_eq_eraseIdx (contents : List α) {index : ℕ} (hindex : index ≠ 0) :
    pop contents index = contents.eraseIdx index := by
  rw [pop, if_neg hindex]
  split
  · rename_i hlast
    rw [popBack, List.eraseIdx_eq_take_drop_succ, List.drop_of_length_le (by omega),
      List.append_nil, List.dropLast_eq_take, hlast]
  · exact remove_eq_eraseIdx contents index

end ListOrdered

end Uberos
