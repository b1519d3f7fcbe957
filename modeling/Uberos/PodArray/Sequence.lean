import Uberos.PodArray.Storage
import Uberos.Library.Run
import Mathlib.Data.List.InsertIdx
import Mathlib.Data.Option.Basic
/-!
# A `PodArray` as a sequence

An array run beside the list it stands for. Every member but two does to
the contents what its name says, inside the buffer, as long as the sizes
it grows to fit 32 bits. The two are `remove_front` and `pop_front`, with
`remove(0)` through the first: they move the elements up instead of down,
and agree with the list only where all its elements are the same.
-/

namespace Uberos

namespace PodArray

open Library

variable {α : Type*}

variable (α) in
/-- The members, called. -/
inductive Op
  | pushBack (value : α)
  | insert (index : ℕ) (value : α)
  | remove (index : ℕ)
  | removeFront
  | removeBack
  | popFront
  | popBack
  | shiftLeft (count : ℕ)
  | clear

/-- A call, unless it reads or writes beyond the buffer. -/
def Storage.call (s : Storage α) : Op α → Option (Storage α)
  | .pushBack value => s.pushBack value
  | .insert index value => s.insert index value
  | .remove index => s.remove index
  | .removeFront => s.removeFront
  | .removeBack => some s.removeBack
  | .popFront => s.popFront.map Prod.snd
  | .popBack => s.popBack.map Prod.snd
  | .shiftLeft count => s.shiftLeft count
  | .clear => some s.clear

/-- What a call does to the contents. -/
def contentsCall (contents : List α) : Op α → List α
  | .pushBack value => PodArray.pushBack contents value
  | .insert index value => PodArray.insert contents index value
  | .remove index => PodArray.remove contents index
  | .removeFront | .popFront => PodArray.removeFront contents
  | .removeBack | .popBack => PodArray.removeBack contents
  | .shiftLeft count => PodArray.shiftLeft contents count
  | .clear => PodArray.clear contents

/-- What it is to do to a list. -/
def Op.act (xs : List α) : Op α → List α
  | .pushBack value => xs ++ [value]
  | .insert index value => xs.insertIdx index value
  | .remove index => xs.eraseIdx index
  | .removeFront | .popFront => xs.tail
  | .removeBack | .popBack => xs.dropLast
  | .shiftLeft count => xs.drop count
  | .clear => []

/-- An array, unless it has been left, and the list. -/
abbrev Pair (α : Type*) := Option (Storage α) × List α

/-- One call on each side. -/
def step (s : Pair α) (op : Op α) : Pair α := (s.1.bind fun a => a.call op, op.act s.2)

/-! ## What it is for -/

/-- `data[0..length)`. -/
def Storage.contents (s : Storage α) : List (Option α) := (List.range s.length).map s.data

/-- **The contents are the list**, and no call has left the buffer. -/
def Refines (s : Pair α) : Prop := ∃ a, s.1 = some a ∧ a.contents = s.2.map some

/-- An index to insert at is up to the length, and there is something to
take from the back. -/
def Legal (s : Pair α) : Op α → Prop
  | .insert index _ => index ≤ s.2.length
  | .removeBack | .popBack => s.2 ≠ []
  | _ => True

/-- The elements are all the same. -/
def Uniform (xs : List α) : Prop := ∀ x ∈ xs, xs.head? = some x

/-- **A call that removes the front finds the elements all the same**, and
one that may grow the buffer grows it to a size of 32 bits. -/
def Sound (s : Pair α) : Op α → Prop
  | .pushBack _ => ∀ a ∈ s.1, a.Grows
  | .insert _ _ => ∀ a ∈ s.1, a.GrowsToInsert
  | .remove index => index = 0 → Uniform s.2
  | .removeFront | .popFront => Uniform s.2
  | .removeBack | .popBack | .shiftLeft _ | .clear => True

instance (s : Pair α) : ∀ op, Decidable (Legal s op)
  | .insert index _ => inferInstanceAs (Decidable (index ≤ s.2.length))
  | .removeBack | .popBack => inferInstanceAs (Decidable (¬ s.2 = []))
  | .pushBack _ | .remove _ | .removeFront | .popFront | .shiftLeft _ | .clear =>
    inferInstanceAs (Decidable True)

instance [DecidableEq α] (xs : List α) : Decidable (Uniform xs) :=
  inferInstanceAs (Decidable (∀ x ∈ xs, xs.head? = some x))

instance [DecidableEq α] (s : Pair α) : ∀ op, Decidable (Sound s op)
  | .pushBack _ => inferInstanceAs (Decidable (∀ a ∈ s.1, a.Grows))
  | .insert _ _ => inferInstanceAs (Decidable (∀ a ∈ s.1, a.GrowsToInsert))
  | .remove index => inferInstanceAs (Decidable (index = 0 → Uniform s.2))
  | .removeFront | .popFront => inferInstanceAs (Decidable (Uniform s.2))
  | .removeBack | .popBack | .shiftLeft _ | .clear => inferInstanceAs (Decidable True)

variable {a : Storage α} {s : Pair α} {xs ys : List α} {op : Op α} {index count : ℕ}

/-! ## The contents against the list -/

/-- What the front is moved over is the front where it is the rest. -/
theorem take_cons_cons_eq_iff (x : α) (xs : List α) :
    (x :: x :: xs).take xs.length = xs ↔ ∀ y ∈ xs, y = x := by
  induction xs generalizing x with
  | nil => simp
  | cons y ys ih =>
    rw [List.length_cons, List.take_succ_cons, List.cons.injEq, List.forall_mem_cons, eq_comm]
    refine and_congr_right fun hxy => ?_
    subst hxy
    exact ih y

/-- **Moving the front up agrees with removing it just where the elements
are all the same.** -/
theorem removeFront_eq_tail_iff : removeFront xs = xs.tail ↔ Uniform xs := by
  rcases xs with - | ⟨x, xs⟩
  · exact iff_of_true rfl fun _ h => absurd h List.not_mem_nil
  · rw [removeFront, List.tail_cons, take_cons_cons_eq_iff, Uniform, List.forall_mem_cons]
    simp [eq_comm]

/-- Anywhere else `remove` agrees. -/
theorem remove_eq_eraseIdx (hindex : index ≠ 0) : remove xs index = xs.eraseIdx index := by
  rw [remove, if_neg hindex]
  split
  · rename_i hge
    rw [List.eraseIdx_of_length_le hge]
  · split
    · rename_i hlast
      rw [hlast, removeBack, List.eraseIdx_eq_take_drop_succ, List.dropLast_eq_take,
        List.drop_of_length_le (by omega), List.append_nil]
    · rw [List.eraseIdx_eq_take_drop_succ]

theorem insert_eq_insertIdx (hindex : index ≤ xs.length) (value : α) :
    insert xs index value = xs.insertIdx index value := by
  induction xs generalizing index with
  | nil =>
    obtain rfl : index = 0 := by simpa using hindex
    rfl
  | cons x xs ih =>
    rcases index with - | index
    · rfl
    · rw [List.insertIdx_succ_cons, ← ih (by simpa using hindex)]
      rfl

/-- **A sound call does to the contents what it is to do to the list**,
and a legal one that does is sound, growth apart. -/
theorem contentsCall_eq_iff (hlegal : Legal s op) :
    contentsCall s.2 op = op.act s.2 ↔
      match op with
      | .remove index => index = 0 → Uniform s.2
      | .removeFront | .popFront => Uniform s.2
      | _ => True := by
  cases op with
  | pushBack value => exact iff_of_true rfl trivial
  | insert index value => exact iff_of_true (insert_eq_insertIdx hlegal value) trivial
  | remove index =>
    by_cases hindex : index = 0
    · subst hindex
      simp only [forall_const]
      rw [contentsCall, Op.act, List.eraseIdx_zero, ← removeFront_eq_tail_iff, remove]
      rcases s.2 with - | ⟨x, xs⟩ <;> simp [removeFront]
    · exact iff_of_true (remove_eq_eraseIdx hindex) fun hcon => absurd hcon hindex
  | removeFront => exact removeFront_eq_tail_iff
  | removeBack => exact iff_of_true rfl trivial
  | popFront => exact removeFront_eq_tail_iff
  | popBack => exact iff_of_true rfl trivial
  | shiftLeft count => exact iff_of_true (shiftLeft_eq_drop s.2 count) trivial
  | clear => exact iff_of_true rfl trivial

/-! ## The array against the contents -/

/-- The sizes a call grows the buffer to fit. -/
def Fits (a : Storage α) : Op α → Prop
  | .pushBack _ => a.Grows
  | .insert _ _ => a.GrowsToInsert
  | _ => True

/-- **A call inside the buffer does to the array what it does to its
contents.** -/
theorem Storage.Holds.call (h : a.Holds s.2) (hlegal : Legal s op) (hfits : Fits a op) :
    ∃ a', a.call op = some a' ∧ a'.Holds (contentsCall s.2 op) := by
  cases op with
  | pushBack value => exact h.pushBack hfits value
  | insert index value => exact h.insert hfits hlegal value
  | remove index => exact h.remove index
  | removeFront => exact h.removeFront
  | removeBack => exact ⟨a.removeBack, rfl, h.removeBack hlegal⟩
  | popFront =>
    obtain ⟨a', hpop, ha'⟩ := h.popFront
    exact ⟨a', by rw [Storage.call, hpop, Option.map_some], ha'⟩
  | popBack =>
    obtain ⟨a', hpop, ha'⟩ := h.popBack hlegal
    exact ⟨a', by rw [Storage.call, hpop, Option.map_some], ha'⟩
  | shiftLeft count => exact h.shiftLeft count
  | clear => exact ⟨a.clear, rfl, rfl, Nat.zero_le _, h.word, Cells.hold_nil _⟩

/-- **One whose size wraps leaves it.** -/
theorem Storage.Holds.call_none (h : a.Holds s.2) (hlegal : Legal s op) (hfits : ¬ Fits a op) :
    a.call op = none := by
  cases op with
  | pushBack value => exact h.pushBack_none hfits value
  | insert index value => exact h.insert_none hfits hlegal value
  | _ => exact absurd trivial hfits

/-- An array's contents are the list it holds. -/
theorem Storage.Holds.contents (h : a.Holds xs) : a.contents = xs.map some := by
  refine List.ext_getElem? fun i => ?_
  rw [Storage.contents, List.getElem?_map, List.getElem?_map]
  rcases Nat.lt_or_ge i xs.length with hi | hi
  · rw [List.getElem?_range (by rw [h.length]; exact hi), Option.map_some, h.data i hi,
      List.getElem?_eq_getElem hi, Option.map_some]
  · rw [List.getElem?_eq_none hi,
      List.getElem?_eq_none (by rw [List.length_range, h.length]; exact hi)]
    rfl

/-! ## Runs -/

/-- The array holds the list. -/
def Kept (s : Pair α) : Prop := ∃ a, s.1 = some a ∧ a.Holds s.2

theorem Kept.refines (h : Kept s) : Refines s := by
  obtain ⟨a, ha, hholds⟩ := h
  exact ⟨a, ha, hholds.contents⟩

/-- A sound call is one that fits and does to the list what it is to do. -/
theorem sound_iff (h : s.1 = some a) (hlegal : Legal s op) :
    Sound s op ↔ Fits a op ∧ contentsCall s.2 op = op.act s.2 := by
  rw [contentsCall_eq_iff hlegal]
  cases op <;> simp [Sound, Fits, h]

/-- **The step lemma**: a call leads to the contents the list has exactly
when it is sound, -/
theorem Kept.refines_iff (h : Kept s) (hlegal : Legal s op) : Refines (step s op) ↔ Sound s op := by
  obtain ⟨a, ha, hholds⟩ := h
  rw [sound_iff ha hlegal]
  by_cases hfits : Fits a op
  · obtain ⟨a', hcall, ha'⟩ := hholds.call hlegal hfits
    have hstep : (step s op).1 = some a' := by rw [step, ha, Option.bind_some, hcall]
    refine ⟨fun ⟨b, hb, hcontents⟩ => ⟨hfits, ?_⟩, fun ⟨_, hact⟩ => ⟨a', hstep, ?_⟩⟩
    · obtain rfl : a' = b := Option.some.inj (hstep.symm.trans hb)
      rw [ha'.contents] at hcontents
      exact List.map_injective_iff.2 (Option.some_injective α) hcontents
    · rw [ha'.contents, hact]
      rfl
  · refine iff_of_false (fun ⟨b, hb, _⟩ => ?_) fun hcon => hfits hcon.1
    rw [step, ha, Option.bind_some, hholds.call_none hlegal hfits] at hb
    cases hb

/-- and then the array holds it. -/
theorem Kept.step (h : Kept s) (hlegal : Legal s op) (hsound : Sound s op) : Kept (step s op) := by
  obtain ⟨a, ha, hholds⟩ := h
  obtain ⟨hfits, hact⟩ := (sound_iff ha hlegal).1 hsound
  obtain ⟨a', hcall, ha'⟩ := hholds.call hlegal hfits
  refine ⟨a', by rw [PodArray.step, ha, Option.bind_some, hcall], ?_⟩
  rw [hact] at ha'
  exact ha'

/-- An array as it is constructed, and the empty list. -/
def start (reserveSize : ℕ) : Pair α := (some (.new reserveSize), [])

/-- **Over a run the contents are the list's, and no call leaves the
buffer, exactly as long as every call is sound.** -/
theorem contents_run_iff {reserveSize : ℕ} (hreserve : reserveSize < 2 ^ 32) (ops : List (Op α))
    (hlegal : Along step Legal (start reserveSize) ops) :
    Throughout step Refines (start reserveSize) ops ↔
      Along step Sound (start reserveSize) ops :=
  throughout_iff_along_of_legal (I := Kept) hlegal ⟨_, rfl, Storage.holds_new hreserve⟩
    (fun _ h => h.refines) (fun _ _ h => h.refines_iff) fun _ _ h => h.step

/-- An array of no reserve grows twice, and is inserted in and taken from
at every place but the front. -/
theorem contents_run_iff_grown :
    Throughout step Refines (start 0 : Pair ℕ)
      [.pushBack 1, .insert 0 2, .pushBack 3, .pushBack 4, .insert 2 5, .remove 1, .remove 9,
        .popBack, .shiftLeft 1, .insert 2 6, .removeBack, .shiftLeft 7, .pushBack 8, .pushBack 8,
        .popFront, .remove 0, .removeFront, .clear] :=
  (contents_run_iff (by decide) _ (by decide)).2 (by decide)

/-- Of two elements the wrong one is removed. -/
theorem not_contents_run :
    ¬ Throughout step Refines (start 0 : Pair ℕ) [.pushBack 1, .pushBack 2, .removeFront] :=
  fun h => by
    obtain ⟨a, ha, hcontents⟩ := h.last
    have hfirst : (run step (start 0 : Pair ℕ) [.pushBack 1, .pushBack 2, .removeFront]).1.map
        Storage.contents = some [some 1] := by decide
    rw [ha, Option.map_some, hcontents] at hfirst
    exact absurd hfirst (by decide)

end PodArray

end Uberos
