import Uberos.String.Buffer
import Uberos.Library.Run
/-!
# `String8`s under appends

Some strings, each run beside what has been appended to it. An append
does what it is to do unless it moves the string out of `localData`: there
the pointer and the size are set before the characters they are set over
are copied. One of a string to itself copies the null it has written over.
-/

namespace Uberos

namespace String8

open Library PodArray

variable (T : Target)

/-- A move out of `localData` writes over each character what stood there. -/
def Spared (pointer count : ℕ) (xs : List Char) : Prop :=
  IsLocal xs → xs.length + count + 1 > localBufferSize →
    ∀ i < xs.length, i < T.wordBytes + 4 →
      xs[i]? = (Fields.overlaid T pointer (xs.length + count))[i]?

/-- The character a string appended to itself ends with, in the place of
the null: its first, or what stands behind it in `localData` once it has
left that. -/
def selfLast (pointer : ℕ) (xs : List Char) : Option Char :=
  if IsLocal xs ∧ xs.length + xs.length + 1 > localBufferSize then
    if xs.length < T.wordBytes + 4 then
      (Fields.overlaid T pointer (xs.length + xs.length))[xs.length]?
    else some '\x00'
  else xs.head?

instance (pointer count : ℕ) (xs : List Char) : Decidable (Spared T pointer count xs) :=
  inferInstanceAs (Decidable (_ → _ → _))

variable {T} {pointer count : ℕ} {xs ys zs : List Char}

/-- **Room leaves a string as it is just where its characters are spared.** -/
theorem roomed_eq_iff : roomed T pointer count xs = xs ↔ Spared T pointer count xs := by
  rw [roomed, Spared]
  split
  · rename_i hleaves
    constructor
    · intro heq _ _ i hi hbytes
      have hat := congrArg (fun ys => ys[i]?) heq
      rw [getElem?_resizeLocal hi, if_pos hbytes] at hat
      exact hat.symm
    · intro hspared
      refine List.ext_getElem? fun i => ?_
      rcases Nat.lt_or_ge i xs.length with hi | hi
      · rw [getElem?_resizeLocal hi]
        split
        · rename_i hbytes
          exact (hspared hleaves.1 hleaves.2 i hi hbytes).symm
        · rfl
      · rw [List.getElem?_eq_none hi, List.getElem?_eq_none (by rwa [length_resizeLocal])]
  · rename_i hstays
    exact iff_of_true rfl fun hlocal hlong => absurd ⟨hlocal, hlong⟩ hstays

namespace Fields

variable {s s' source : Fields} {isLocal : Bool} {c : Char}

/-! ## The appends -/

/-- **`append(c)`** puts a character behind what room leaves. -/
theorem Holds.appendChar (h : Holds s (terminated xs)) (hfits : xs.length + 1 + 1 < 2 ^ 32) :
    ∃ s', appendChar T pointer s c = some s' ∧
      Holds s' (terminated (roomed T pointer 1 xs ++ [c])) := by
  obtain ⟨s₁, isLocal, hs₁, hreads, hroom, hlocal, -⟩ :=
    h.makeRoom T pointer (Nat.zero_le 1) (Nat.le_refl _) hfits
  have hlength : s₁.length = xs.length := by simpa using hreads.length
  have hdata := (hreads.hold_take.concat c).concat '\x00'
  rw [List.length_append, length_roomed, List.length_singleton] at hdata
  have hzs : (terminated (roomed T pointer 1 xs ++ [c])).length = xs.length + 1 + 1 := by
    rw [length_terminated, List.length_append, length_roomed, List.length_singleton]
  have hholds := holds_withCells hzs.symm (by omega) hreads.word hlocal hdata
  refine ⟨_, ?_, hholds⟩
  rw [Fields.appendChar, hs₁, Option.bind_some]
  dsimp only
  rw [hlength, Nat.mod_eq_of_lt (by omega), if_pos ⟨by omega, hroom⟩]

/-- **`append(source)`** of characters puts them there, as the string's
model does, -/
theorem Holds.appendText (h : Holds s (terminated xs)) {source : List Char}
    (hfits : xs.length + (cString source).length + 1 < 2 ^ 32) :
    ∃ s', appendText T pointer s source = some s' ∧
      Holds s' (terminated (append T pointer xs source)) := by
  have hwidth : 2 ^ 32 ≤ T.wordSize := by cases T <;> decide
  rw [Fields.appendText]
  dsimp only
  split
  · rename_i hempty
    rw [append, if_pos hempty]
    exact ⟨s, rfl, h⟩
  · rename_i hsource
    obtain ⟨s₁, isLocal, hs₁, hreads, hroom, hlocal, -⟩ :=
      h.makeRoom T pointer (Nat.le_refl 1) hwidth hfits
    rw [hs₁, append_eq_roomed hsource, terminated, List.append_assoc]
    refine hreads.copyBehind (by simp) (by rwa [length_roomed]) (by rwa [length_roomed])
      (Nat.lt_succ_self _) hwidth (by rwa [length_roomed]) fun i _ => rfl

/-- and of another string, -/
theorem Holds.appendString (h : Holds s (terminated xs)) (hsource : Holds source (terminated ys))
    (hne : 0 < ys.length) (hfits : xs.length + ys.length + 1 < 2 ^ 32) :
    ∃ s', appendString T pointer s source = some s' ∧
      Holds s' (terminated (roomed T pointer ys.length xs ++ ys)) := by
  have hlength : source.length = ys.length := by simpa using hsource.length
  have hsize := hsource.room
  rw [length_terminated] at hsize
  obtain ⟨s₁, isLocal, hs₁, hreads, hroom, hlocal, -⟩ :=
    h.makeRoom T pointer (Nat.le_refl 1) (Nat.le_refl _) hfits
  rw [Fields.appendString, hlength, if_neg (by omega), hs₁, terminated, List.append_assoc]
  exact hreads.copyBehind (by simp) (by rwa [length_roomed]) (by rwa [length_roomed]) hsize
    (Nat.le_refl _) (by rwa [length_roomed]) hsource.data

variable (T pointer) in
/-- What `localData` reads of a string that has left it. -/
theorem Holds.localData_left (h : Holds s (terminated xs)) (hlocal : s.IsLocal) (newSize : ℕ) :
    ∃ last, (if xs.length < T.wordBytes + 4 then (overlaid T pointer newSize)[xs.length]?
        else some '\x00') = some last ∧
      (overlay T pointer newSize s.localData).Hold (resizeLocal T pointer newSize xs ++ [last]) := by
  have hdata := h.data
  simp only [decide_eq_true hlocal, cells, if_true] at hdata
  have hhold := hold_overlay T pointer newSize hdata
  have hlast : ∃ last, (if xs.length < T.wordBytes + 4 then
      (overlaid T pointer newSize)[xs.length]? else some '\x00') = some last := by
    split
    · rename_i hbytes
      rw [← length_overlaid T pointer newSize] at hbytes
      exact ⟨_, List.getElem?_eq_getElem hbytes⟩
    · exact ⟨_, rfl⟩
  obtain ⟨last, hlast⟩ := hlast
  have hat : overlay T pointer newSize s.localData xs.length = some last := by
    rw [← hlast, overlay]
    split
    · rfl
    · rw [hdata xs.length (by simp), getElem?_terminated_length]
  refine ⟨last, hlast, ?_⟩
  have hconcat := hhold.concat last
  rwa [length_resizeLocal, ← hat, Function.update_eq_self] at hconcat

/-- A string's characters, copied from its buffer behind themselves: the
null has been written over once it is its turn. -/
theorem hold_touching {cells : Cells Char} (hne : 0 < xs.length)
    (h : cells.Hold (terminated xs)) {last : Char} (hlast : xs.head? = some last) :
    (cells.moveForwards xs.length 0 (xs.length + 1)).Hold (xs ++ xs ++ [last]) := by
  have hxs : cells.Hold xs := h.of_append
  have hfirst : cells 0 = some last := by rw [hxs 0 hne, ← List.head?_eq_getElem?, hlast]
  have hconcat := (hxs.behind hxs).concat last
  rwa [List.length_append, ← hfirst, ← Cells.moveForwards_touching cells hne (Nat.zero_add _)]
    at hconcat

/-- and of the string itself, but for the null. -/
theorem Holds.appendSelf (h : Holds s (terminated xs)) (hne : 0 < xs.length)
    (hfits : xs.length + xs.length + 1 < 2 ^ 32) :
    ∃ s', appendSelf T pointer s = some s' ∧
      Holds s' (roomed T pointer xs.length xs ++ roomed T pointer xs.length xs ++
        (selfLast T pointer xs).toList) := by
  have hlength : s.length = xs.length := by simpa using h.length
  have hiff := h.isLocal_iff
  obtain ⟨s₁, isLocal, hs₁, hreads, hroom, hlocal, hleft⟩ :=
    h.makeRoom T pointer (Nat.le_refl 1) (Nat.le_refl _) hfits
  have hlength₁ : s₁.length = xs.length := by simpa using hreads.length
  have hiff₁ : s₁.IsLocal ↔ s.IsLocal := by rw [Fields.IsLocal, Fields.IsLocal, hlength, hlength₁]
  have hflag : decide s₁.IsLocal = isLocal ↔
      ¬ (String8.IsLocal xs ∧ xs.length + xs.length + 1 > localBufferSize) := by
    rw [hlocal, decide_eq_decide, hiff₁, hiff, String8.IsLocal]
    omega
  rw [Fields.appendSelf, hlength, if_neg (by omega), hs₁, Option.bind_some]
  dsimp only
  rw [hlength₁, Nat.mod_eq_of_lt (by omega : xs.length + 1 < 2 ^ 32),
    Nat.mod_eq_of_lt (by omega : xs.length + xs.length < 2 ^ 32)]
  by_cases hleaves : String8.IsLocal xs ∧ xs.length + xs.length + 1 > localBufferSize
  · -- what is copied is what `localData` reads by then
    have hwas : s.IsLocal := hiff.2 hleaves.1
    have hheap : isLocal = false := by rw [hlocal, decide_eq_false (by omega)]
    have hroomed : resizeLocal T pointer (xs.length + xs.length) xs =
        roomed T pointer xs.length xs := (if_pos hleaves).symm
    obtain ⟨last, hlast, hhold⟩ := h.localData_left T pointer hwas (xs.length + xs.length)
    rw [← hleft hwas hheap, hroomed] at hhold
    have hxs : xs.length < s₁.size true := hleaves.1
    have hcopied : ∃ s', copyBehind s₁ isLocal (s₁.size true) (s₁.cells true) xs.length (2 ^ 32) =
        some s' ∧
        Holds s' (roomed T pointer xs.length xs ++ (roomed T pointer xs.length xs ++ [last])) :=
      hreads.copyBehind (by simp) (by rwa [length_roomed]) (by rwa [length_roomed]) hxs
        (Nat.le_refl _) (by rwa [length_roomed]) hhold
    obtain ⟨s', hcopy, hs'⟩ := hcopied
    rw [if_neg fun hcon => hflag.1 hcon hleaves, decide_eq_true (hiff₁.2 hwas), selfLast,
      if_pos hleaves, hlast, Option.toList_some, List.append_assoc]
    exact ⟨s', hcopy, hs'⟩
  -- the copy runs into itself, and ends with what the string starts with
  · have hroomed : roomed T pointer xs.length xs = xs := if_neg hleaves
    obtain ⟨last, hlast⟩ : ∃ last, xs.head? = some last :=
      ⟨_, List.head?_eq_some_head (List.length_pos_iff.1 hne)⟩
    rw [hroomed] at hreads
    have hzs : xs.length + xs.length + 1 = (xs ++ xs ++ [last]).length := by
      rw [List.length_append, List.length_append, List.length_singleton]
    have hholds := holds_withCells hzs (by omega) hreads.word hlocal
      (hold_touching hne hreads.data hlast)
    rw [if_pos (hflag.2 hleaves), if_pos (by omega), selfLast, if_neg hleaves, hroomed, hlast,
      Option.toList_some]
    exact ⟨_, rfl, hholds⟩

/-! ## Lengths

A string's length is of 32 bits, and one of all 32 bits takes itself for
local. -/

theorem length_copyBehind {size width : ℕ} {cells : Cells Char}
    (h : copyBehind s isLocal size cells count width = some s') : s'.length < 2 ^ 32 := by
  rw [copyBehind] at h
  split at h
  · obtain ⟨data, -, rfl⟩ := Option.map_eq_some_iff.1 h
    exact Nat.mod_lt _ (by decide)
  · cases h

theorem length_appendChar (h : Fields.appendChar T pointer s c = some s') : s'.length < 2 ^ 32 := by
  obtain ⟨⟨s₁, isLocal₁⟩, -, h⟩ := Option.bind_eq_some_iff.1 h
  dsimp only at h
  split at h
  · cases h
    exact Nat.mod_lt _ (by decide)
  · cases h

theorem length_appendText {text : List Char} (hs : s.length < 2 ^ 32)
    (h : Fields.appendText T pointer s text = some s') : s'.length < 2 ^ 32 := by
  rw [Fields.appendText] at h
  split at h
  · cases h
    exact hs
  · obtain ⟨r, -, h⟩ := Option.bind_eq_some_iff.1 h
    exact length_copyBehind h

theorem length_appendString (hs : s.length < 2 ^ 32)
    (h : Fields.appendString T pointer s source = some s') : s'.length < 2 ^ 32 := by
  rw [Fields.appendString] at h
  split at h
  · cases h
    exact hs
  · obtain ⟨r, -, h⟩ := Option.bind_eq_some_iff.1 h
    exact length_copyBehind h

theorem length_appendSelf (hs : s.length < 2 ^ 32)
    (h : Fields.appendSelf T pointer s = some s') : s'.length < 2 ^ 32 := by
  rw [Fields.appendSelf] at h
  split at h
  · cases h
    exact hs
  · obtain ⟨⟨s₁, isLocal₁⟩, -, h⟩ := Option.bind_eq_some_iff.1 h
    dsimp only at h
    split at h
    · split at h
      · cases h
        exact Nat.mod_lt _ (by decide)
      · cases h
    · exact length_copyBehind h

end Fields

/-! ## Runs -/

variable (Id : Type*) in
/-- The appends, called with the address of the buffer a resize is given. -/
inductive Op
  | char (string : Id) (c : Char) (pointer : ℕ)
  | text (string : Id) (source : List Char) (pointer : ℕ)
  | string (string source : Id) (pointer : ℕ)

/-- A string, unless it has left its buffers, and what has been appended. -/
abbrev Pair := Option Fields × List Char

variable {Id : Type*} [DecidableEq Id]

variable (T) in
/-- One append on each side. -/
def step (strings : Id → Pair) : Op Id → Id → Pair
  | .char i c pointer =>
    Function.update strings i
      ((strings i).1.bind fun s => s.appendChar T pointer c, (strings i).2 ++ [c])
  | .text i source pointer =>
    Function.update strings i
      ((strings i).1.bind fun s => s.appendText T pointer source, (strings i).2 ++ cString source)
  | .string i j pointer =>
    Function.update strings i
      ((strings i).1.bind fun s =>
          if i = j then s.appendSelf T pointer
          else (strings j).1.bind fun source => s.appendString T pointer source,
        (strings i).2 ++ (strings j).2)

/-- `get_data()` is the characters followed by a null, `length` is how
many there are, and no append has left the buffers. -/
def RefinesString (p : Pair) : Prop :=
  ∃ s, p.1 = some s ∧ s.length = p.2.length ∧
    ∀ i ≤ p.2.length, s.getData i = (terminated p.2)[i]?

/-- **Each string is what has been appended to it.** -/
def Refines (strings : Id → Pair) : Prop := ∀ i, RefinesString (strings i)

variable (T) in
/-- **An append of anything fits 32 bits and spares the string**, and one
to itself ends it with a null. -/
def Sound (strings : Id → Pair) : Op Id → Prop
  | .char i _ pointer =>
    (strings i).2.length + 1 + 1 < 2 ^ 32 ∧ Spared T pointer 1 (strings i).2
  | .text i source pointer =>
    cString source = [] ∨
      (strings i).2.length + (cString source).length + 1 < 2 ^ 32 ∧
        Spared T pointer (cString source).length (strings i).2
  | .string i j pointer =>
    (strings j).2 = [] ∨
      (strings i).2.length + (strings j).2.length + 1 < 2 ^ 32 ∧
        Spared T pointer (strings j).2.length (strings i).2 ∧
          (i = j → selfLast T pointer (strings i).2 = some '\x00')

instance (strings : Id → Pair) : ∀ op, Decidable (Sound T strings op)
  | .char _ _ _ => inferInstanceAs (Decidable (_ ∧ _))
  | .text _ _ _ => inferInstanceAs (Decidable (_ ∨ _ ∧ _))
  | .string _ _ _ => inferInstanceAs (Decidable (_ ∨ _ ∧ _ ∧ (_ → _)))

/-- Each string reads what has been appended to it. -/
def Kept (strings : Id → Pair) : Prop :=
  ∀ i, ∃ s, (strings i).1 = some s ∧ s.Holds (terminated (strings i).2)

variable {s s' : Fields} {strings : Id → Pair} {op : Op Id}

/-- What a string reads is what `get_data()` is. -/
theorem Fields.Holds.getData (h : s.Holds zs) {i : ℕ} (hi : i < zs.length) :
    s.getData i = zs[i]? := by
  rw [Fields.getData, if_pos (Nat.lt_of_lt_of_le hi h.room), h.data i hi]

theorem refinesString_iff (h : s.Holds zs) :
    RefinesString (some s, ys) ↔ zs = terminated ys := by
  have hlength := h.length
  constructor
  · rintro ⟨s', hs', hys, hdata⟩
    cases hs'
    have hzs : zs.length = ys.length + 1 := by rw [← hlength, hys]
    refine List.ext_getElem? fun i => ?_
    rcases Nat.lt_or_ge i zs.length with hi | hi
    · have hle : i ≤ ys.length := by omega
      rw [← h.getData hi, hdata i hle]
    · rw [List.getElem?_eq_none hi, List.getElem?_eq_none (by rw [length_terminated, ← hzs]; exact hi)]
  · rintro rfl
    rw [length_terminated] at hlength
    refine ⟨s, rfl, Nat.succ_injective hlength, fun i hi => h.getData ?_⟩
    rw [length_terminated]
    exact Nat.lt_succ_of_le hi

/-- A string that is what has been appended to it is of less than 32
bits, with its null. -/
theorem RefinesString.fits (h : RefinesString (some s, ys)) (hs : s.length < 2 ^ 32) :
    ys.length + 1 < 2 ^ 32 := by
  obtain ⟨s', hs', hys, hdata⟩ := h
  cases hs'
  have hys : s.length = ys.length := hys
  by_contra hlong
  -- it takes itself for local, and ends far beyond
  have hlocal : s.IsLocal := by
    rw [Fields.IsLocal, show s.length + 1 = 2 ^ 32 by omega]
    decide
  have hnone : s.getData ys.length = none := by
    rw [Fields.getData, decide_eq_true hlocal, if_neg]
    have hsize : localBufferSize < 2 ^ 32 - 1 := by decide
    simp only [Fields.size, if_true]
    omega
  rw [hdata _ (Nat.le_refl _), getElem?_terminated_length] at hnone
  cases hnone

/-- **An append that leaves a string to read a list** refines it just where
that list is what it is to be. -/
theorem refinesString_iff_of {result : Option Fields} (hlength : ∀ s ∈ result, s.length < 2 ^ 32)
    (hread : ys.length + 1 < 2 ^ 32 → ∃ s, result = some s ∧ s.Holds zs) :
    RefinesString (result, ys) ↔ ys.length + 1 < 2 ^ 32 ∧ zs = terminated ys := by
  constructor
  · intro hrefines
    obtain ⟨s, hs, -⟩ := id hrefines
    have hs : result = some s := hs
    subst hs
    have hfits := hrefines.fits (hlength s rfl)
    obtain ⟨s', hs', hholds⟩ := hread hfits
    rw [hs', refinesString_iff hholds] at hrefines
    exact ⟨hfits, hrefines⟩
  · rintro ⟨hfits, rfl⟩
    obtain ⟨s, rfl, hholds⟩ := hread hfits
    exact (refinesString_iff hholds).2 rfl

theorem terminated_inj : terminated xs = terminated ys ↔ xs = ys :=
  ⟨terminated_injective, fun h => h ▸ rfl⟩

omit [DecidableEq Id] in
theorem Kept.refines (h : Kept strings) : Refines strings := by
  intro i
  obtain ⟨s, hs, hholds⟩ := h i
  obtain ⟨s', hs', hrefines⟩ := (refinesString_iff hholds).2 rfl
  exact ⟨s', hs.trans hs', hrefines⟩

/-- The other strings are kept. -/
theorem Kept.refines_update_iff (h : Kept strings) {i : Id} {p : Pair} :
    Refines (Function.update strings i p) ↔ RefinesString p := by
  refine ⟨fun hall => ?_, fun hp j => ?_⟩
  · have hat := hall i
    rwa [Function.update_self] at hat
  · rw [Function.update_apply]
    split
    · exact hp
    · exact h.refines j

/-- What an append to itself is to leave. -/
theorem self_eq_iff :
    roomed T pointer xs.length xs ++ roomed T pointer xs.length xs ++
        (selfLast T pointer xs).toList = terminated (xs ++ xs) ↔
      Spared T pointer xs.length xs ∧ selfLast T pointer xs = some '\x00' := by
  rw [← roomed_eq_iff, terminated]
  constructor
  · intro heq
    have hlength : (roomed T pointer xs.length xs ++ roomed T pointer xs.length xs).length =
        (xs ++ xs).length := by
      rw [List.length_append, List.length_append, length_roomed]
    obtain ⟨hchars, hlast⟩ := List.append_inj heq hlength
    exact ⟨(List.append_inj hchars length_roomed).1, Option.toList_eq_singleton_iff.1 hlast⟩
  · rintro ⟨hroomed, hlast⟩
    rw [hroomed, hlast]
    rfl

variable (T) in
/-- **What an append does**: to one string, which reads a list if the new
length fits, and what it is to read just if the append is sound. -/
def Appends (strings : Id → Pair) (op : Op Id) : Prop :=
  ∃ i result ys zs, step T strings op = Function.update strings i (result, ys) ∧
    (∀ s ∈ result, s.length < 2 ^ 32) ∧
    (ys.length + 1 < 2 ^ 32 → ∃ s, result = some s ∧ s.Holds zs) ∧
    (Sound T strings op ↔ ys.length + 1 < 2 ^ 32 ∧ zs = terminated ys)

/-- Nothing is appended, and the string is as it was. -/
theorem appends_nothing {i : Id} (hholds : s.Holds (terminated (strings i).2))
    (hstep : step T strings op = Function.update strings i (some s, (strings i).2))
    (hsound : Sound T strings op) : Appends T strings op := by
  refine ⟨i, some s, (strings i).2, terminated (strings i).2, hstep, fun s' hs' => ?_,
    fun _ => ⟨s, rfl, hholds⟩, iff_of_true hsound ⟨hholds.fits, rfl⟩⟩
  cases hs'
  exact hholds.length_lt

theorem Kept.appends_char (h : Kept strings) (i : Id) (c : Char) (pointer : ℕ) :
    Appends T strings (.char i c pointer) := by
  obtain ⟨s, hs, hholds⟩ := h i
  refine ⟨i, s.appendChar T pointer c, (strings i).2 ++ [c], _, ?_,
    fun s' hs' => Fields.length_appendChar hs',
    fun hfits => hholds.appendChar (by simpa using hfits), ?_⟩
  · rw [step, hs, Option.bind_some]
  · rw [Sound, terminated_inj, List.append_cancel_right_eq, roomed_eq_iff, List.length_append,
      List.length_singleton]

theorem Kept.appends_text (h : Kept strings) (i : Id) (source : List Char) (pointer : ℕ) :
    Appends T strings (.text i source pointer) := by
  obtain ⟨s, hs, hholds⟩ := h i
  -- nothing is read from an empty source, and no room is made
  by_cases hsource : cString source = []
  · have hsame : s.appendText T pointer source = some s := by
      rw [Fields.appendText, hsource, List.length_nil, if_pos Nat.one_pos]
    refine appends_nothing hholds ?_ (Or.inl hsource)
    rw [step, hs, Option.bind_some, hsame, hsource, List.append_nil]
  · have hpos : ¬ (cString source).length < 1 := by
      rw [Nat.lt_one_iff, List.length_eq_zero_iff]
      exact hsource
    refine ⟨i, s.appendText T pointer source, (strings i).2 ++ cString source, _, ?_,
      fun s' hs' => Fields.length_appendText hholds.length_lt hs',
      fun hfits => hholds.appendText (by rwa [List.length_append] at hfits), ?_⟩
    · rw [step, hs, Option.bind_some]
    · rw [Sound, terminated_inj, append_eq_roomed hpos, List.append_cancel_right_eq,
        roomed_eq_iff, List.length_append, or_iff_right hsource]

/-- An empty string appends nothing, to itself neither. -/
theorem Kept.appends_empty (h : Kept strings) {i j : Id} {pointer : ℕ}
    (hempty : (strings j).2 = []) : Appends T strings (.string i j pointer) := by
  obtain ⟨s, hs, hholds⟩ := h i
  obtain ⟨source, hsource, hholds'⟩ := h j
  have hlength : source.length = 0 := by
    have hlength := hholds'.length
    rw [hempty] at hlength
    simpa using hlength
  have hsame : (if i = j then s.appendSelf T pointer
      else (strings j).1.bind fun source => s.appendString T pointer source) = some s := by
    split
    · rename_i hij
      subst hij
      obtain rfl : s = source := Option.some.inj (hs.symm.trans hsource)
      rw [Fields.appendSelf, if_pos (by omega)]
    · rw [hsource, Option.bind_some, Fields.appendString, if_pos (by omega)]
  refine appends_nothing hholds ?_ (Or.inl hempty)
  rw [step, hs, Option.bind_some, hsame, hempty, List.append_nil]

/-- A string to itself, -/
theorem Kept.appends_self (h : Kept strings) {i : Id} {pointer : ℕ}
    (hne : (strings i).2 ≠ []) : Appends T strings (.string i i pointer) := by
  obtain ⟨s, hs, hholds⟩ := h i
  have hpos : 0 < (strings i).2.length := List.length_pos_iff.2 hne
  refine ⟨i, s.appendSelf T pointer, (strings i).2 ++ (strings i).2, _, ?_,
    fun s' hs' => Fields.length_appendSelf hholds.length_lt hs',
    fun hfits => hholds.appendSelf hpos (by rwa [List.length_append] at hfits), ?_⟩
  · rw [step, hs, Option.bind_some, if_pos rfl]
  · rw [Sound, or_iff_right hne, self_eq_iff, List.length_append]
    simp only [forall_const]

/-- and to another. -/
theorem Kept.appends_other (h : Kept strings) {i j : Id} {pointer : ℕ} (hij : i ≠ j)
    (hne : (strings j).2 ≠ []) : Appends T strings (.string i j pointer) := by
  obtain ⟨s, hs, hholds⟩ := h i
  obtain ⟨source, hsource, hholds'⟩ := h j
  have hpos : 0 < (strings j).2.length := List.length_pos_iff.2 hne
  refine ⟨i, s.appendString T pointer source, (strings i).2 ++ (strings j).2, _, ?_,
    fun s' hs' => Fields.length_appendString hholds.length_lt hs',
    fun hfits => hholds.appendString hholds' hpos (by rwa [List.length_append] at hfits), ?_⟩
  · rw [step, hs, Option.bind_some, if_neg hij, hsource, Option.bind_some]
  · rw [Sound, or_iff_right hne, terminated_inj, List.append_cancel_right_eq, roomed_eq_iff,
      List.length_append]
    simp only [hij, false_imp_iff, and_true]

/-- **Every append does.** -/
theorem Kept.appends (h : Kept strings) (op : Op Id) : Appends T strings op := by
  cases op with
  | char i c pointer => exact h.appends_char i c pointer
  | text i source pointer => exact h.appends_text i source pointer
  | string i j pointer =>
    by_cases hempty : (strings j).2 = []
    · exact h.appends_empty hempty
    · by_cases hij : i = j
      · subst hij
        exact h.appends_self hempty
      · exact h.appends_other hij hempty

/-- **The step lemma**: an append leads to strings that are what has been
appended exactly when it is sound, -/
theorem Kept.refines_iff (h : Kept strings) : Refines (step T strings op) ↔ Sound T strings op := by
  obtain ⟨i, result, ys, zs, hstep, hlength, hread, hsound⟩ := h.appends op
  rw [hstep, h.refines_update_iff, refinesString_iff_of hlength hread, hsound]

/-- and then they read it. -/
theorem Kept.step (h : Kept strings) (hsound : Sound T strings op) : Kept (step T strings op) := by
  obtain ⟨i, result, ys, zs, hstep, -, hread, hiff⟩ := h.appends op
  obtain ⟨hfits, rfl⟩ := hiff.1 hsound
  obtain ⟨s, rfl, hholds⟩ := hread hfits
  intro j
  rw [hstep, Function.update_apply]
  split
  · exact ⟨s, rfl, hholds⟩
  · exact h j

/-- A run from strings that read what they are to read. -/
theorem Kept.run_iff (h : Kept strings) (ops : List (Op Id)) :
    Throughout (String8.step T) Refines strings ops ↔
      Along (String8.step T) (Sound T) strings ops :=
  throughout_iff_along_of_invariant h (fun _ h => h.refines) (fun _ _ h => h.refines_iff)
    (fun _ _ h => h.step) ops

/-- Strings as they are constructed. -/
def start : Id → Pair := fun _ => (some .new, [])

omit [DecidableEq Id] in
theorem kept_start : Kept (start : Id → Pair) := fun _ => ⟨_, rfl, Fields.holds_new⟩

/-- **Over a run each string is what has been appended to it, exactly as
long as every append is sound.** -/
theorem refines_appends_iff (ops : List (Op Id)) :
    Throughout (step T) Refines (start : Id → Pair) ops ↔
      Along (step T) (Sound T) (start : Id → Pair) ops := kept_start.run_iff ops

/-- One character more than the buffer has room for, and the first are
those of the pointer. -/
theorem not_refines_appends :
    ¬ Throughout (step .x86_32) Refines (start : Unit → Pair)
      [.text () "a name of 15 ch".toList 0x41414141, .char () '1' 0x41414141] := by
  rw [kept_start.run_iff]
  decide

/-- An empty string leaves its buffer unharmed, and grows. -/
example : Throughout (step .x86_64) Refines (start : Bool → Pair)
    [.text false "a name of 15 ch".toList 1, .text true "a name of 16 chs".toList 2,
      .char true '1' 3, .string true false 4] := by
  rw [kept_start.run_iff]
  decide

end String8

end Uberos
