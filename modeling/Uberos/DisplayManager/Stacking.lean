import Mathlib.Algebra.Group.Nat.Defs
import Mathlib.Data.List.Infix
import Uberos.LList.Calls
import Uberos.Library.Neighbours
import Uberos.Library.Ranked
import Uberos.Library.Run
/-!
# Restacking displays

The list of displays of `drivers/DisplayManager.cpp` from its creation on,
and what `_create_view`, `_raise_display`, `_place_above`, `_place_below`
and `_set_display_layer` do to it. An `LList` is the sequence of its
items here, a display the address of it.
-/

namespace Uberos

open Library

/-- The list of displays, their layers, and those that were created. -/
structure Stacking (ι : Type*) where
  displays : List ι
  layer : ι → ℕ
  created : List ι

namespace Stacking

variable {ι : Type*} [DecidableEq ι]

/-- Before the first display. -/
def new (layer : ι → ℕ) : Stacking ι := ⟨[], layer, []⟩

/-- What `_create_view` and `_raise_display` do with a display that is on
no list: from the tail, the first of no higher a layer, and after it. -/
def insertByLayer (layer : ι → ℕ) (display : ι) (displays : List ι) : List ι :=
  if displays.length < 1 then displays ++ [display]
  else
    match displays.reverse.find? fun other => layer other ≤ layer display with
    | some other => putAfter other display displays
    | none => display :: displays

/-- `_create_view`, of a display at this address. -/
def createView (s : Stacking ι) (display : ι) (layer : ℕ) : Stacking ι :=
  { displays := insertByLayer (Function.update s.layer display layer) display s.displays
    layer := Function.update s.layer display layer
    created := s.created ++ [display] }

/-- `_place_above`. -/
def placeAbove (s : Stacking ι) (display other : ι) : Stacking ι :=
  { s with
    displays := putAfter other display (s.displays.erase display)
    layer := Function.update s.layer display (s.layer other) }

/-- `_place_below`. -/
def placeBelow (s : Stacking ι) (display other : ι) : Stacking ι :=
  { s with
    displays := putBefore other display (s.displays.erase display)
    layer := Function.update s.layer display (s.layer other) }

/-- `display.next`. -/
def next (displays : List ι) (display : ι) : Option ι :=
  (displays.dropWhile (· ≠ display)).tail.head?

/-- `_is_display_top`. -/
def isDisplayTop (s : Stacking ι) (display : ι) : Bool :=
  match next s.displays display with
  | none => true
  | some next => s.layer next > s.layer display

/-- `_raise_display`. -/
def raiseDisplay (s : Stacking ι) (display : ι) : Stacking ι :=
  if s.isDisplayTop display then s
  else { s with displays := insertByLayer s.layer display (s.displays.erase display) }

/-- `_set_display_layer`: from the head, the first of no lower a layer,
and before it. -/
def setDisplayLayer (s : Stacking ι) (display : ι) (layer : ℕ) : Stacking ι :=
  if s.layer display = layer then s
  else
    let others := s.displays.erase display
    let layers := Function.update s.layer display layer
    { s with
      displays := match others.find? fun other => layers other ≥ layer with
        | some other => putBefore other display others
        | none => others ++ [display]
      layer := layers }

/-- What is asked of the manager. -/
inductive Op (ι : Type*)
  | create (display : ι) (layer : ℕ)
  | raise (display : ι)
  | placeAbove (display other : ι)
  | placeBelow (display other : ι)
  | setLayer (display : ι) (layer : ℕ)
  deriving DecidableEq, Repr

/-- One call. -/
def step (s : Stacking ι) : Op ι → Stacking ι
  | .create display layer => s.createView display layer
  | .raise display => s.raiseDisplay display
  | .placeAbove display other => s.placeAbove display other
  | .placeBelow display other => s.placeBelow display other
  | .setLayer display layer => s.setDisplayLayer display layer

/-- The display a call is about. -/
def Op.display : Op ι → ι
  | .create display _ | .raise display | .placeAbove display _ | .placeBelow display _
  | .setLayer display _ => display

/-! ## What it is for -/

/-- **A created display is a new one**; the others are displays there are,
and a display is placed by another one. -/
def Legal (s : Stacking ι) : Op ι → Prop
  | .create display _ => display ∉ s.created
  | .raise display | .setLayer display _ => display ∈ s.created
  | .placeAbove display other | .placeBelow display other =>
    display ∈ s.created ∧ other ∈ s.created ∧ display ≠ other

instance (s : Stacking ι) : ∀ op, Decidable (Legal s op)
  | .create display _ => inferInstanceAs (Decidable (display ∉ s.created))
  | .raise display | .setLayer display _ => inferInstanceAs (Decidable (display ∈ s.created))
  | .placeAbove display other | .placeBelow display other =>
    inferInstanceAs (Decidable (display ∈ s.created ∧ other ∈ s.created ∧ display ≠ other))

/-- **The list has the created displays, once each, in the order of their
layers.** -/
structure Stacked (s : Stacking ι) : Prop where
  perm : s.displays.Perm s.created
  nodup : s.displays.Nodup
  inRanks : InRanks s.layer s.displays

/-- A display is the last of its layer. -/
def LastOfLayer (s : Stacking ι) (display : ι) : Prop :=
  ∃ before after, s.displays = before ++ display :: after ∧
    ∀ other ∈ after, s.layer display < s.layer other

/-- **What a call does to the order**: the others keep theirs, a raised
display is the last of its layer, which it keeps, and a placed one the
neighbour of the other. -/
def Placed (s : Stacking ι) (op : Op ι) : Prop :=
  (step s op).displays.erase op.display = s.displays.erase op.display ∧
    match op with
    | .raise display => LastOfLayer (step s op) display ∧ (step s op).layer = s.layer
    | .placeAbove display other => Adjacent (step s op).displays other display
    | .placeBelow display other => Adjacent (step s op).displays display other
    | .create _ _ | .setLayer _ _ => True

/-! ## Putting a display in its place -/

variable {s : Stacking ι} {op : Op ι} {display other : ι} {layer : ι → ℕ} {displays : List ι}

/-- An empty list takes the display either way. -/
theorem insertByLayer_eq (layer : ι → ℕ) (display : ι) (displays : List ι) :
    insertByLayer layer display displays = putLast layer (layer display) display displays := by
  rw [insertByLayer]
  split
  · rename_i hempty
    rw [List.length_eq_zero_iff.1 (Nat.lt_one_iff.1 hempty)]
    rfl
  · rfl

/-- The layers of the others are not the display's to set. -/
theorem inRanks_update (hranks : InRanks layer displays) (hnew : display ∉ displays) (r : ℕ) :
    InRanks (Function.update layer display r) displays := by
  refine hranks.congr fun other hother => Function.update_of_ne ?_ _ _
  rintro rfl
  exact hnew hother

/-- In a stack without one display, the others are in the order of their
layers. -/
theorem Stacked.others (h : Stacked s) (display : ι) (r : ℕ) :
    InRanks (Function.update s.layer display r) (s.displays.erase display) :=
  inRanks_update (h.inRanks.sublist List.erase_sublist) h.nodup.not_mem_erase r

/-- **A display put among the others stacks them all.** -/
theorem Stacked.put (h : Stacked s) (hdisplay : display ∈ s.created) {under : ι → Prop} {r : ℕ}
    (hput : Among (Function.update s.layer display r) r display (s.displays.erase display) displays
      under) :
    Stacked { s with displays := displays, layer := Function.update s.layer display r } ∧
      displays.erase display = s.displays.erase display := by
  have hmem := h.perm.mem_iff.2 hdisplay
  have hperm : displays.Perm s.displays := hput.perm.trans (List.perm_cons_erase hmem).symm
  refine ⟨⟨hperm.trans h.perm, hperm.nodup_iff.2 h.nodup, ?_⟩, hput.erase h.nodup.not_mem_erase⟩
  -- it is put among them by its own layer
  have hown : Function.update s.layer display r display = r := Function.update_self ..
  have hput' : Among (Function.update s.layer display r)
      (Function.update s.layer display r display) display (s.displays.erase display) displays
        under := by
    rw [hown]
    exact hput
  exact hput'.inRanks (h.others display r)

/-- The others around one of them. -/
theorem Stacked.erase_split (h : Stacked s) (hother : other ∈ s.created) (hne : display ≠ other) :
    ∃ before after, s.displays.erase display = before ++ other :: after ∧ other ∉ before := by
  have hmem : other ∈ s.displays.erase display :=
    h.nodup.mem_erase_iff.2 ⟨hne.symm, h.perm.mem_iff.2 hother⟩
  obtain ⟨before, after, hbefore, heq, -⟩ := List.exists_erase_eq hmem
  exact ⟨before, after, heq, hbefore⟩

/-- **A new display is stacked** among those there are. -/
theorem Stacked.createView (h : Stacked s) (hnew : display ∉ s.created) (layer : ℕ) :
    Stacked (s.createView display layer) ∧
      (s.createView display layer).displays.erase display = s.displays.erase display := by
  have hnotMem : display ∉ s.displays := fun hmem => hnew (h.perm.mem_iff.1 hmem)
  have hranks := inRanks_update h.inRanks hnotMem layer
  have hput := among_putLast (r := Function.update s.layer display layer display) (x := display)
    hranks h.nodup
  rw [Stacking.createView, insertByLayer_eq]
  refine ⟨⟨?_, ?_, hput.inRanks hranks⟩, ?_⟩
  · exact (hput.perm.trans (h.perm.cons display)).trans (List.perm_append_singleton _ _).symm
  · exact hput.perm.nodup_iff.2 (List.nodup_cons.2 ⟨hnotMem, h.nodup⟩)
  · rw [hput.erase hnotMem, List.erase_of_not_mem hnotMem]

/-- What comes next in a list. -/
theorem next_append {before after : List ι} (h : display ∉ before) :
    next (before ++ display :: after) display = after.head? := by
  have hbefore : ∀ other ∈ before, decide (other ≠ display) = true := by
    intro other hother
    refine decide_eq_true ?_
    rintro rfl
    exact h hother
  rw [next, List.dropWhile_append_of_pos hbefore]
  simp

/-- **A raised display is the last of its layer.** -/
theorem Stacked.raiseDisplay (h : Stacked s) (hdisplay : display ∈ s.created) :
    Stacked (s.raiseDisplay display) ∧
      (s.raiseDisplay display).displays.erase display = s.displays.erase display ∧
      LastOfLayer (s.raiseDisplay display) display ∧ (s.raiseDisplay display).layer = s.layer := by
  rw [Stacking.raiseDisplay]
  split
  · rename_i htop
    refine ⟨h, rfl, ?_, rfl⟩
    obtain ⟨before, after, hbefore, heq, -⟩ := List.exists_erase_eq (h.perm.mem_iff.2 hdisplay)
    refine ⟨before, after, heq, ?_⟩
    rw [isDisplayTop, heq, next_append hbefore] at htop
    intro other hother
    rcases after with - | ⟨first, after⟩
    · exact absurd hother List.not_mem_nil
    · -- the next one is of a higher layer, and those after it are of no lower ones
      have hfirst : s.layer display < s.layer first := of_decide_eq_true htop
      have hranks := h.inRanks
      rw [heq, InRanks, List.pairwise_append, List.pairwise_cons, List.pairwise_cons] at hranks
      rcases List.mem_cons.1 hother with rfl | hother
      · exact hfirst
      · exact hfirst.trans_le (hranks.2.1.2.1 other hother)
  · have hranks := h.others display (s.layer display)
    rw [Function.update_eq_self] at hranks
    have hput := among_putLast (r := s.layer display) (x := display) hranks (h.nodup.erase display)
    obtain ⟨hstacked, herase⟩ := h.put hdisplay (by rw [Function.update_eq_self]; exact hput)
    rw [Function.update_eq_self] at hstacked
    rw [insertByLayer_eq]
    obtain ⟨before, after, -, heq, -, hafter⟩ := hput
    exact ⟨hstacked, herase, ⟨before, after, heq, fun other hother => (hafter other hother).2⟩, rfl⟩

/-- **A display placed above another comes right after it.** -/
theorem Stacked.placeAbove (h : Stacked s) (hdisplay : display ∈ s.created)
    (hother : other ∈ s.created) (hne : display ≠ other) :
    Stacked (s.placeAbove display other) ∧
      (s.placeAbove display other).displays.erase display = s.displays.erase display ∧
      Adjacent (s.placeAbove display other).displays other display := by
  obtain ⟨before, after, heq, hbefore⟩ := h.erase_split hother hne
  have hput := among_putAfter (x := display) (h.others display (s.layer other)) heq hbefore
  rw [Function.update_of_ne hne.symm] at hput
  obtain ⟨hstacked, herase⟩ := h.put hdisplay hput
  refine ⟨hstacked, herase, before, after, ?_⟩
  rw [Stacking.placeAbove]
  dsimp only
  rw [heq, putAfter_append hbefore]

/-- **A display placed below another comes right before it.** -/
theorem Stacked.placeBelow (h : Stacked s) (hdisplay : display ∈ s.created)
    (hother : other ∈ s.created) (hne : display ≠ other) :
    Stacked (s.placeBelow display other) ∧
      (s.placeBelow display other).displays.erase display = s.displays.erase display ∧
      Adjacent (s.placeBelow display other).displays display other := by
  obtain ⟨before, after, heq, hbefore⟩ := h.erase_split hother hne
  have hput := among_putBefore (x := display) (h.others display (s.layer other)) heq hbefore
  rw [Function.update_of_ne hne.symm] at hput
  obtain ⟨hstacked, herase⟩ := h.put hdisplay hput
  refine ⟨hstacked, herase, before, after, ?_⟩
  rw [Stacking.placeBelow]
  dsimp only
  rw [heq, putBefore_append hbefore]

/-- **A display whose layer is set is at the bottom of it.** -/
theorem Stacked.setDisplayLayer (h : Stacked s) (hdisplay : display ∈ s.created) (r : ℕ) :
    Stacked (s.setDisplayLayer display r) ∧
      (s.setDisplayLayer display r).displays.erase display = s.displays.erase display := by
  rw [Stacking.setDisplayLayer]
  split
  · exact ⟨h, rfl⟩
  · exact h.put hdisplay (among_putFirst (h.others display r))

/-- **The step lemma**: a call keeps the displays stacked, and puts its
own where it should be. -/
theorem Stacked.step (h : Stacked s) (hlegal : Legal s op) : Stacked (step s op) ∧ Placed s op := by
  cases op with
  | create display layer =>
    obtain ⟨hstacked, herase⟩ := h.createView hlegal layer
    exact ⟨hstacked, herase, trivial⟩
  | raise display =>
    obtain ⟨hstacked, herase, hlast⟩ := h.raiseDisplay hlegal
    exact ⟨hstacked, herase, hlast⟩
  | placeAbove display other =>
    obtain ⟨hstacked, herase, hadjacent⟩ := h.placeAbove hlegal.1 hlegal.2.1 hlegal.2.2
    exact ⟨hstacked, herase, hadjacent⟩
  | placeBelow display other =>
    obtain ⟨hstacked, herase, hadjacent⟩ := h.placeBelow hlegal.1 hlegal.2.1 hlegal.2.2
    exact ⟨hstacked, herase, hadjacent⟩
  | setLayer display layer =>
    obtain ⟨hstacked, herase⟩ := h.setDisplayLayer hlegal layer
    exact ⟨hstacked, herase, trivial⟩

/-! ## Runs -/

/-- **Over every run the list has the displays created, once each, in the
order of their layers**, and every call puts its display in its place. -/
theorem stacked_run (layer : ι → ℕ) (ops : List (Op ι)) (hlegal : Along step Legal (new layer) ops) :
    Throughout step Stacked (new layer) ops ∧ Along step Placed (new layer) ops := by
  have hnew : Stacked (new layer) := ⟨List.Perm.refl _, List.nodup_nil, List.Pairwise.nil⟩
  exact ⟨throughout_of_invariant hlegal hnew (fun _ _ h hop => (h.step hop).1) fun _ h => h,
    along_of_invariant hlegal hnew (fun _ _ h hop => (h.step hop).1) fun _ _ h hop => (h.step hop).2⟩

/-- Displays of three layers, moved past one another and back. -/
theorem stacked_run_mixed :
    let ops : List (Op ℕ) := [.create 1 64, .create 2 64, .create 3 128, .raise 1, .placeAbove 3 2,
      .setLayer 2 192, .placeBelow 2 1, .setLayer 1 0, .raise 3]
    Throughout step Stacked (new fun _ => 7) ops ∧ Along step Placed (new fun _ => 7) ops :=
  stacked_run _ _ (by decide)

/-- The list after them. -/
example : (run step (new fun _ => 7) [.create 1 64, .create 2 64, .create 3 128, .raise 1,
    .placeAbove 3 2, .setLayer 2 192, .placeBelow 2 1, .setLayer 1 0, .raise 3]).displays =
      [1, 2, 3] := by decide

end Stacking

end Uberos

/-!
## The links of the displays

The same functions as the source has them: on the links of the displays
and the ends of the list, with loops that follow `prev` from the tail or
`next` from the head for so many turns at most. As long as a `U32` counts
the displays, the links spell the list of a `Stacking` after every call.
-/

namespace Uberos

open Library LList

/-- The links, the ends, and the layers of the displays. -/
structure DisplayList (ι : Type*) where
  links : Links ι
  displays : LList ι
  layer : ι → ℕ

namespace DisplayList

variable {ι : Type*} [DecidableEq ι]

/-- A `for` along links from one end of the list, to the first display
that passes a test. -/
def find (link : ι → Option ι) (test : ι → Bool) : ℕ → Option ι → Option ι
  | _, none => none
  | 0, some _ => none
  | turns + 1, some other => if test other then some other else find link test turns (link other)

/-- What a call of the list leaves. -/
def relink (s : DisplayList ι) (called : Links ι × LList ι) : DisplayList ι :=
  { s with links := called.1, displays := called.2 }

/-- The part that `_create_view` and `_raise_display` share. -/
def insertByLayer (s : DisplayList ι) (display : ι) (turns : ℕ) : DisplayList ι :=
  if s.displays.size < 1 then s.relink (pushBack s.links s.displays display)
  else
    match find s.links.prev (fun other => s.layer other ≤ s.layer display) turns s.displays.tail with
    | some other => s.relink (insertAfter s.links s.displays other display)
    | none =>
      match s.displays.head with
      | some head => s.relink (insertBefore s.links s.displays head display)
      | none => s

/-- `display.layer = layer`. -/
def setLayer (s : DisplayList ι) (display : ι) (layer : ℕ) : DisplayList ι :=
  { s with layer := Function.update s.layer display layer }

/-- `displays.pop(display)`. -/
def popDisplay (s : DisplayList ι) (display : ι) : DisplayList ι :=
  s.relink (pop s.links s.displays display)

/-- `_is_display_top`. -/
def isDisplayTop (s : DisplayList ι) (display : ι) : Bool :=
  match s.links.next display with
  | none => true
  | some next => s.layer next > s.layer display

/-- `_raise_display`. -/
def raiseDisplay (s : DisplayList ι) (display : ι) (turns : ℕ) : DisplayList ι :=
  if s.isDisplayTop display then s else (s.popDisplay display).insertByLayer display turns

/-- `_place_above`. -/
def placeAbove (s : DisplayList ι) (display other : ι) : DisplayList ι :=
  let s := (s.popDisplay display).setLayer display (s.layer other)
  s.relink (insertAfter s.links s.displays other display)

/-- `_place_below`. -/
def placeBelow (s : DisplayList ι) (display other : ι) : DisplayList ι :=
  let s := (s.popDisplay display).setLayer display (s.layer other)
  s.relink (insertBefore s.links s.displays other display)

/-- `_set_display_layer`. -/
def setDisplayLayer (s : DisplayList ι) (display : ι) (layer turns : ℕ) : DisplayList ι :=
  if s.layer display = layer then s
  else
    let s := (s.popDisplay display).setLayer display layer
    match find s.links.next (fun other => s.layer other ≥ layer) turns s.displays.head with
    | some other => s.relink (insertBefore s.links s.displays other display)
    | none => s.relink (pushBack s.links s.displays display)

/-- One call, with turns for the loops. -/
def step (turns : ℕ) (s : DisplayList ι) : Stacking.Op ι → DisplayList ι
  | .create display layer => (s.setLayer display layer).insertByLayer display turns
  | .raise display => s.raiseDisplay display turns
  | .placeAbove display other => s.placeAbove display other
  | .placeBelow display other => s.placeBelow display other
  | .setLayer display layer => s.setDisplayLayer display layer turns

/-! ## What the links spell -/

variable {s : DisplayList ι} {t : Stacking ι} {xs : List ι} {display other : ι} {turns : ℕ}
variable {op : Stacking.Op ι}

/-- **The links spell the list.** -/
structure Refines (s : DisplayList ι) (t : Stacking ι) : Prop where
  represents : Represents s.links s.displays t.displays
  layer : s.layer = t.layer

omit [DecidableEq ι] in
/-- The loop finds what a search of the list finds. -/
theorem find_eq {link : ι → Option ι} {start : Option ι} (h : Follows link start xs)
    (test : ι → Bool) (hturns : xs.length ≤ turns) : find link test turns start = xs.find? test := by
  induction xs generalizing start turns with
  | nil =>
    obtain rfl : start = none := h
    cases turns <;> rfl
  | cons x xs ih =>
    obtain ⟨rfl, hrest⟩ := h
    obtain ⟨turns, rfl⟩ : ∃ n, turns = n + 1 := ⟨turns - 1, by simp at hturns; omega⟩
    rw [find, List.find?_cons, ih hrest (by simpa using hturns)]
    split <;> simp [*]

/-- A display after another of the list. -/
theorem represents_insertAfter {links : Links ι} {list : LList ι} (h : Represents links list xs)
    (hother : other ∈ xs) (hnew : display ∉ xs) :
    Represents (insertAfter links list other display).1 (insertAfter links list other display).2
      (putAfter other display xs) := by
  obtain ⟨before, after, hbefore, rfl, -⟩ := List.exists_erase_eq hother
  rw [putAfter_append hbefore]
  exact (h.insertAfter hnew).1

/-- A display before another of the list. -/
theorem represents_insertBefore {links : Links ι} {list : LList ι} (h : Represents links list xs)
    (hother : other ∈ xs) (hnew : display ∉ xs) :
    Represents (insertBefore links list other display).1 (insertBefore links list other display).2
      (putBefore other display xs) := by
  obtain ⟨before, after, hbefore, rfl, -⟩ := List.exists_erase_eq hother
  rw [putBefore_append hbefore]
  exact (h.insertBefore hnew).1

/-- **The scan from the tail.** -/
theorem represents_insertByLayer (h : Represents s.links s.displays xs) (hnew : display ∉ xs)
    (hturns : xs.length ≤ turns) (hshort : xs.length < 2 ^ 32) :
    Represents (s.insertByLayer display turns).links (s.insertByLayer display turns).displays
        (Stacking.insertByLayer s.layer display xs) ∧
      (s.insertByLayer display turns).layer = s.layer := by
  have hsize : s.displays.size = xs.length := h.size.trans (Nat.mod_eq_of_lt hshort)
  have hwalk : Follows s.links.prev s.displays.tail xs.reverse := h.tail ▸ h.linked.follows_prev
  rw [insertByLayer, Stacking.insertByLayer, hsize,
    find_eq hwalk _ (by rw [List.length_reverse]; exact hturns)]
  split
  · exact ⟨(h.pushBack hnew).1, rfl⟩
  · rename_i hsome
    rcases hfind : xs.reverse.find? fun other => s.layer other ≤ s.layer display with - | other
    · rcases xs with - | ⟨first, xs⟩
      · exact absurd Nat.one_pos hsome
      · have hhead : s.displays.head = some first := h.head
        have hlist : Represents s.links s.displays ([] ++ first :: xs) := h
        simp only [hhead]
        exact ⟨(hlist.insertBefore hnew).1, rfl⟩
    · have hother : other ∈ xs := List.mem_reverse.1 (List.mem_of_find?_eq_some hfind)
      exact ⟨represents_insertAfter h hother hnew, rfl⟩

/-- **The scan from the head.** -/
theorem represents_insertUnder (h : Represents s.links s.displays xs) (hnew : display ∉ xs)
    (hturns : xs.length ≤ turns) (test : ι → Bool) :
    Refines
      (match find s.links.next test turns s.displays.head with
        | some other => s.relink (insertBefore s.links s.displays other display)
        | none => s.relink (pushBack s.links s.displays display))
      ⟨match xs.find? test with
        | some other => putBefore other display xs
        | none => xs ++ [display], s.layer, t.created⟩ := by
  have hwalk : Follows s.links.next s.displays.head xs := h.head ▸ h.linked.follows_next
  rw [find_eq hwalk test hturns]
  rcases hfind : xs.find? test with - | other
  · exact ⟨(h.pushBack hnew).1, rfl⟩
  · exact ⟨represents_insertBefore h (List.mem_of_find?_eq_some hfind) hnew, rfl⟩

/-- `next` of a display of the list. -/
theorem next_eq (h : Represents s.links s.displays xs) (hdisplay : display ∈ xs) :
    s.links.next display = Stacking.next xs display := by
  obtain ⟨before, after, hbefore, heq, -⟩ := List.exists_erase_eq hdisplay
  rw [(h.linked before display after heq).1, heq, Stacking.next_append hbefore]

/-- The others of a stack, by what the calls ask of them. -/
theorem mem_others (ht : t.Stacked) (hother : other ∈ t.created) (hne : display ≠ other) :
    other ∈ t.displays.erase display :=
  ht.nodup.mem_erase_iff.2 ⟨hne.symm, ht.perm.mem_iff.2 hother⟩

/-- **The links follow a call.** -/
theorem Refines.step (h : Refines s t) (ht : t.Stacked) (hlegal : Stacking.Legal t op)
    (hturns : t.created.length ≤ turns) (hshort : t.created.length < 2 ^ 32) :
    Refines (step turns s op) (t.step op) := by
  have hlength := ht.perm.length_eq
  have herase : ∀ display, (t.displays.erase display).length ≤ t.displays.length :=
    fun display => List.erase_sublist.length_le
  have hnew : ∀ display, display ∉ t.displays.erase display :=
    fun display => ht.nodup.not_mem_erase
  obtain ⟨links, list, layers⟩ := s
  obtain ⟨hlist, rfl⟩ := h
  cases op with
  | create display layer =>
    have hnotMem : display ∉ t.displays := fun hmem => hlegal (ht.perm.mem_iff.1 hmem)
    have hput := represents_insertByLayer
      (s := setLayer ⟨links, list, t.layer⟩ display layer) hlist hnotMem
      (by omega : t.displays.length ≤ turns) (by omega)
    exact ⟨hput.1, hput.2⟩
  | raise display =>
    have hdisplay := ht.perm.mem_iff.2 hlegal
    have htop : isDisplayTop ⟨links, list, t.layer⟩ display = t.isDisplayTop display :=
      congrArg (fun next : Option ι =>
        match next with
        | none => true
        | some next => decide (t.layer next > t.layer display)) (next_eq hlist hdisplay)
    have hpop : Represents (popDisplay ⟨links, list, t.layer⟩ display).links _
        (t.displays.erase display) := (hlist.pop hdisplay).1
    have hshorter := herase display
    have hput := represents_insertByLayer hpop (hnew display)
      (by omega : (t.displays.erase display).length ≤ turns) (by omega)
    simp only [step, Stacking.step, raiseDisplay, Stacking.raiseDisplay, htop]
    split
    · exact ⟨hlist, rfl⟩
    · exact ⟨hput.1, hput.2⟩
  | placeAbove display other =>
    have hpop := (hlist.pop (ht.perm.mem_iff.2 hlegal.1)).1
    have hother := mem_others ht hlegal.2.1 hlegal.2.2
    exact ⟨represents_insertAfter hpop hother (hnew display), rfl⟩
  | placeBelow display other =>
    have hpop := (hlist.pop (ht.perm.mem_iff.2 hlegal.1)).1
    have hother := mem_others ht hlegal.2.1 hlegal.2.2
    exact ⟨represents_insertBefore hpop hother (hnew display), rfl⟩
  | setLayer display layer =>
    have hpop := (hlist.pop (ht.perm.mem_iff.2 hlegal)).1
    have hshorter := herase display
    simp only [step, Stacking.step]
    rw [setDisplayLayer, Stacking.setDisplayLayer]
    split
    · exact ⟨hlist, rfl⟩
    · exact represents_insertUnder
        (s := setLayer (popDisplay ⟨links, list, t.layer⟩ display) display layer) hpop (hnew display)
        (by omega : (t.displays.erase display).length ≤ turns) _

/-- The links follow a run, with turns for all of its displays. -/
theorem Refines.run {ops : List (Stacking.Op ι)} (h : Refines s t) (ht : t.Stacked)
    (hlegal : Along Stacking.step Stacking.Legal t ops)
    (hturns : t.created.length + ops.length ≤ turns) (hshort : turns < 2 ^ 32) :
    Refines (Library.run (DisplayList.step turns) s ops) (Library.run Stacking.step t ops) := by
  induction ops generalizing s t with
  | nil => exact h
  | cons op ops ih =>
    have hlength : (t.step op).created.length ≤ t.created.length + 1 := by
      cases op with
      | create display layer => simp [Stacking.step, Stacking.createView]
      | raise display =>
        simp only [Stacking.step, Stacking.raiseDisplay]
        split <;> exact Nat.le_succ _
      | placeAbove display other => exact Nat.le_succ _
      | placeBelow display other => exact Nat.le_succ _
      | setLayer display layer =>
        simp only [Stacking.step, Stacking.setDisplayLayer]
        split <;> exact Nat.le_succ _
    rw [List.length_cons] at hturns
    have hstep : Refines (DisplayList.step turns s op) (t.step op) :=
      h.step ht hlegal.1 (by omega) (by omega)
    exact ih hstep (ht.step hlegal.1).1 hlegal.2 (by omega)

/-- **From an empty list on, fewer than 2³² calls leave links that spell
the list of the displays.** -/
theorem refines_run (links : Links ι) (layer : ι → ℕ) (ops : List (Stacking.Op ι))
    (hlegal : Along Stacking.step Stacking.Legal (Stacking.new layer) ops)
    (hfew : ops.length < 2 ^ 32) :
    Refines (Library.run (step ops.length) ⟨links, LList.empty, layer⟩ ops)
      (Library.run Stacking.step (Stacking.new layer) ops) := by
  have hnew : Stacking.Stacked (Stacking.new layer) :=
    ⟨List.Perm.refl _, List.nodup_nil, List.Pairwise.nil⟩
  have hrefines : Refines ⟨links, LList.empty, layer⟩ (Stacking.new layer) :=
    ⟨represents_empty links, rfl⟩
  exact hrefines.run hnew hlegal (by simp [Stacking.new]) hfew

end DisplayList

end Uberos
