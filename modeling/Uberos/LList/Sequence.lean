import Uberos.LList.Calls
import Uberos.Library.Run
/-!
# Lists as sequences of distinct items

Lists that share their items, run beside the sequences they stand for.
Every member but one does to a list what its name says of the sequence,
and touches the links of no other list. `clear` is the one: of a list
with items it leaves the ends, so what is on no list any more still
seems to be. A size of 32 bits is the length until the length is 2³².
-/

namespace Uberos

open Library

namespace LList

variable {α ι : Type*} [DecidableEq α] [DecidableEq ι]

/-- Several lists, whose links are their items'. -/
structure Lists (α ι : Type*) where
  links : Links α
  lists : ι → LList α

variable (α ι) in
/-- The members of a list, called. -/
inductive Op
  | pushFront (i : ι) (item : α)
  | pushBack (i : ι) (item : α)
  | popFront (i : ι)
  | pop (i : ι) (item : α)
  | insertBefore (i : ι) (after item : α)
  | insertAfter (i : ι) (before item : α)
  | clear (i : ι) (turns : ℕ)

/-- A list with the links it shares, put back. -/
def Lists.set (s : Lists α ι) (i : ι) (called : Links α × LList α) : Lists α ι :=
  ⟨called.1, Function.update s.lists i called.2⟩

/-- One call, unless it does not return. -/
def Lists.call (s : Lists α ι) : Op α ι → Lists α ι
  | .pushFront i item => s.set i (LList.pushFront s.links (s.lists i) item)
  | .pushBack i item => s.set i (LList.pushBack s.links (s.lists i) item)
  | .popFront i => s.set i (LList.popFront s.links (s.lists i)).2
  | .pop i item => s.set i (LList.pop s.links (s.lists i) item)
  | .insertBefore i after item => s.set i (LList.insertBefore s.links (s.lists i) after item)
  | .insertAfter i before item => s.set i (LList.insertAfter s.links (s.lists i) before item)
  | .clear i turns =>
    match LList.clear s.links (s.lists i) turns with
    | some called => s.set i called
    | none => s

/-! ## The sequences -/

/-- The list a call is made on. -/
def Op.list : Op α ι → ι
  | .pushFront i _ | .pushBack i _ | .popFront i | .pop i _ | .insertBefore i _ _
  | .insertAfter i _ _ | .clear i _ => i

/-- What a call does to the sequence of its list. -/
def Op.act (xs : List α) : Op α ι → List α
  | .pushFront _ item => item :: xs
  | .pushBack _ item => xs ++ [item]
  | .popFront _ => xs.tail
  | .pop _ item => xs.erase item
  | .insertBefore _ after item => xs.insertIdx (xs.idxOf after) item
  | .insertAfter _ before item => xs.insertIdx (xs.idxOf before + 1) item
  | .clear _ _ => []

/-- The lists and the sequences, side by side. -/
abbrev Pair (α ι : Type*) := Lists α ι × (ι → List α)

/-- One call on each side. -/
def step (s : Pair α ι) (op : Op α ι) : Pair α ι :=
  (s.1.call op, Function.update s.2 op.list (op.act (s.2 op.list)))

/-- Lists as they are constructed. The items link anywhere. -/
def new (links : Links α) : Pair α ι := (⟨links, fun _ => empty⟩, fun _ => [])

/-! ## What it is for -/

/-- **A list spells a sequence**: walked from either end it is the
sequence, its ends are null just where that is empty, and its size is the
length. -/
structure Spells (links : Links α) (list : LList α) (xs : List α) : Prop where
  nodup : xs.Nodup
  forwards : Follows links.next list.head xs
  backwards : Follows links.prev list.tail xs.reverse
  head : list.head = none ↔ xs = []
  tail : list.tail = none ↔ xs = []
  size : list.size = xs.length

/-- All lists do. -/
def Refines (s : Pair α ι) : Prop := ∀ i, Spells s.1.links (s.1.lists i) (s.2 i)

/-- **Items that are added are on no list**, items that are removed and
anchors are on this one; a `clear` has turns for the items. -/
def Legal (s : Pair α ι) : Op α ι → Prop
  | .pushFront _ item | .pushBack _ item => ∀ i, item ∉ s.2 i
  | .popFront _ => True
  | .pop i item => item ∈ s.2 i
  | .insertBefore i anchor item | .insertAfter i anchor item =>
    anchor ∈ s.2 i ∧ ∀ i, item ∉ s.2 i
  | .clear i turns => (s.2 i).length ≤ turns

/-- **A list that is cleared is empty**, and one that an item is added to
has fewer than 2³² − 1. -/
def Sound (s : Pair α ι) : Op α ι → Prop
  | .pushFront i _ | .pushBack i _ | .insertBefore i _ _ | .insertAfter i _ _ =>
    (s.2 i).length + 1 < 2 ^ 32
  | .popFront _ | .pop _ _ => True
  | .clear i _ => s.2 i = []

instance [Fintype ι] (s : Pair α ι) : ∀ op, Decidable (Legal s op)
  | .pushFront _ item | .pushBack _ item => inferInstanceAs (Decidable (∀ i, item ∉ s.2 i))
  | .popFront _ => inferInstanceAs (Decidable True)
  | .pop i item => inferInstanceAs (Decidable (item ∈ s.2 i))
  | .insertBefore i anchor item | .insertAfter i anchor item =>
    inferInstanceAs (Decidable (anchor ∈ s.2 i ∧ ∀ i, item ∉ s.2 i))
  | .clear i turns => inferInstanceAs (Decidable ((s.2 i).length ≤ turns))

omit [DecidableEq ι] in
instance (s : Pair α ι) : ∀ op, Decidable (Sound s op)
  | .pushFront i _ | .pushBack i _ | .insertBefore i _ _ | .insertAfter i _ _ =>
    inferInstanceAs (Decidable ((s.2 i).length + 1 < 2 ^ 32))
  | .popFront _ | .pop _ _ => inferInstanceAs (Decidable True)
  | .clear i _ => inferInstanceAs (Decidable (s.2 i = []))

/-! ## The invariant -/

variable {s : Pair α ι} {op : Op α ι} {links : Links α} {list : LList α} {xs : List α} {i : ι}

/-- The lists represent their sequences, which are not too long. -/
structure Kept (s : Pair α ι) : Prop where
  family : Family s.1.links s.1.lists s.2
  short : ∀ i, (s.2 i).length < 2 ^ 32

omit [DecidableEq α] in
/-- **A list that represents a sequence spells it.** -/
theorem Represents.spells (h : Represents links list xs) (hshort : xs.length < 2 ^ 32) :
    Spells links list xs where
  nodup := h.nodup
  forwards := h.head ▸ h.linked.follows_next
  backwards := h.tail ▸ h.linked.follows_prev
  head := by rw [h.head, List.head?_eq_none_iff]
  tail := by rw [h.tail, List.getLast?_eq_none_iff]
  size := by rw [h.size, Nat.mod_eq_of_lt hshort]

omit [DecidableEq α] [DecidableEq ι] in
theorem Kept.refines (h : Kept s) : Refines s := fun i =>
  (h.family.represents i).spells (h.short i)

omit [DecidableEq α] [DecidableEq ι] in
theorem kept_new (links : Links α) : Kept (new links : Pair α ι) :=
  ⟨⟨fun _ => represents_empty links, fun _ _ _ _ hx => absurd hx List.not_mem_nil⟩,
    fun _ => by simp [new]⟩

/-! ## One call -/

omit [DecidableEq α] in
/-- **A call that adds an item**, on the list it joins and for the
others. -/
theorem Family.join {links links' : Links α} {lists : ι → LList α} {contents : ι → List α}
    (h : Family links lists contents) {item : α} (hitem : ∀ j, item ∉ contents j)
    {called : LList α} {xs : List α}
    (hcalled : Represents links' called xs ∧ ∀ x ∉ contents i, x ≠ item →
      links'.next x = links.next x ∧ links'.prev x = links.prev x)
    (hxs : ∀ x ∈ xs, x = item ∨ x ∈ contents i) :
    Family links' (Function.update lists i called) (Function.update contents i xs) := by
  refine h.update hcalled.1 (fun j hj x hx => ?_) fun j hj x hx => ?_
  · exact hcalled.2 x (h.disjoint j i hj x hx) fun heq => hitem j (heq ▸ hx)
  · rcases hxs x hx with rfl | hx
    · exact hitem j
    · exact h.disjoint i j (Ne.symm hj) x hx

omit [DecidableEq α] in
/-- **A call that takes items away.** -/
theorem Family.leave {links links' : Links α} {lists : ι → LList α} {contents : ι → List α}
    (h : Family links lists contents) {called : LList α} {xs : List α}
    (hcalled : Represents links' called xs ∧ ∀ x ∉ contents i,
      links'.next x = links.next x ∧ links'.prev x = links.prev x)
    (hxs : ∀ x ∈ xs, x ∈ contents i) :
    Family links' (Function.update lists i called) (Function.update contents i xs) := by
  refine h.update hcalled.1 (fun j hj x hx => ?_) fun j hj x hx => ?_
  · exact hcalled.2 x (h.disjoint j i hj x hx)
  · exact h.disjoint i j (Ne.symm hj) x (hxs x hx)

/-- A list taken apart at an anchor, and what is inserted next to it. -/
theorem exists_insertIdx {anchor : α} (item : α) (hanchor : anchor ∈ xs) :
    ∃ ys zs, xs = ys ++ anchor :: zs ∧
      xs.insertIdx (xs.idxOf anchor) item = ys ++ item :: anchor :: zs ∧
      xs.insertIdx (xs.idxOf anchor + 1) item = ys ++ anchor :: item :: zs := by
  induction xs with
  | nil => cases hanchor
  | cons x xs ih =>
    by_cases hx : x = anchor
    · refine ⟨[], xs, by rw [hx, List.nil_append], ?_, ?_⟩ <;>
        simp [hx]
    · obtain ⟨ys, zs, hxs, hbefore, hafter⟩ :=
        ih ((List.mem_cons.1 hanchor).resolve_left (Ne.symm hx))
      refine ⟨x :: ys, zs, by rw [hxs, List.cons_append], ?_, ?_⟩
      · rw [List.idxOf_cons_ne _ hx, List.insertIdx_succ_cons, hbefore, List.cons_append]
      · rw [List.idxOf_cons_ne _ hx, List.insertIdx_succ_cons, hafter, List.cons_append]

/-- **Every call is the operation on the sequence**, where there is
nothing to clear. -/
theorem Family.call (h : Family s.1.links s.1.lists s.2) (hlegal : Legal s op)
    (hclear : ∀ i turns, op = .clear i turns → s.2 i = []) :
    Family (step s op).1.links (step s op).1.lists (step s op).2 := by
  cases op with
  | pushFront i item =>
    refine h.join hlegal ((h.represents i).pushFront (hlegal i)) fun x hx => ?_
    exact List.mem_cons.1 hx
  | pushBack i item => exact h.pushBack hlegal
  | popFront i =>
    exact h.leave (h.represents i).popFront fun x hx => List.mem_of_mem_tail hx
  | pop i item => exact h.pop hlegal
  | insertBefore i anchor item =>
    obtain ⟨hanchor, hitem⟩ := hlegal
    obtain ⟨ys, zs, hxs, hbefore, -⟩ := exists_insertIdx item hanchor
    have hrep := h.represents i
    have hnot := hitem i
    rw [hxs] at hrep hnot
    have hcalled := hrep.insertBefore hnot
    rw [← hbefore, ← hxs] at hcalled
    exact h.join hitem hcalled fun x hx => List.eq_or_mem_of_mem_insertIdx hx
  | insertAfter i anchor item =>
    obtain ⟨hanchor, hitem⟩ := hlegal
    obtain ⟨ys, zs, hxs, -, hafter⟩ := exists_insertIdx item hanchor
    have hrep := h.represents i
    have hnot := hitem i
    rw [hxs] at hrep hnot
    have hcalled := hrep.insertAfter hnot
    rw [← hafter, ← hxs] at hcalled
    exact h.join hitem hcalled fun x hx => List.eq_or_mem_of_mem_insertIdx hx
  | clear i turns =>
    have hempty := hclear i turns rfl
    have hhead : (s.1.lists i).head = none := by rw [(h.represents i).head, hempty]; rfl
    have hcall : s.1.call (.clear i turns) = s.1 := by
      simp only [Lists.call, LList.clear, hhead, Lists.set, Function.update_eq_self]
    have hact : Function.update s.2 i [] = s.2 := by rw [← hempty, Function.update_eq_self]
    show Family (s.1.call (.clear i turns)).links (s.1.call (.clear i turns)).lists
      (Function.update s.2 i [])
    rw [hcall, hact]
    exact h

/-- A call makes the lists no longer than its condition allows. -/
theorem sound_iff (hshort : ∀ i, (s.2 i).length < 2 ^ 32) (hlegal : Legal s op)
    (hclear : ∀ i turns, op = .clear i turns → s.2 i = []) :
    Sound s op ↔ ∀ j, ((step s op).2 j).length < 2 ^ 32 := by
  have hothers : (∀ j, ((step s op).2 j).length < 2 ^ 32) ↔
      (op.act (s.2 op.list)).length < 2 ^ 32 := by
    refine ⟨fun h => ?_, fun h j => ?_⟩
    · have hself := h op.list
      simp only [step, Function.update_self] at hself
      exact hself
    · by_cases hj : j = op.list
      · subst hj
        simp only [step, Function.update_self]
        exact h
      · simp only [step, Function.update_of_ne hj]
        exact hshort j
  rw [hothers]
  cases op with
  | pushFront i item => exact Iff.rfl
  | pushBack i item => rw [Sound, Op.act, List.length_append, Op.list, List.length_singleton]
  | popFront i =>
    refine iff_of_true trivial (lt_of_le_of_lt ?_ (hshort i))
    simp [Op.act, Op.list]
  | pop i item => exact iff_of_true trivial (lt_of_le_of_lt List.length_erase_le (hshort i))
  | insertBefore i anchor item =>
    rw [Sound, Op.act, Op.list, List.length_insertIdx_of_le_length List.idxOf_le_length]
  | insertAfter i anchor item =>
    rw [Sound, Op.act, Op.list,
      List.length_insertIdx_of_le_length (List.idxOf_lt_length_iff.2 hlegal.1)]
  | clear i turns =>
    exact iff_of_true (hclear i turns rfl) (by simp [Op.act])

/-- **A list that is cleared of items keeps its head.** -/
theorem Kept.not_refines_clear (h : Kept s) {turns : ℕ} (hturns : (s.2 i).length ≤ turns)
    (hne : s.2 i ≠ []) : ¬ Refines (step s (.clear i turns)) := by
  intro hrefines
  have hrep := h.family.represents i
  obtain ⟨links, hclear, -⟩ := hrep.clear hturns
  have hhead := (hrefines i).head
  simp only [step, Lists.call, hclear, Lists.set, Op.list, Op.act, Function.update_self,
    iff_true] at hhead
  rw [hrep.head, List.head?_eq_none_iff] at hhead
  exact hne hhead

/-- **One call leads to lists that spell their sequences exactly when it
is sound.** -/
theorem Kept.refines_iff (h : Kept s) (hlegal : Legal s op) : Refines (step s op) ↔ Sound s op := by
  by_cases hclear : ∀ i turns, op = .clear i turns → s.2 i = []
  · have hfamily := h.family.call hlegal hclear
    rw [sound_iff h.short hlegal hclear]
    refine ⟨fun hrefines j => ?_, fun hshort => Kept.refines ⟨hfamily, hshort⟩⟩
    rw [← (hrefines j).size, (hfamily.represents j).size]
    exact Nat.mod_lt _ (by decide)
  · push Not at hclear
    obtain ⟨i, turns, rfl, hne⟩ := hclear
    exact iff_of_false (h.not_refines_clear hlegal hne) hne

/-- **The step lemma.** -/
theorem Kept.step (h : Kept s) (hlegal : Legal s op) (hsound : Sound s op) :
    Kept (step s op) := by
  have hclear : ∀ i turns, op = .clear i turns → s.2 i = [] := by
    rintro i turns rfl
    exact hsound
  exact ⟨h.family.call hlegal hclear, (sound_iff h.short hlegal hclear).1 hsound⟩

/-! ## Runs -/

/-- **Over a run the lists spell their sequences exactly as long as every
call is sound**: no list is cleared that has items, and none has 2³² of
them. -/
theorem spelled_run_iff (links : Links α) (ops : List (Op α ι))
    (hlegal : Along step Legal (new links : Pair α ι) ops) :
    Throughout step Refines (new links : Pair α ι) ops ↔
      Along step Sound (new links : Pair α ι) ops :=
  throughout_iff_along_of_legal hlegal (kept_new links) (fun _ h => h.refines)
    (fun _ _ h => h.refines_iff) fun _ _ h => h.step

/-- Two lists, where every member is called once at each end of one that
has items, and where items change lists. -/
theorem spelled_run_iff_moved :
    Throughout step Refines (new ⟨fun _ => some 0, fun _ => some 1⟩ : Pair ℕ Bool)
      [.pushBack true 1, .pushFront true 0, .insertBefore true 0 2, .insertAfter true 1 3,
        .insertAfter true 2 4, .pop true 4, .pushBack false 4, .popFront true, .pop true 3,
        .popFront false, .clear false 0, .insertBefore true 1 4, .popFront true] :=
  (spelled_run_iff _ _ (by decide)).2 (by decide)

/-- A list of one item is cleared, and seems to have it still. -/
theorem not_spelled_run :
    ¬ Throughout step Refines (new ⟨fun _ => none, fun _ => none⟩ : Pair ℕ Unit)
        [.pushBack () 0, .clear () 1] :=
  fun h => by
    have hhead := (h.last ()).head
    exact absurd (hhead.2 rfl) (by decide)

end LList

end Uberos
