import Mathlib.Data.List.Basic
import Uberos.Dispatch.Model
import Uberos.PodArray.Sequence
/-!
# Dispatch while the subscribers change

A loop calls what it should as long as each of its turns finds, in the
buffer the loop began with and within the length the array has by then,
the subscription that was at that index when it began, and that has not
been unsubscribed. Of an irq it does so only then: it has a turn for every
subscription there was, whether that is still one or not. Changes that
remove nothing and fit the buffer keep everything in its place.
-/

namespace Uberos

namespace Dispatch

open PodArray (Storage)

variable {α : Type*} [DecidableEq α]
variable {act : Slot α → Act α → Option (Slot α)} {h : Handlers α} {s s' : Slot α} {x : α}
variable {remaining : List (α × ℕ)} {turns : List (Turn α)} {buffer count index : ℕ}

/-! ## What it is for -/

/-- The subscription that was at an index when the loop began, unless it
has been unsubscribed. -/
def dueAt (remaining : List (α × ℕ)) (index : ℕ) : Option α :=
  (remaining.find? fun entry => entry.2 = index).map Prod.fst

namespace Turn

variable (h : Handlers α) (t : Turn α)

/-- What the turn calls: what it reads, if that is active. -/
def called : Option α := (some t.read).filter (h.active t.index)

/-- What it should call. -/
def due : Option α := (dueAt t.remaining t.index).filter (h.active t.index)

end Turn

/-- Every subscription there was has had its turn, up to one that returned
a new state. -/
def Complete (h : Handlers α) (index count : ℕ) (turns : List (Turn α)) : Prop :=
  turns.map Turn.index = List.range' index turns.length ∧
    (turns.length = count ∨ ∃ t ∈ turns.getLast?, h.active t.index t.read = true ∧
      h.stops t.index = true)

/-- **A dispatch calls just what is due**, once each and in order, and
reads nothing but elements. -/
def Dispatched (h : Handlers α) (s : Slot α) (run : Option (List (Turn α))) : Prop :=
  ∃ turns, run = some turns ∧ Complete h 0 s.length turns ∧
    turns.filterMap (Turn.called h) = turns.filterMap (Turn.due h)

/-- **Every turn finds what is due in its place.** -/
def InPlaceFrom (act : Slot α → Act α → Option (Slot α)) (h : Handlers α) (buffer : ℕ) :
    ℕ → ℕ → Slot α → List (α × ℕ) → Prop
  | 0, _, _, _ => True
  | count + 1, index, s, remaining => ∃ x, s.read buffer index = some x ∧
      dueAt remaining index = some x ∧
      if h.active index x then
        ∃ s', (h.acts index).foldlM act s = some s' ∧ (h.stops index = true ∨
          InPlaceFrom act h buffer count (index + 1) s' ((h.acts index).foldl Act.leave remaining))
      else InPlaceFrom act h buffer count (index + 1) s remaining

/-- From the start of the loop. -/
def InPlace (act : Slot α → Act α → Option (Slot α)) (h : Handlers α) (s : Slot α) : Prop :=
  ∀ a ∈ s.array, InPlaceFrom act h s.buffer a.length 0 s s.contents.zipIdx

/-! ## The loop -/

omit [DecidableEq α] in
/-- A turn more: the rest of the loop, and what this turn reads. -/
theorem exists_cons_iff (rest : Option (List (Turn α))) (t : Turn α) :
    (∃ turns, (rest.bind fun turns => some (t :: turns)) = some turns ∧
        ∀ t ∈ turns, dueAt t.remaining t.index = some t.read) ↔
      dueAt t.remaining t.index = some t.read ∧
        ∃ turns, rest = some turns ∧ ∀ t ∈ turns, dueAt t.remaining t.index = some t.read := by
  rcases rest with - | turns
  · simp
  · simp

/-- **Everything is in its place where each turn reads what is due.** -/
theorem inPlaceFrom_iff : InPlaceFrom act h buffer count index s remaining ↔
    ∃ turns, loop act h buffer count index s remaining = some turns ∧
      ∀ t ∈ turns, dueAt t.remaining t.index = some t.read := by
  induction count generalizing index s remaining with
  | zero => simp [InPlaceFrom, loop]
  | succ count ih =>
    rw [InPlaceFrom, loop]
    rcases hread : s.read buffer index with - | x
    · simp
    simp only [Option.bind_eq_bind, Option.bind_some, Option.some.injEq, exists_eq_left']
    split
    · rcases hacts : (h.acts index).foldlM act s with - | s'
      · simp
      simp only [Option.bind_some, Option.some.injEq, exists_eq_left']
      split
      · rename_i hstops
        simp [hstops]
      · rename_i hstops
        simp only [hstops, Bool.false_eq_true, false_or, ih, Option.pure_def]
        exact (exists_cons_iff _ ⟨index, x, remaining⟩).symm
    · simp only [ih, Option.pure_def]
      exact (exists_cons_iff _ ⟨index, x, remaining⟩).symm

/-- **A loop takes its turns in order**, until it is told to stop. -/
theorem complete_loop (hloop : loop act h buffer count index s remaining = some turns) :
    Complete h index count turns := by
  induction count generalizing index s remaining turns with
  | zero =>
    rw [loop, Option.some.injEq] at hloop
    subst hloop
    exact ⟨rfl, Or.inl rfl⟩
  | succ count ih =>
    have hcons : ∀ {t : Turn α} {turns}, t.index = index → Complete h (index + 1) count turns →
        Complete h index (count + 1) (t :: turns) := by
      rintro t turns hindex ⟨hindices, hend⟩
      refine ⟨?_, ?_⟩
      · rw [List.map_cons, List.length_cons, List.range'_succ, hindices, hindex]
      · rcases hend with hlength | ⟨last, hlast, hstops⟩
        · exact Or.inl (congrArg (· + 1) hlength)
        · refine Or.inr ⟨last, ?_, hstops⟩
          rw [List.getLast?_cons, Option.mem_def.1 hlast]
          rfl
    rw [loop] at hloop
    obtain ⟨x, -, hloop⟩ := Option.bind_eq_some_iff.1 hloop
    dsimp only at hloop
    split at hloop
    · rename_i hactive
      obtain ⟨s', -, hloop⟩ := Option.bind_eq_some_iff.1 hloop
      split at hloop
      · rename_i hstops
        rw [← Option.some.inj hloop]
        exact ⟨rfl, Or.inr ⟨_, rfl, hactive, hstops⟩⟩
      · obtain ⟨rest, hrest, hturns⟩ := Option.bind_eq_some_iff.1 hloop
        rw [← Option.some.inj hturns]
        exact hcons rfl (ih hrest)
    · obtain ⟨rest, hrest, hturns⟩ := Option.bind_eq_some_iff.1 hloop
      rw [← Option.some.inj hturns]
      exact hcons rfl (ih hrest)

/-! ## Every dispatch -/

omit [DecidableEq α] in
/-- Where every turn reads what is due, that is called. -/
theorem filterMap_called_eq (hdue : ∀ t ∈ turns, dueAt t.remaining t.index = some t.read) :
    turns.filterMap (Turn.called h) = turns.filterMap (Turn.due h) := by
  apply List.filterMap_congr
  intro t ht
  rw [Turn.called, Turn.due, hdue t ht]

omit [DecidableEq α] in
/-- **As many calls as turns leave no turn without what is due.** -/
theorem due_of_map_eq (hcalls : turns.map Turn.read =
    turns.filterMap fun t => dueAt t.remaining t.index) :
    ∀ t ∈ turns, dueAt t.remaining t.index = some t.read := by
  induction turns with
  | nil => exact fun t ht => absurd ht List.not_mem_nil
  | cons t turns ih =>
    rw [List.map_cons, List.filterMap_cons] at hcalls
    rcases hdue : dueAt t.remaining t.index with - | x
    · -- too few are left for the calls there are
      rw [hdue] at hcalls
      have hlength : (turns.map Turn.read).length + 1 = _ := congrArg List.length hcalls
      have hle := List.length_filterMap_le (fun t : Turn α => dueAt t.remaining t.index) turns
      rw [List.length_map] at hlength
      dsimp only at hlength
      omega
    · rw [hdue] at hcalls
      obtain ⟨hread, hrest⟩ := List.cons.inj hcalls
      intro t' ht'
      rcases List.mem_cons.1 ht' with rfl | htail
      · rw [hdue, hread]
      · exact ih hrest t' htail

omit [DecidableEq α] in
theorem filterMap_called_ofIrq (acts : ℕ → List (Act α)) (turns : List (Turn α)) :
    turns.filterMap (Turn.called (.ofIrq acts)) = turns.map Turn.read :=
  List.filterMap_eq_map_iff_forall_eq_some.2 fun _ _ => rfl

omit [DecidableEq α] in
theorem due_ofIrq (acts : ℕ → List (Act α)) (t : Turn α) :
    t.due (.ofIrq acts) = dueAt t.remaining t.index := by
  rw [Turn.due]
  rcases dueAt t.remaining t.index with - | x
  · rfl
  · rfl

/-- **Where everything is in its place, what is due is called.** -/
theorem dispatched_of_inPlace (hplace : InPlace act h s) : Dispatched h s (dispatch act h s) := by
  rw [dispatch, Dispatched, Slot.length]
  rcases harray : s.array with - | a
  · exact ⟨[], rfl, ⟨rfl, Or.inl rfl⟩, rfl⟩
  · obtain ⟨turns, hturns, hdue⟩ := inPlaceFrom_iff.1 (hplace a harray)
    exact ⟨turns, hturns, complete_loop hturns, filterMap_called_eq hdue⟩

/-- **An irq's dispatch calls what is due only there.** -/
theorem inPlace_of_dispatched {acts : ℕ → List (Act α)}
    (hcalls : Dispatched (.ofIrq acts) s (dispatch act (.ofIrq acts) s)) :
    InPlace act (.ofIrq acts) s := by
  intro a ha
  obtain ⟨turns, hturns, -, hcalls⟩ := hcalls
  rw [dispatch, ha] at hturns
  refine inPlaceFrom_iff.2 ⟨turns, hturns, due_of_map_eq ?_⟩
  rw [filterMap_called_ofIrq] at hcalls
  rw [hcalls]
  exact List.filterMap_congr fun t _ => due_ofIrq acts t

/-- **A dispatch of an irq is right exactly where everything is in its
place at each turn, and one of an interrupt is right there.** -/
theorem dispatched_iff (covered : Bool) (acts : ℕ → List (Act α)) (irq : Slot α)
    (h : Handlers α) (interrupt : Slot α) :
    (Dispatched (.ofIrq acts) irq (dispatch (actIrq covered) (.ofIrq acts) irq) ↔
      InPlace (actIrq covered) (.ofIrq acts) irq) ∧
    (InPlace actInterrupt h interrupt →
      Dispatched h interrupt (dispatch actInterrupt h interrupt)) :=
  ⟨⟨inPlace_of_dispatched, dispatched_of_inPlace⟩, dispatched_of_inPlace⟩

/-! ## Changes that leave everything in its place -/

/-- The subscriptions there were, and those that have come since, in the
same buffer. -/
structure Keeps (s : Slot α) (buffer : ℕ) (xs news : List α) : Prop where
  buffer : s.buffer = buffer
  array : ∃ a, s.array = some a ∧ a.Holds (xs ++ news)

/-- **What fits the buffer, and what is not subscribed.** -/
def Quiet (s : Slot α) : Act α → Prop
  | .subscribe _ => ∃ a ∈ s.array, a.length + 1 < a.allocated
  | .unsubscribe x => x ∉ s.contents

variable {xs news : List α} {a : Storage α} {edit : Act α} {acts : List (Act α)}

omit [DecidableEq α] in
/-- `push_back` without a growth. -/
theorem pushBack_of_room (ha : a.Holds xs) (hroom : a.length + 1 < a.allocated) (x : α) :
    ∃ a', a.pushBack x = some a' ∧ a'.Holds (xs ++ [x]) ∧ a'.allocated = a.allocated := by
  have hword := ha.word
  have hgrow : a.grow = some a := by
    rw [Storage.grow, if_neg]
    rw [Nat.mod_eq_of_lt (by omega)]
    omega
  obtain ⟨a', hpush, hholds⟩ := ha.pushBack (Or.inl hroom) x
  refine ⟨a', hpush, hholds, ?_⟩
  obtain ⟨a₂, hwrite, hallocated, -⟩ := ha.write (ha.length ▸ by omega) x
  rw [Storage.pushBack, hgrow] at hpush
  simp only [Option.bind_eq_bind, Option.bind_some, hwrite, Option.pure_def,
    Option.some.injEq] at hpush
  rw [← hpush]
  exact hallocated

omit [DecidableEq α] in
theorem filterMap_data (ha : a.Holds xs) : (List.range a.length).filterMap a.data = xs := by
  have hcells : (List.range a.length).map a.data = xs.map some := ha.contents
  calc (List.range a.length).filterMap a.data
      = ((List.range a.length).map a.data).filterMap id := by
        rw [List.filterMap_map, Function.id_comp]
    _ = xs := by rw [hcells, List.filterMap_map, Function.id_comp, List.filterMap_some]

omit [DecidableEq α] in
theorem Keeps.contents (hk : Keeps s buffer xs news) : s.contents = xs ++ news := by
  obtain ⟨a, harray, hholds⟩ := hk.array
  rw [Slot.contents, harray]
  exact filterMap_data hholds

omit [DecidableEq α] in
theorem Keeps.length (hk : Keeps s buffer xs news) : s.length = (xs ++ news).length := by
  obtain ⟨a, harray, hholds⟩ := hk.array
  rw [Slot.length, harray]
  exact hholds.length

omit [DecidableEq α] in
/-- What there was is read where it was. -/
theorem Keeps.read (hk : Keeps s buffer xs news) (hindex : index < xs.length) :
    s.read buffer index = xs[index]? := by
  obtain ⟨a, harray, hholds⟩ := hk.array
  have hlength := hholds.length
  rw [List.length_append] at hlength
  rw [Slot.read, harray, Option.bind_some, if_pos ⟨hk.buffer, by omega⟩,
    hholds.data index (by rw [List.length_append]; omega), List.getElem?_append_left hindex]

omit [DecidableEq α] in
theorem Keeps.pushBack (hk : Keeps s buffer xs news)
    (hroom : ∃ a ∈ s.array, a.length + 1 < a.allocated) (x : α) :
    ∃ s', s.pushBack x = some s' ∧ Keeps s' buffer xs (news ++ [x]) := by
  obtain ⟨a, harray, hholds⟩ := hk.array
  obtain ⟨a₁, ha₁, hroom⟩ := hroom
  obtain rfl := Option.some.inj (harray.symm.trans ha₁)
  obtain ⟨a', hpush, hholds', hallocated⟩ := pushBack_of_room hholds hroom x
  refine ⟨{ s with array := some a' }, ?_, hk.buffer, a', rfl, ?_⟩
  · rw [Slot.pushBack, harray, Option.bind_some, hpush, Option.map_some, if_pos hallocated]
  · rw [← List.append_assoc]
    exact hholds'

/-- What is not in the array is not removed from it. -/
theorem remove_of_notMem (ha : a.Holds xs) (hx : x ∉ xs) : Slot.remove x a = some a := by
  have hnone : Slot.indexOf x a = none := by
    refine List.find?_eq_none.2 fun i hi hdata => hx ?_
    rw [← filterMap_data ha]
    exact List.mem_filterMap.2 ⟨i, hi, of_decide_eq_true hdata⟩
  rw [Slot.remove, hnone]

/-- **An array is searched as its contents are**, and what is found is
removed from them. -/
theorem exists_remove (ha : a.Holds xs) (x : α) :
    ∃ a', Slot.remove x a = some a' ∧ a'.Holds (PodArray.removeValue xs x) := by
  rcases hfind : xs.findIdx? (· = x) with - | i
  · have hx : x ∉ xs := fun hx => by simpa using List.findIdx?_eq_none_iff.1 hfind x hx
    refine ⟨a, remove_of_notMem ha hx, ?_⟩
    rw [PodArray.removeValue, hfind]
    exact ha
  · obtain ⟨hi, hvalue, hbefore⟩ := List.findIdx?_eq_some_iff_getElem.1 hfind
    have hlength := ha.length
    have hindex : Slot.indexOf x a = some i := by
      refine List.find?_range_eq_some.2 ⟨?_, List.mem_range.2 (by omega), fun j hj => ?_⟩
      · rw [ha.data i hi, List.getElem?_eq_getElem hi, of_decide_eq_true hvalue]
        exact decide_eq_true rfl
      · have hne := hbefore j hj
        rw [ha.data j (by omega), List.getElem?_eq_getElem (by omega)]
        simpa using hne
    rw [Slot.remove, hindex, PodArray.removeValue, hfind]
    exact ha.remove i

omit [DecidableEq α] in
/-- The bits of the drivers are no part of it. -/
theorem Keeps.withSubscribed (hk : Keeps s buffer xs news) (subscribed : α → Bool) :
    Keeps { s with subscribed := subscribed } buffer xs news := ⟨hk.buffer, hk.array⟩

/-- **A quiet change of an irq leaves what there was in its place.** -/
theorem Keeps.actIrq (hk : Keeps s buffer xs news) (hquiet : Quiet s edit) (covered : Bool)
    (hne : xs ≠ []) : ∃ s' news', actIrq covered s edit = some s' ∧ Keeps s' buffer xs news' := by
  obtain ⟨a, harray, hholds⟩ := hk.array
  cases edit with
  | subscribe x =>
    obtain ⟨s', hpush, hk'⟩ := hk.pushBack hquiet x
    refine ⟨s', news ++ [x], ?_, hk'⟩
    simp only [Dispatch.actIrq, harray, hpush]
  | unsubscribe x =>
    rw [Quiet, hk.contents] at hquiet
    have hsome : ¬a.length < 1 := by
      have hpos := List.length_pos_iff.2 hne
      rw [hholds.length, List.length_append]
      omega
    refine ⟨s, news, ?_, hk⟩
    simp only [Dispatch.actIrq, harray, remove_of_notMem hholds hquiet, Option.map_some, hsome,
      if_false]
    rw [← harray]

/-- **And one of an interrupt.** -/
theorem Keeps.actInterrupt (hk : Keeps s buffer xs news) (hquiet : Quiet s edit) :
    ∃ s' news', actInterrupt s edit = some s' ∧ Keeps s' buffer xs news' := by
  obtain ⟨a, harray, hholds⟩ := hk.array
  cases edit with
  | subscribe x =>
    obtain ⟨s', hpush, hk'⟩ := hk.pushBack hquiet x
    rw [Dispatch.actInterrupt]
    split
    · exact ⟨s, news, rfl, hk⟩
    · have hsome : s.array.isNone = false := by rw [harray]; rfl
      simp only [hsome, Bool.false_eq_true, if_false, hpush, Option.map_some]
      exact ⟨_, news ++ [x], rfl, hk'.withSubscribed _⟩
  | unsubscribe x =>
    rw [Quiet, hk.contents] at hquiet
    rw [Dispatch.actInterrupt]
    split
    · exact ⟨s, news, rfl, hk⟩
    · simp only [harray, remove_of_notMem hholds hquiet, Option.map_some]
      refine ⟨_, news, rfl, ?_⟩
      exact ⟨hk.buffer, a, rfl, hholds⟩

/-- Changes that are, each where it is made. -/
def QuietAll (act : Slot α → Act α → Option (Slot α)) : Slot α → List (Act α) → Prop
  | _, [] => True
  | s, edit :: acts => Quiet s edit ∧ ∀ s' ∈ act s edit, QuietAll act s' acts

/-- **All subscribers that are called but the last make quiet changes**,
and the last any. -/
def QuietFrom (act : Slot α → Act α → Option (Slot α)) (h : Handlers α) :
    ℕ → ℕ → Slot α → Prop
  | 0, _, _ => True
  | count + 1, index, s => ∀ x ∈ s.read s.buffer index,
      if h.active index x then
        (count = 0 ∨ h.stops index = true) ∧ ((h.acts index).foldlM act s).isSome ∨
          QuietAll act s (h.acts index) ∧
            ∀ s' ∈ (h.acts index).foldlM act s, QuietFrom act h count (index + 1) s'
      else QuietFrom act h count (index + 1) s

/-- What is not subscribed is not unsubscribed. -/
theorem leave_of_quiet (hk : Keeps s buffer xs news) (hquiet : Quiet s edit) :
    edit.leave xs.zipIdx = xs.zipIdx := by
  cases edit with
  | subscribe x => rfl
  | unsubscribe x =>
    rw [Quiet, hk.contents] at hquiet
    refine List.eraseP_of_forall_not fun entry hentry heq => hquiet ?_
    rw [← of_decide_eq_true heq]
    exact List.mem_append_left _ (List.fst_mem_of_mem_zipIdx hentry)

theorem Keeps.foldlM {acts : List (Act α)}
    (hact : ∀ {s news edit}, Keeps s buffer xs news → Quiet s edit →
      ∃ s' news', act s edit = some s' ∧ Keeps s' buffer xs news')
    (hk : Keeps s buffer xs news) (hquiet : QuietAll act s acts) :
    (∃ s' news', acts.foldlM act s = some s' ∧ Keeps s' buffer xs news') ∧
      acts.foldl Act.leave xs.zipIdx = xs.zipIdx := by
  induction acts generalizing s news with
  | nil => exact ⟨⟨s, news, rfl, hk⟩, rfl⟩
  | cons edit acts ih =>
    obtain ⟨s₁, news₁, hstep, hk₁⟩ := hact hk hquiet.1
    obtain ⟨⟨s', news', hrest, hk'⟩, hleave⟩ := ih hk₁ (hquiet.2 s₁ hstep)
    refine ⟨⟨s', news', ?_, hk'⟩, ?_⟩
    · rw [List.foldlM_cons, hstep]
      exact hrest
    · rw [List.foldl_cons, leave_of_quiet hk hquiet.1, hleave]

omit [DecidableEq α] in
/-- What is due when nothing has been unsubscribed. -/
theorem dueAt_zipIdx (xs : List α) (index : ℕ) : dueAt xs.zipIdx index = xs[index]? := by
  rw [dueAt]
  rcases hfind : xs.zipIdx.find? fun entry => entry.2 = index with - | ⟨x, i⟩
  · rw [hfind]
    rcases hget : xs[index]? with - | x
    · rfl
    · have hmem : (x, index) ∈ xs.zipIdx := List.mk_mem_zipIdx_iff_getElem?.2 hget
      exact absurd (List.find?_eq_none.1 hfind _ hmem) (by simp)
  · have hfound := List.find?_some hfind
    have hindex : i = index := of_decide_eq_true hfound
    have hmem := List.mk_mem_zipIdx_iff_getElem?.1 (List.mem_of_find?_eq_some hfind)
    rw [hfind, ← hindex, hmem]
    rfl

/-- **Quiet changes leave everything in its place.** -/
theorem inPlaceFrom_of_quiet
    (hact : ∀ {s news edit}, Keeps s buffer xs news → Quiet s edit →
      ∃ s' news', act s edit = some s' ∧ Keeps s' buffer xs news')
    (hcount : index + count = xs.length) (hk : Keeps s buffer xs news)
    (hquiet : QuietFrom act h count index s) :
    InPlaceFrom act h buffer count index s xs.zipIdx := by
  induction count generalizing index s news with
  | zero => trivial
  | succ count ih =>
    have hindex : index < xs.length := by omega
    have hread : s.read buffer index = some xs[index] := by
      rw [hk.read hindex, List.getElem?_eq_getElem hindex]
    have hdue : dueAt xs.zipIdx index = some xs[index] := by
      rw [dueAt_zipIdx, List.getElem?_eq_getElem hindex]
    have hthis := hquiet xs[index] (by rw [hk.buffer]; exact hread)
    refine ⟨xs[index], hread, hdue, ?_⟩
    split
    · rename_i hactive
      rw [if_pos hactive] at hthis
      rcases hthis with ⟨hlast, hsome⟩ | ⟨hacts, hrest⟩
      · obtain ⟨s', hs'⟩ := Option.isSome_iff_exists.1 hsome
        refine ⟨s', hs', ?_⟩
        rcases hlast with rfl | hstops
        · exact Or.inr trivial
        · exact Or.inl hstops
      · obtain ⟨⟨s', news', hs', hk'⟩, hleave⟩ := hk.foldlM hact hacts
        refine ⟨s', hs', Or.inr ?_⟩
        rw [hleave]
        exact ih (by omega) hk' (hrest s' hs')
    · rename_i hactive
      rw [if_neg hactive] at hthis
      exact ih (by omega) hk hthis

/-- **A dispatch is right where all but its last subscriber make quiet
changes.** -/
theorem dispatched_of_quiet {a : Storage α} (harray : s.array = some a) (ha : a.Holds xs)
    (hne : xs ≠ []) (covered : Bool) (acts : ℕ → List (Act α))
    (hirq : QuietFrom (actIrq covered) (.ofIrq acts) a.length 0 s)
    (hinterrupt : QuietFrom actInterrupt h a.length 0 s) :
    Dispatched (.ofIrq acts) s (dispatch (actIrq covered) (.ofIrq acts) s) ∧
      Dispatched h s (dispatch actInterrupt h s) := by
  have hk : Keeps s s.buffer xs [] := ⟨rfl, a, harray, by rw [List.append_nil]; exact ha⟩
  have hcontents : s.contents = xs := hk.contents.trans (List.append_nil xs)
  have hcount : 0 + a.length = xs.length := (Nat.zero_add _).trans ha.length
  constructor
  · refine dispatched_of_inPlace fun a' ha' => ?_
    obtain rfl := Option.some.inj (harray.symm.trans ha')
    rw [hcontents]
    exact inPlaceFrom_of_quiet (fun hk hquiet => hk.actIrq hquiet covered hne) hcount hk hirq
  · refine dispatched_of_inPlace fun a' ha' => ?_
    obtain rfl := Option.some.inj (harray.symm.trans ha')
    rw [hcontents]
    exact inPlaceFrom_of_quiet (fun hk hquiet => hk.actInterrupt hquiet) hcount hk hinterrupt

/-! ## Subscribers that change more -/

/-- Three subscribers, in a buffer with room for one more. -/
def three : Slot ℕ where
  array := some ⟨3, 4, fun i => [10, 20, 30][i]?⟩
  buffer := 0
  subscribed x := x ∈ [10, 20, 30]

/-- **A subscriber that unsubscribes itself, and one that fills the
buffer**, of an irq and of a vector. -/
theorem not_dispatched :
    ¬Dispatched (.ofIrq fun turn => if turn = 1 then [.unsubscribe 20] else []) three
        (dispatch (actIrq true) (.ofIrq fun turn => if turn = 1 then [.unsubscribe 20] else [])
          three) ∧
      ¬Dispatched (.ofIrq fun turn => if turn = 0 then [.subscribe 40] else []) three
        (dispatch actInterrupt (.ofIrq fun turn => if turn = 0 then [.subscribe 40] else [])
          three) := by
  constructor
  · rintro ⟨turns, hturns, -⟩
    have hnone : dispatch (actIrq true) (.ofIrq fun turn => if turn = 1 then [.unsubscribe 20]
      else []) three = none := rfl
    exact Option.some_ne_none _ (hturns.symm.trans hnone)
  · rintro ⟨turns, hturns, -⟩
    have hnone : dispatch actInterrupt (.ofIrq fun turn => if turn = 0 then [.subscribe 40]
      else []) three = none := rfl
    exact Option.some_ne_none _ (hturns.symm.trans hnone)

end Dispatch

end Uberos
