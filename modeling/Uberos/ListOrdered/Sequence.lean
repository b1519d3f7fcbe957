import Uberos.ListOrdered.Buffer
/-!
# `ListOrdered`s as sequences

Some lists, each run beside the list it stands for, and copied to one
another. Two members do not do what their name says: `pop_front`, with
`pop(0)` through it, moves the elements up instead of down, and `insert`
moves them apart and stores nothing. Each agrees with the list just where
that cannot be seen.
-/

namespace Uberos

namespace ListOrdered

open Library PodArray

variable {Id α : Type*}

variable (α) in
/-- The members, called. -/
inductive Member
  | pushBack (item : α)
  | pushFront (item : α)
  | popBack
  | popFront
  | pop (index : ℕ)
  | remove (index : ℕ)
  | insert (index : ℕ) (value : α)
  | clear

/-- A call, unless it reads or writes beyond the buffer. -/
def call (s : Storage α) : Member α → Option (Storage α)
  | .pushBack item => Buffer.pushBack s item
  | .pushFront item => Buffer.pushFront s item
  | .popBack => (Buffer.popBack s).map Prod.snd
  | .popFront => (Buffer.popFront s).map Prod.snd
  | .pop index => (Buffer.pop s index).map Prod.snd
  | .remove index => Buffer.remove s index
  | .insert index value => Buffer.insert s index value
  | .clear => some (Buffer.clear s)

/-- What a call is to do to a list. -/
def Member.act (xs : List α) : Member α → List α
  | .pushBack item => xs ++ [item]
  | .pushFront item => item :: xs
  | .popBack => xs.dropLast
  | .popFront => xs.tail
  | .pop index | .remove index => xs.eraseIdx index
  | .insert index value => xs.insertIdx index value
  | .clear => []

variable (Id α) in
/-- A call of one list's member, or one list made a copy of another. -/
inductive Op
  | call (list : Id) (member : Member α)
  | assign (list copy : Id)

/-- Each `ListOrdered`, unless its buffer has been left, and its list. -/
abbrev Lists (Id α : Type*) := Id → Pair α

variable [DecidableEq Id]

/-- `=`, on each side. A list assigned to itself stays. -/
def assign (lists : Lists Id α) (list copy : Id) : Lists Id α :=
  if list = copy then lists
  else
    Function.update lists list
      ((lists list).1.bind fun _ => (lists copy).1.bind Buffer.copied, (lists copy).2)

/-- One operation on each side. -/
def step (lists : Lists Id α) : Op Id α → Lists Id α
  | .call list member =>
    Function.update lists list
      ((lists list).1.bind fun s => call s member, member.act (lists list).2)
  | .assign list copy => assign lists list copy

/-! ## What it is for -/

/-- The contents are the list, and no call has left the buffer. -/
def RefinesList (s : Pair α) : Prop := ∃ a, s.1 = some a ∧ Buffer.contents a = s.2.map some

/-- **Each list's are.** -/
def Refines (lists : Lists Id α) : Prop := ∀ i, RefinesList (lists i)

/-- There is something to take, at the index, and an index to insert at is
up to the length. -/
def LegalCall (xs : List α) : Member α → Prop
  | .popBack | .popFront => 0 < xs.length
  | .pop index | .remove index => index < xs.length
  | .insert index _ => index ≤ xs.length
  | .pushBack _ | .pushFront _ | .clear => True

def Legal (lists : Lists Id α) : Op Id α → Prop
  | .call list member => LegalCall (lists list).2 member
  | .assign _ _ => True

/-- **A call that removes the front finds the elements all the same**, one
that inserts finds the value where it is to stand, and one that may grow
the buffer grows it to a size of 32 bits. -/
def SoundCall (a : Storage α) (xs : List α) : Member α → Prop
  | .pushBack _ | .pushFront _ => a.Grows
  | .popFront => Uniform xs
  | .pop index => index = 0 → Uniform xs
  | .insert index value => Buffer.Stands a xs index value
  | .popBack | .remove _ | .clear => True

def Sound (lists : Lists Id α) : Op Id α → Prop
  | .call list member => ∀ a ∈ (lists list).1, SoundCall a (lists list).2 member
  | .assign _ _ => True

instance (xs : List α) : ∀ member, Decidable (LegalCall xs member)
  | .popBack | .popFront => inferInstanceAs (Decidable (0 < xs.length))
  | .pop index | .remove index => inferInstanceAs (Decidable (index < xs.length))
  | .insert index _ => inferInstanceAs (Decidable (index ≤ xs.length))
  | .pushBack _ | .pushFront _ | .clear => inferInstanceAs (Decidable True)

instance [DecidableEq α] (a : Storage α) (xs : List α) : ∀ member, Decidable (SoundCall a xs member)
  | .pushBack _ | .pushFront _ => inferInstanceAs (Decidable a.Grows)
  | .popFront => inferInstanceAs (Decidable (Uniform xs))
  | .pop index => inferInstanceAs (Decidable (index = 0 → Uniform xs))
  | .insert index value => inferInstanceAs (Decidable (Buffer.Stands a xs index value))
  | .popBack | .remove _ | .clear => inferInstanceAs (Decidable True)

instance (lists : Lists Id α) : ∀ op, Decidable (Legal lists op)
  | .call list member => inferInstanceAs (Decidable (LegalCall (lists list).2 member))
  | .assign _ _ => inferInstanceAs (Decidable True)

instance [DecidableEq α] (lists : Lists Id α) : ∀ op, Decidable (Sound lists op)
  | .call list member =>
    inferInstanceAs (Decidable (∀ a ∈ (lists list).1, SoundCall a (lists list).2 member))
  | .assign _ _ => inferInstanceAs (Decidable True)

/-! ## One call -/

variable {a : Storage α} {xs : List α} {member : Member α} {lists : Lists Id α} {op : Op Id α}

omit [DecidableEq Id] in
/-- **A sound call does to the buffer what it is to do to the list.** -/
theorem call_holds (h : a.Holds xs) (hlegal : LegalCall xs member)
    (hsound : SoundCall a xs member) :
    ∃ a', call a member = some a' ∧ a'.Holds (member.act xs) := by
  cases member with
  | pushBack item => exact Buffer.pushBack_holds h hsound item
  | pushFront item => exact Buffer.pushFront_holds h hsound item
  | popBack =>
    obtain ⟨a', hpop, ha'⟩ := Buffer.popBack_holds h hlegal
    exact ⟨a', by rw [call, hpop, Option.map_some], ha'⟩
  | popFront =>
    obtain ⟨a', hpop, ha'⟩ := Buffer.popFront_holds h hlegal
    rw [popFront, removeFront_eq_tail_iff.2 hsound] at ha'
    exact ⟨a', by rw [call, hpop, Option.map_some], ha'⟩
  | pop index =>
    obtain ⟨a', hpop, ha'⟩ := Buffer.pop_holds h hlegal
    refine ⟨a', by rw [call, hpop, Option.map_some], ?_⟩
    -- `pop(0)` goes by `pop_front`
    rcases Nat.eq_zero_or_pos index with rfl | hpos
    · rwa [pop, if_pos rfl, popFront, removeFront_eq_tail_iff.2 (hsound rfl),
        ← List.eraseIdx_zero] at ha'
    · rwa [pop_eq_eraseIdx xs (Nat.ne_of_gt hpos)] at ha'
  | remove index =>
    obtain ⟨a', hremove, ha'⟩ := Buffer.remove_holds h hlegal
    rw [remove_eq_eraseIdx] at ha'
    exact ⟨a', hremove, ha'⟩
  | insert index value => exact Buffer.insert_holds h hlegal hsound
  | clear => exact ⟨_, rfl, rfl, Nat.zero_le _, h.word, Cells.hold_nil _⟩

omit [DecidableEq Id] in
/-- **And one that does is sound.** -/
theorem sound_of_contents (h : a.Holds xs) (hlegal : LegalCall xs member) {a' : Storage α}
    (hcall : call a member = some a')
    (hcontents : Buffer.contents a' = (member.act xs).map some) : SoundCall a xs member := by
  cases member with
  | pushBack item =>
    by_contra hgrows
    rw [call, Buffer.pushBack_none h hgrows] at hcall
    cases hcall
  | pushFront item =>
    by_contra hgrows
    rw [call, Buffer.pushFront_none h hgrows] at hcall
    cases hcall
  | popFront =>
    obtain ⟨b, hpop, hb⟩ := Buffer.popFront_holds h hlegal
    rw [call, hpop, Option.map_some, Option.some.injEq] at hcall
    rw [← hcall] at hcontents
    exact removeFront_eq_tail_iff.1 ((Buffer.contents_eq_iff hb).1 hcontents)
  | pop index =>
    rintro rfl
    obtain ⟨b, hpop, hb⟩ := Buffer.pop_holds h hlegal
    rw [call, hpop, Option.map_some, Option.some.injEq] at hcall
    rw [← hcall, Member.act, List.eraseIdx_zero] at hcontents
    exact removeFront_eq_tail_iff.1 ((Buffer.contents_eq_iff hb).1 hcontents)
  | insert index value =>
    by_contra hstands
    exact Buffer.insert_contents_ne h hlegal hstands hcall hcontents
  | popBack => trivial
  | remove index => trivial
  | clear => trivial

/-! ## Runs -/

/-- Each buffer holds its list. -/
def Kept (lists : Lists Id α) : Prop := ∀ i, PodArray.Kept (lists i)

omit [DecidableEq Id] in
theorem Kept.refines (h : Kept lists) : Refines lists := by
  intro i
  obtain ⟨a, ha, hholds⟩ := h i
  exact ⟨a, ha, Buffer.contents_eq hholds⟩

/-- The lists after a change of one are kept if that one is. -/
theorem Kept.update (h : Kept lists) {list : Id} {s : Pair α} (hs : PodArray.Kept s) :
    Kept (Function.update lists list s) := by
  intro i
  rw [Function.update_apply]
  split
  · exact hs
  · exact h i

theorem Kept.assign (h : Kept lists) (list copy : Id) : Kept (assign lists list copy) := by
  rw [ListOrdered.assign]
  split
  · exact h
  · obtain ⟨a, ha, -⟩ := h list
    obtain ⟨b, hb, hholds⟩ := h copy
    obtain ⟨b', hcopied, hb'⟩ := Buffer.copied_holds hholds
    exact h.update ⟨b', by simp only [ha, hb, Option.bind_some, hcopied], hb'⟩

/-- **The step lemma**: an operation leads to the contents the lists have
exactly when it is sound, -/
theorem Kept.refines_iff (h : Kept lists) (hlegal : Legal lists op) :
    Refines (step lists op) ↔ Sound lists op := by
  cases op with
  | assign list copy => exact iff_of_true (h.assign list copy).refines trivial
  | call list member =>
    obtain ⟨a, ha, hholds⟩ := h list
    have hsound : Sound lists (.call list member) ↔ SoundCall a (lists list).2 member := by
      simp [Sound, ha]
    rw [hsound]
    constructor
    · intro hrefines
      obtain ⟨a', ha', hcontents⟩ := hrefines list
      simp only [step, Function.update_self, ha, Option.bind_some] at ha' hcontents
      exact sound_of_contents hholds hlegal ha' hcontents
    · intro hcall
      obtain ⟨a', ha', hholds'⟩ := call_holds hholds hlegal hcall
      refine (h.update ⟨a', ?_, hholds'⟩).refines
      rw [ha, Option.bind_some, ha']

/-- and then the buffers hold them. -/
theorem Kept.step (h : Kept lists) (hlegal : Legal lists op) (hsound : Sound lists op) :
    Kept (step lists op) := by
  cases op with
  | assign list copy => exact h.assign list copy
  | call list member =>
    obtain ⟨a, ha, hholds⟩ := h list
    obtain ⟨a', ha', hholds'⟩ := call_holds hholds hlegal (hsound a ha)
    refine h.update ⟨a', ?_, hholds'⟩
    rw [ha, Option.bind_some, ha']

/-- Lists as they are constructed, of any reserve. -/
def start (reserveSize : Id → ℕ) : Lists Id α := fun i => PodArray.start (reserveSize i)

/-- **Over a run each list's contents are the list's, and no call leaves a
buffer, exactly as long as every operation is sound.** -/
theorem refines_run_iff {reserveSize : Id → ℕ} (hreserve : ∀ i, reserveSize i < 2 ^ 32)
    (ops : List (Op Id α)) (hlegal : Along step Legal (start reserveSize) ops) :
    Throughout step Refines (start reserveSize) ops ↔ Along step Sound (start reserveSize) ops :=
  throughout_iff_along_of_legal (I := Kept) hlegal
    (fun i => ⟨_, rfl, Storage.holds_new (hreserve i)⟩) (fun _ h => h.refines)
    (fun _ _ h => h.refines_iff) fun _ _ h => h.step

/-- One list is popped and pushed to, and copied to another, which has no
slack and grows; there a value is inserted where it was popped. -/
theorem refines_run_iff_copied :
    Throughout step Refines (start (fun _ => 0) : Lists Bool ℕ)
      [.call false (.pushBack 1), .call false .popFront, .call false (.pushFront 2),
        .assign true false, .call true (.pushBack 5), .call true .popBack,
        .call true (.insert 1 5)] :=
  (refines_run_iff (by decide) _ (by decide)).2 (by decide)

/-- Between two elements nothing is inserted, and one of them is doubled. -/
theorem not_refines_run :
    ¬ Throughout step Refines (start (fun _ => 0) : Lists Unit ℕ)
      [.call () (.pushBack 1), .call () (.pushBack 3), .call () (.insert 1 2)] := by
  intro h
  obtain ⟨a, ha, hcontents⟩ := h.last ()
  have hdoubled : (run step (start (fun _ => 0) : Lists Unit ℕ)
      [.call () (.pushBack 1), .call () (.pushBack 3), .call () (.insert 1 2)] ()).1.map Buffer.contents =
        some [some 1, some 3, some 3] := by decide
  rw [ha, Option.map_some, hcontents] at hdoubled
  exact absurd hdoubled (by decide)

end ListOrdered

end Uberos
