import Mathlib.Algebra.Group.Nat.Defs
import Mathlib.Logic.Function.Basic
import Mathlib.Tactic.Common
import Uberos.Library.Run
/-!
# The flat lock of many processors

`Lock<LockType::flat>` of `kernel/Lock.inl`, built with `HAS_SMP`. A
processor that calls `lock` exchanges `lockActive`, and loads it again and
again where that fails. Each exchange, each load and each store is one
step here, and the steps of all processors interleave as they like. A
processor does nothing else while it waits, and unlocks only what it has
locked, as `Lock_Guard` does.

A step that its processor is not at leaves the lock as it is.
-/

namespace Uberos

open Library

/-- Where a processor is in `lock`. -/
inductive LockCall
  /-- Not in it. -/
  | none
  /-- About to `compare_exchange_weak`. -/
  | exchanging
  /-- About to load once more. -/
  | spinning
  deriving DecidableEq

/-- `lockActive`, where each processor is, and how many of its calls of
`lock` have returned and are not unlocked. -/
structure FlatLock (P : Type*) where
  lockActive : BitVec 32
  call : P → LockCall
  nesting : P → ℕ

namespace FlatLock

variable {P : Type*}

/-- A step of one of the processors. -/
inductive Action (P : Type*)
  /-- `lock` is called. -/
  | lock (p : P)
  /-- `lockActive.compare_exchange_weak`, which may fail for no reason. -/
  | exchange (p : P) (fails : Bool)
  /-- `lockActive.load`. -/
  | load (p : P)
  /-- `unlock`. -/
  | unlock (p : P)

/-- `Lock()`. -/
def new (P : Type*) : FlatLock P := ⟨0, fun _ => .none, fun _ => 0⟩

variable [DecidableEq P]

/-- A processor goes on to another place. -/
def goto (l : FlatLock P) (p : P) (call : LockCall) : FlatLock P :=
  { l with call := Function.update l.call p call }

/-- One step. -/
def step (l : FlatLock P) : Action P → FlatLock P
  | .lock p =>
    match l.call p with
    | .none => l.goto p .exchanging
    | _ => l
  | .exchange p fails =>
    match l.call p with
    | .exchanging =>
      if l.lockActive = 0 ∧ fails = false then
        { l with
          lockActive := 1
          call := Function.update l.call p .none
          nesting := Function.update l.nesting p (l.nesting p + 1) }
      else l.goto p .spinning
    | _ => l
  | .load p =>
    match l.call p with
    | .spinning => if l.lockActive &&& 1 ≠ 0 then l else l.goto p .exchanging
    | _ => l
  | .unlock p =>
    match l.call p with
    | .none =>
      if 0 < l.nesting p then
        { l with lockActive := 0, nesting := Function.update l.nesting p (l.nesting p - 1) }
      else l
    | _ => l

/-! ## What it is for -/

/-- It is locked by no other than `holder`, once, and says so. -/
structure Holds (l : FlatLock P) (holder : Option P) : Prop where
  active : l.lockActive = if holder = none then 0 else 1
  nesting : ∀ p, l.nesting p = if holder = some p then 1 else 0

/-- A processor is in `lock`. -/
def Waits (l : FlatLock P) (p : P) : Prop := l.call p ≠ .none

/-- It can get in from here, if all go on in some order. -/
def GetsIn (l : FlatLock P) (p : P) : Prop :=
  ∃ actions, (run step l actions).nesting p = l.nesting p + 1

variable {l : FlatLock P} {holder : Option P} {p q : P} {fails : Bool}

/-! ## One holder -/

theorem holds_new : Holds (new P) none := ⟨rfl, fun _ => rfl⟩

theorem Holds.goto (h : l.Holds holder) {call : LockCall} : (l.goto p call).Holds holder :=
  ⟨h.active, h.nesting⟩

/-- **It is taken** by who finds it free. -/
theorem Holds.exchange (h : l.Holds holder) (hactive : l.lockActive = 0) :
    Holds { l with
      lockActive := 1
      call := Function.update l.call p .none
      nesting := Function.update l.nesting p (l.nesting p + 1) } (some p) := by
  have hnone : holder = none := by
    by_contra hsome
    rw [h.active, if_neg hsome] at hactive
    cases hactive
  refine ⟨rfl, fun q => ?_⟩
  have hq := h.nesting q
  rw [hnone, if_neg (by simp)] at hq
  change Function.update l.nesting p (l.nesting p + 1) q = _
  rcases eq_or_ne q p with rfl | hne
  · rw [Function.update_self, hq, if_pos rfl]
  · rw [Function.update_of_ne hne, hq, if_neg (by simpa using hne.symm)]

/-- Who has locked it is its holder. -/
theorem Holds.eq_some (h : l.Holds holder) (hp : 0 < l.nesting p) : holder = some p := by
  by_contra hne
  rw [h.nesting, if_neg hne] at hp
  cases hp

/-- **It is free** once its holder has unlocked it. -/
theorem Holds.unlock (h : l.Holds holder) (hp : 0 < l.nesting p) :
    Holds { l with
      lockActive := 0
      nesting := Function.update l.nesting p (l.nesting p - 1) } none := by
  obtain rfl := h.eq_some hp
  refine ⟨rfl, fun q => ?_⟩
  have hq := h.nesting q
  change Function.update l.nesting p (l.nesting p - 1) q = _
  rcases eq_or_ne q p with rfl | hne
  · rw [Function.update_self, hq, if_pos rfl]
    rfl
  · rw [Function.update_of_ne hne, hq, if_neg (by simpa using hne.symm), if_neg (by simp)]

/-- What a step does to who holds it. -/
theorem Holds.step (h : l.Holds holder) (action : Action P) :
    ∃ holder', (l.step action).Holds holder' := by
  cases action with
  | lock p =>
    simp only [FlatLock.step]
    split
    · exact ⟨holder, h.goto⟩
    · exact ⟨holder, h⟩
  | exchange p fails =>
    simp only [FlatLock.step]
    split
    · split
      · next hfree => exact ⟨some p, h.exchange hfree.1⟩
      · exact ⟨holder, h.goto⟩
    · exact ⟨holder, h⟩
  | load p =>
    simp only [FlatLock.step]
    split
    · split
      · exact ⟨holder, h⟩
      · exact ⟨holder, h.goto⟩
    · exact ⟨holder, h⟩
  | unlock p =>
    simp only [FlatLock.step]
    split
    · split
      · next hp => exact ⟨none, h.unlock hp⟩
      · exact ⟨holder, h⟩
    · exact ⟨holder, h⟩

/-- **However the processors interleave, one of them holds the lock at
most**, it holds it once, and `lockActive` is one just while it does. -/
theorem held_by_one (actions : List (Action P)) :
    Throughout step (fun l => ∃ holder, l.Holds holder) (new P) actions := by
  refine throughout_of_invariant (I := fun l => ∃ holder, l.Holds holder) along_true
    ⟨none, holds_new⟩ ?_ fun _ h => h
  rintro l action ⟨holder, h⟩ -
  exact h.step action

/-! ## Who waits for itself -/

theorem Holds.active_of_nesting (h : l.Holds holder) (hq : 0 < l.nesting q) :
    l.lockActive = 1 := by
  rw [h.active, h.eq_some hq, if_neg (by simp)]

/-- **A processor that has the lock and waits for it** keeps waiting, and no
other gets in. -/
theorem Holds.stuck_step (h : l.Holds holder) (hq : 0 < l.nesting q) (hwaits : l.Waits q)
    (action : Action P) :
    (l.step action).nesting = l.nesting ∧ (l.step action).Waits q := by
  have hactive := h.active_of_nesting hq
  have hstays : ∀ p call, call ≠ .none → (l.goto p call).nesting = l.nesting ∧
      (l.goto p call).Waits q := by
    intro p call hcall
    refine ⟨rfl, ?_⟩
    rcases eq_or_ne q p with rfl | hne
    · exact (Function.update_self (f := l.call) q call).trans_ne hcall
    · exact (Function.update_of_ne hne call l.call).trans_ne hwaits
  cases action with
  | lock p =>
    simp only [FlatLock.step]
    split
    · exact hstays p _ (by simp)
    · exact ⟨rfl, hwaits⟩
  | exchange p fails =>
    simp only [FlatLock.step]
    split
    · rw [if_neg (by simp [hactive])]
      exact hstays p _ (by simp)
    · exact ⟨rfl, hwaits⟩
  | load p =>
    simp only [FlatLock.step]
    split
    · rw [if_pos (by simp [hactive])]
      exact ⟨rfl, hwaits⟩
    · exact ⟨rfl, hwaits⟩
  | unlock p =>
    simp only [FlatLock.step]
    split
    · next hnone =>
      have hp : ¬ 0 < l.nesting p := fun hp =>
        hwaits (Option.some.inj ((h.eq_some hq).symm.trans (h.eq_some hp)) ▸ hnone)
      rw [if_neg hp]
      exact ⟨rfl, hwaits⟩
    · exact ⟨rfl, hwaits⟩

theorem Holds.stuck_run (h : l.Holds holder) (hq : 0 < l.nesting q) (hwaits : l.Waits q)
    (actions : List (Action P)) : (run FlatLock.step l actions).nesting = l.nesting := by
  induction actions generalizing l holder with
  | nil => rfl
  | cons action actions ih =>
    obtain ⟨hnesting, hwaits'⟩ := h.stuck_step hq hwaits action
    obtain ⟨holder', h'⟩ := h.step action
    rw [run_cons, ih h' (hnesting ▸ hq) hwaits', hnesting]

/-! ## Who gets in -/

/-- Who waits for a lock that is free gets in. -/
theorem getsIn_of_free (hactive : l.lockActive = 0) (hwaits : l.Waits p) : l.GetsIn p := by
  have hexchange : ∀ l : FlatLock P, l.lockActive = 0 → l.call p = .exchanging →
      (l.step (.exchange p false)).nesting p = l.nesting p + 1 := by
    intro l hactive hcall
    simp [FlatLock.step, hcall, hactive]
  cases hcall : l.call p with
  | none => exact absurd hcall hwaits
  | exchanging => exact ⟨[.exchange p false], hexchange l hactive hcall⟩
  | spinning =>
    have hload : l.step (.load p) = l.goto p .exchanging := by
      simp [FlatLock.step, hcall, hactive]
    refine ⟨[.load p, .exchange p false], ?_⟩
    rw [run_cons, run_cons, run_nil, hload]
    exact hexchange _ hactive (Function.update_self _ _ _)

/-- Who waits for a lock that another may still unlock gets in. -/
theorem Holds.getsIn_of_held (h : l.Holds (some q)) (hq : ¬ l.Waits q) (hwaits : l.Waits p) :
    l.GetsIn p := by
  have hnesting : 0 < l.nesting q := by
    rw [h.nesting, if_pos rfl]
    exact Nat.one_pos
  have hne : p ≠ q := fun heq => hq (heq ▸ hwaits)
  have hcall : l.call q = .none := not_not.1 hq
  have hunlock : l.step (.unlock q) =
      { l with lockActive := 0, nesting := Function.update l.nesting q (l.nesting q - 1) } := by
    simp [FlatLock.step, hcall, hnesting]
  obtain ⟨actions, hin⟩ := getsIn_of_free (l := l.step (.unlock q)) (p := p)
    (by rw [hunlock]) (by rw [hunlock]; exact hwaits)
  refine ⟨.unlock q :: actions, ?_⟩
  rw [run_cons, hin, hunlock]
  exact congrArg (· + 1) (Function.update_of_ne hne _ _)

/-- **A processor that waits for the lock can still get in, unless the
lock is held by one that waits for it**, itself or another: once the flat
lock is locked again by its holder, no processor ever gets in again. -/
theorem getsIn_iff (actions : List (Action P)) :
    Throughout step
      (fun l => ∀ p, l.Waits p → (l.GetsIn p ↔ ∀ q, 0 < l.nesting q → ¬ l.Waits q))
      (new P) actions := by
  refine throughout_of_invariant (I := fun l => ∃ holder, l.Holds holder) along_true
    ⟨none, holds_new⟩ ?_ ?_
  · rintro l action ⟨holder, h⟩ -
    exact h.step action
  rintro l ⟨holder, h⟩ p hwaits
  constructor
  · rintro ⟨actions, hin⟩ q hq hstuck
    rw [h.stuck_run hq hstuck] at hin
    omega
  · intro hfree
    cases holder with
    | none => exact getsIn_of_free h.active hwaits
    | some q =>
      refine h.getsIn_of_held (hfree q ?_) hwaits
      rw [h.nesting, if_pos rfl]
      exact Nat.one_pos

end FlatLock

end Uberos
