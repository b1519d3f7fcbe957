import Mathlib.Algebra.Group.Nat.Defs
import Mathlib.Tactic.Common
import Uberos.Library.Run
/-!
# Interrupts, enabled and locked

`exceptions::enable`, `disable`, `lock` and `unlock` of
`kernel/exceptions.inl`. The lock's depth is of 32 bits: with atomics or
without them, it is changed by one, and what comes of that is looked at.
-/

namespace Uberos

namespace Exceptions

open Library

/-- `_enabled`, `_lock_depth`, and whether `_activate` was called last of
`_activate` and `_deactivate`. -/
structure Gate where
  enabled : Bool
  lockDepth : BitVec 32
  active : Bool
  deriving DecidableEq, Repr

/-- The four functions. -/
inductive GateCall
  | enable
  | disable
  | lock
  | unlock
  deriving DecidableEq, Repr

namespace Gate

/-- As it is at first. -/
def new : Gate := ⟨false, 0, false⟩

variable (g : Gate)

/-- `_activate` -/
def activate : Gate := { g with active := true }

/-- `_deactivate` -/
def deactivate : Gate := { g with active := false }

/-- `enable` -/
def enable : Gate :=
  let g := { g with enabled := true }
  if g.lockDepth = 0 then g.activate else g

/-- `disable` -/
def disable : Gate :=
  let g := { g with enabled := false }
  g.deactivate

/-- `lock` -/
def lock : Gate :=
  let g := { g with lockDepth := g.lockDepth + 1 }
  if g.lockDepth = 1 then g.deactivate else g

/-- `unlock` -/
def unlock : Gate :=
  let g := { g with lockDepth := g.lockDepth - 1 }
  if g.lockDepth = 0 ∧ g.enabled = true then g.activate else g

/-- A call of one of them. -/
def step : Gate → GateCall → Gate
  | g, .enable => g.enable
  | g, .disable => g.disable
  | g, .lock => g.lock
  | g, .unlock => g.unlock

/-! ## What it is for -/

/-- **Interrupts come when they are enabled and not locked.** -/
def Gated : Prop := g.active = true ↔ g.enabled = true ∧ g.lockDepth = 0

/-- Only what is locked is unlocked. -/
def Legal (g : Gate) : GateCall → Prop
  | .unlock => 0 < g.lockDepth
  | _ => True

/-- **The depth has room for another lock**, or interrupts are disabled. -/
def Room (g : Gate) : GateCall → Prop
  | .lock => g.enabled = true → g.lockDepth ≠ 0xffffffff#32
  | _ => True

instance : DecidablePred Gated := fun g =>
  inferInstanceAs (Decidable (g.active = true ↔ g.enabled = true ∧ g.lockDepth = 0))

instance (g : Gate) (call : GateCall) : Decidable (Legal g call) :=
  match call with
  | .enable | .disable | .lock => isTrue trivial
  | .unlock => inferInstanceAs (Decidable (0 < g.lockDepth))

instance (g : Gate) (call : GateCall) : Decidable (Room g call) :=
  match call with
  | .lock => inferInstanceAs (Decidable (g.enabled = true → g.lockDepth ≠ 0xffffffff#32))
  | .enable | .disable | .unlock => isTrue trivial

/-! ## What a call leads to -/

/-- What every call is made from: interrupts do not come when they should not. -/
def Quiet : Prop := g.active = true → g.enabled = true ∧ g.lockDepth = 0

variable {g}

theorem gated_enable (h : g.Quiet) : g.enable.Gated := by
  rw [enable, Gated]
  dsimp only
  split
  · next hfree => exact iff_of_true rfl ⟨rfl, hfree⟩
  · next hlocked => exact iff_of_false (fun hactive => hlocked (h hactive).2) fun hs => hlocked hs.2

theorem gated_disable : g.disable.Gated :=
  iff_of_false Bool.false_ne_true fun h => Bool.false_ne_true h.1

/-- A lock keeps interrupts away, unless its depth wraps to nothing. -/
theorem gated_lock_iff (h : g.Quiet) :
    g.lock.Gated ↔ (g.enabled = true → g.lockDepth ≠ 0xffffffff#32) := by
  have hwraps : g.lockDepth + 1 = 0 ↔ g.lockDepth = 0xffffffff#32 := by bv_omega
  rw [lock, Gated]
  dsimp only
  split
  · next hfirst =>
    have hdepth : g.lockDepth = 0 := by bv_omega
    have hroom : g.lockDepth ≠ 0xffffffff#32 := by bv_omega
    have hlocked : g.lockDepth + 1 ≠ 0 := fun hzero => hroom (hwraps.1 hzero)
    exact iff_of_true (iff_of_false Bool.false_ne_true fun hs => hlocked hs.2) fun _ => hroom
  · next hlater =>
    -- it was locked already, and interrupts did not come
    have hquiet : ¬g.active = true := by
      intro hactive
      refine hlater ?_
      rw [(h hactive).2]
      rfl
    rw [iff_false_left hquiet, not_and, hwraps]

theorem gated_unlock (h : g.Quiet) (hlegal : 0 < g.lockDepth) : g.unlock.Gated := by
  rw [unlock, Gated]
  dsimp only
  split
  · next hlast => exact iff_of_true rfl ⟨hlast.2, hlast.1⟩
  · next hstill =>
    refine iff_of_false (fun hactive => ?_) fun hs => hstill ⟨hs.2, hs.1⟩
    have hzero := (h hactive).2
    rw [hzero] at hlegal
    exact absurd hlegal (by decide)

/-- **A legal call gates interrupts exactly where there is room.** -/
theorem gated_step_iff (h : g.Quiet) {call : GateCall} (hlegal : g.Legal call) :
    (g.step call).Gated ↔ g.Room call := by
  cases call with
  | enable => exact iff_of_true (gated_enable h) trivial
  | disable => exact iff_of_true gated_disable trivial
  | lock => exact gated_lock_iff h
  | unlock => exact iff_of_true (gated_unlock h hlegal) trivial

theorem quiet_of_not_active (h : g.active = false) : g.Quiet := by
  intro hactive
  rw [h] at hactive
  exact absurd hactive Bool.false_ne_true

/-! ## The result -/

/-- **After each call, interrupts come exactly when they are enabled and not
locked**, in every run of calls from interrupts inactive that finds room for
its locks; and in no other. -/
theorem gated_run_iff {calls : List GateCall} (hinactive : g.active = false)
    (hlegal : Along step Legal g calls) :
    Along step (fun g call => (g.step call).Gated) g calls ↔ Along step Room g calls :=
  along_iff_of_invariant hlegal (quiet_of_not_active hinactive)
    (fun _ _ hquiet hlegal => gated_step_iff hquiet hlegal)
    fun _ _ hquiet hlegal hroom => ((gated_step_iff hquiet hlegal).2 hroom).1

/-- Interrupts enabled and disabled while they are locked, once and twice. -/
theorem gated_run_nested : Along step (fun g call => (g.step call).Gated) new
    [.lock, .lock, .enable, .unlock, .unlock, .lock, .disable, .unlock] :=
  (gated_run_iff rfl (by decide)).2 (by decide)

/-! ## A depth that wraps -/

/-- So many locks more of interrupts that are enabled. -/
theorem run_locks (depth : ℕ) (h : depth + 1 < 2 ^ 32) :
    run step ⟨true, 1, false⟩ (List.replicate depth .lock) =
      ⟨true, BitVec.ofNat 32 (depth + 1), false⟩ := by
  induction depth with
  | zero => rfl
  | succ depth ih =>
    have hnext : BitVec.ofNat 32 (depth + 1) + 1 = BitVec.ofNat 32 (depth + 1 + 1) :=
      (BitVec.ofNat_add (depth + 1) 1).symm
    have hlater : BitVec.ofNat 32 (depth + 1 + 1) ≠ 1 := by
      intro heq
      have hone : (BitVec.ofNat 32 (depth + 1 + 1)).toNat = 1 := by rw [heq]; rfl
      rw [BitVec.toNat_ofNat, Nat.mod_eq_of_lt h] at hone
      omega
    rw [List.replicate_succ', run_append, ih (by omega), run_cons, run_nil, step, lock]
    dsimp only
    rw [hnext, if_neg hlater]

theorem along_legal_locks (g : Gate) (depth : ℕ) :
    Along step Legal g (List.replicate depth .lock) := by
  induction depth generalizing g with
  | zero => trivial
  | succ depth ih => exact ⟨trivial, ih _⟩

/-- With one more than the depth can count, it is nothing again, and
interrupts that are enabled and not locked do not come. -/
theorem not_gated_locks : ¬∀ calls, Along step Legal new calls →
    Along step (fun g call => (g.step call).Gated) new calls := by
  intro hall
  obtain ⟨depth, hdepth⟩ : ∃ depth, depth + 2 = 2 ^ 32 := ⟨2 ^ 32 - 2, rfl⟩
  have hafter := hall (.enable :: .lock :: (List.replicate depth .lock ++ [.lock]))
    ⟨trivial, trivial, along_append.2 ⟨along_legal_locks _ depth, along_legal_locks _ 1⟩⟩
  have hlast := (along_append.1 hafter.2.2).2.1
  have hgate : run step ((new.step .enable).step .lock) (List.replicate depth .lock) =
      ⟨true, 0xffffffff#32, false⟩ := by
    have hend : depth + 1 = 0xffffffff := by omega
    have hrun := run_locks depth (by omega)
    rw [hend] at hrun
    exact hrun
  rw [hgate] at hlast
  exact absurd hlast (by decide)

end Gate

end Exceptions

end Uberos
