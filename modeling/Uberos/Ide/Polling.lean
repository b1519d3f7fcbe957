import Mathlib.Algebra.Group.Nat.Defs
/-!
# Polling an IDE channel

`wait_for_status` and `wait_until_data_request_ready` of
`drivers/x86/storage/Ide.cpp`. What the device and the clock do is a trace:
the time at the start, and what every reading of the register would give with
the time after it. The two loops are one over what they wait for.
-/

namespace Uberos

namespace Ide

/-- `Status::busy` -/
def busy : UInt8 := 0x80

/-- `Status::dataRequestReady` -/
def dataRequestReady : UInt8 := 0x08

/-- A reading of the register, and `time::now()` after it. -/
structure Reading where
  value : UInt8
  time : UInt64
  deriving DecidableEq, Repr

/-- What the device and the clock do. -/
structure Trace where
  start : UInt64
  reading : ℕ → Reading

/-- What a pass through the body of a loop comes to. -/
inductive Pass (ρ : Type)
  | returned (result : ρ)
  | broken
  | continued
  deriving Repr

/-- `do{ … }while(false)`: `continue` goes on to the condition, which is
false, so that there is no other pass. -/
def doOnce {ρ : Type} (body : ℕ → Pass ρ) : Option ρ :=
  match body 0 with
  | .returned result => some result
  | .broken | .continued => none

/-- The body of both loops. -/
def pollBody (isReady : UInt8 → Bool) (usecs : UInt32) (start : UInt64) (reading : Reading) :
    Pass UInt8 :=
  if !isReady reading.value then
    if reading.time - start > usecs.toUInt64 then .broken else .continued
  else .returned reading.value

/-- A loop, and its failure. -/
def poll (isReady : UInt8 → Bool) (timeout : String) (usecs : UInt32) (trace : Trace) :
    Except String UInt8 :=
  match doOnce fun i => pollBody isReady usecs trace.start (trace.reading i) with
  | some status => .ok status
  | none => .error timeout

/-- The busy bit is clear. -/
def notBusy (status : UInt8) : Bool := status &&& busy == 0

/-- The data request bit is set. -/
def requestsData (control : UInt8) : Bool := control &&& dataRequestReady != 0

/-- `wait_for_status`, of the status register -/
def waitForStatus (trace : Trace) (usecs : UInt32 := 400) : Except String UInt8 :=
  poll notBusy "timeout waiting on status" usecs trace

/-- `wait_until_data_request_ready`, of the control register -/
def waitUntilDataRequestReady (trace : Trace) (usecs : UInt32 := 1000) : Except String UInt8 :=
  poll requestsData "timeout waiting for DQR" usecs trace

/-! ## What it is for -/

section Law

variable (isReady : UInt8 → Bool) (usecs : UInt32) (trace : Trace)

/-- A reading is what is waited for. -/
def Ready (i : ℕ) : Prop := isReady (trace.reading i).value = true

/-- A reading is no later than so many microseconds after the start. -/
def InTime (i : ℕ) : Prop := (trace.reading i).time - trace.start ≤ usecs.toUInt64

/-- Nothing before a reading ends the polling. -/
def Reached (i : ℕ) : Prop := ∀ j < i, ¬Ready isReady trace j ∧ InTime usecs trace j

/-- The polling runs out of time: the first reading that is late is not
ready, and neither is one before it. -/
def RunsOut : Prop :=
  ∃ i, Reached isReady usecs trace i ∧ ¬Ready isReady trace i ∧ ¬InTime usecs trace i

/-- **The law of polling**: the first reading that is ready is returned where
it is in time, what is returned is one that nothing before it ended the
polling, and it fails only where it runs out of time. -/
structure Polls (result : Except String UInt8) : Prop where
  returns : ∀ i, Reached isReady usecs trace i → Ready isReady trace i → InTime usecs trace i →
    result = .ok (trace.reading i).value
  returned : ∀ status, result = .ok status →
    ∃ i, Reached isReady usecs trace i ∧ Ready isReady trace i ∧ (trace.reading i).value = status
  fails : ∀ message, result = .error message → RunsOut isReady usecs trace

end Law

variable {isReady : UInt8 → Bool} {usecs : UInt32} {trace : Trace} {timeout : String} {i j : ℕ}

instance : Decidable (Ready isReady trace i) := inferInstanceAs (Decidable (_ = true))

instance : Decidable (InTime usecs trace i) := inferInstanceAs (Decidable (_ ≤ _))

/-! ## The one reading -/

theorem poll_ready (h : Ready isReady trace 0) :
    poll isReady timeout usecs trace = .ok (trace.reading 0).value := by
  have hready : isReady (trace.reading 0).value = true := h
  simp [poll, doOnce, pollBody, hready]

/-- **One reading that is not ready is a failure**, late or not: `break` and
`continue` both leave the loop. -/
theorem poll_not_ready (h : ¬Ready isReady trace 0) :
    poll isReady timeout usecs trace = .error timeout := by
  have hready : isReady (trace.reading 0).value = false := Bool.eq_false_iff.mpr h
  by_cases hlate : (trace.reading 0).time - trace.start > usecs.toUInt64
  · simp [poll, doOnce, pollBody, hready, hlate]
  · simp [poll, doOnce, pollBody, hready, hlate]

theorem reached_zero : Reached isReady usecs trace 0 := fun j hj => absurd hj (Nat.not_lt_zero j)

/-- A reading that is ready and one that is late do not both end the
polling. -/
theorem Reached.le_of_ready (hi : Reached isReady usecs trace i) (hj : Ready isReady trace j) :
    i ≤ j := by
  refine Nat.le_of_not_lt fun hlt => ?_
  exact (hi j hlt).1 hj

theorem Reached.le_of_late (hi : Reached isReady usecs trace i) (hj : ¬InTime usecs trace j) :
    i ≤ j := by
  refine Nat.le_of_not_lt fun hlt => ?_
  exact hj (hi j hlt).2

/-- The polling does not run out of time where a reading that is in time is
ready. -/
theorem not_runsOut (hi : Reached isReady usecs trace i) (hready : Ready isReady trace i)
    (hin : InTime usecs trace i) : ¬RunsOut isReady usecs trace := by
  rintro ⟨j, hj, hnot, hlate⟩
  have hle : j ≤ i := hj.le_of_ready hready
  have hge : i ≤ j := hi.le_of_late hlate
  obtain rfl : i = j := by omega
  exact hlate hin

/-- **A loop polls exactly where** the first reading is ready, or none is
until the time runs out. -/
theorem polls_poll :
    Polls isReady usecs trace (poll isReady timeout usecs trace) ↔
      Ready isReady trace 0 ∨ RunsOut isReady usecs trace := by
  by_cases hready : Ready isReady trace 0
  · rw [poll_ready hready]
    refine iff_of_true ⟨?_, ?_, ?_⟩ (Or.inl hready)
    · intro i hi _ _
      obtain rfl : i = 0 := Nat.le_zero.mp (hi.le_of_ready hready)
      rfl
    · intro status hstatus
      exact ⟨0, reached_zero, hready, Except.ok.inj hstatus⟩
    · intro message hmessage
      cases hmessage
  · rw [poll_not_ready hready]
    constructor
    · intro h
      exact Or.inr (h.fails timeout rfl)
    · intro h
      have hruns : RunsOut isReady usecs trace := h.resolve_left hready
      refine ⟨?_, ?_, fun _ _ => hruns⟩
      · intro i hi hi' hin
        exact absurd hruns (not_runsOut hi hi' hin)
      · intro status hstatus
        cases hstatus

/-- **Polling is right exactly where** the first reading is ready, or none is
until the time runs out: for the busy bit and for the data request bit. -/
theorem polls_iff (trace : Trace) (usecs : UInt32) :
    (Polls notBusy usecs trace (waitForStatus trace usecs) ↔
      Ready notBusy trace 0 ∨ RunsOut notBusy usecs trace) ∧
    (Polls requestsData usecs trace (waitUntilDataRequestReady trace usecs) ↔
      Ready requestsData trace 0 ∨ RunsOut requestsData usecs trace) :=
  ⟨polls_poll, polls_poll⟩

/-- Busy once, and ready a microsecond later. -/
def busyOnce : Trace := ⟨0, fun i => if i = 0 then ⟨0x80, 1⟩ else ⟨0x40, 2⟩⟩

/-- The second reading is never made. -/
theorem not_polls_busyOnce : ¬Polls notBusy 400 busyOnce (waitForStatus busyOnce) := by
  intro h
  have hreached : Reached notBusy 400 busyOnce 1 := by
    intro j hj
    obtain rfl : j = 0 := by omega
    decide
  have hresult := h.returns 1 hreached (by decide) (by decide)
  rw [waitForStatus, poll_not_ready (by decide)] at hresult
  cases hresult

end Ide

end Uberos
