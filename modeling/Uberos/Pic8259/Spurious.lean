import Mathlib.Algebra.Group.Nat.Defs
import Uberos.Library.Run
/-!
# Spurious interrupts of the 8259

`_on_interrupt` of `drivers/x86/interrupt/Pic8259.cpp`, on the command ports
of the two chips and on the calls to `exceptions::_on_irq`. The test of an irq
that may be spurious negates the register before it takes the bit of it, as
`set_offset` does with a mask, and no irq passes it.
-/

namespace Uberos

open Library

namespace Pic8259

/-- `read_irr` -/
def readIrr : BitVec 8 := 0x0a

/-- `read_isr` -/
def readIsr : BitVec 8 := 0x0b

/-- `end_of_input` -/
def endOfInput : BitVec 8 := 0x20

/-- A chip at its command port: the irqs in service, those requested, and
whether the first are what is read back. -/
structure Port where
  isr : BitVec 8
  irr : BitVec 8
  readsIsr : Bool
  deriving DecidableEq, Repr

namespace Port

/-- The irq of the highest priority in service. -/
def highest (isr : BitVec 8) : Option ℕ := (List.range 8).find? isr.getLsbD

/-- What an end of interrupt leaves in service. -/
def ended (isr : BitVec 8) : BitVec 8 :=
  match highest isr with
  | some line => isr &&& ~~~(1#8 <<< line)
  | none => isr

/-- `write8` to the command port. -/
def write8 (port : Port) (command : BitVec 8) : Port :=
  if command = endOfInput then { port with isr := ended port.isr }
  else if command = readIsr then { port with readsIsr := true }
  else if command = readIrr then { port with readsIsr := false }
  else port

/-- `read8` of the command port. -/
def read8 (port : Port) : BitVec 8 := if port.readsIsr then port.isr else port.irr

/-- A line of the chip comes into service. -/
def serve (port : Port) (line : ℕ) : Port := { port with isr := port.isr ||| 1#8 <<< line }

end Port

/-- The two chips, and the irqs `exceptions::_on_irq` was called with. -/
structure Ports where
  chip1 : Port
  chip2 : Port
  calls : List ℕ
  deriving DecidableEq, Repr

/-- The vectors of a chip, as they are tested. The sum is not cut off. -/
def Within (offset vector : BitVec 8) : Prop :=
  offset.toNat ≤ vector.toNat ∧ vector.toNat < offset.toNat + 8

instance Within.decidable (offset vector : BitVec 8) : Decidable (Within offset vector) :=
  inferInstanceAs (Decidable (_ ∧ _))

/-- `!read8(command)&0b10000000` -/
def notServed (isr : BitVec 8) : Bool := (if isr = 0#8 then 1 else 0) &&& 0b10000000 ≠ 0

namespace Ports

variable (offset1 offset2 : BitVec 8)

/-- `exceptions::_on_irq(irq)` -/
def onIrq (s : Ports) (irq : ℕ) : Ports := { s with calls := s.calls ++ [irq] }

def write1 (s : Ports) (command : BitVec 8) : Ports := { s with chip1 := s.chip1.write8 command }

def write2 (s : Ports) (command : BitVec 8) : Ports := { s with chip2 := s.chip2.write8 command }

/-- `_on_interrupt` -/
def onInterrupt (s : Ports) (vector : BitVec 8) : Ports :=
  if Within offset1 vector then
    let irq := vector.toNat - offset1.toNat
    let s := if irq = 7 then s.write1 readIsr else s
    if irq = 7 ∧ notServed s.chip1.read8 then s
    else (s.onIrq irq).write1 endOfInput
  else if Within offset2 vector then
    let irq := vector.toNat - offset2.toNat + 8
    let s := if irq = 15 then s.write2 readIsr else s
    if irq = 15 ∧ notServed s.chip2.read8 then s
    else ((s.onIrq irq).write2 endOfInput).write1 endOfInput
  else s

end Ports

/-- What a chip may raise. -/
inductive Event
  | real (irq : Fin 16)
  | spurious7
  | spurious15
  deriving DecidableEq, Repr

namespace Event

/-- What comes into service with it. -/
def arrive (s : Ports) : Event → Ports
  | .real irq =>
    if irq.val < 8 then { s with chip1 := s.chip1.serve irq }
    else { s with chip1 := s.chip1.serve 2, chip2 := s.chip2.serve (irq - 8) }
  | .spurious7 => s
  | .spurious15 => { s with chip1 := s.chip1.serve 2 }

/-- The vector it is raised with, where `enable_irq` subscribes to it. -/
def vector (offset1 offset2 : BitVec 8) : Event → BitVec 8
  | .real irq =>
    if irq.val < 8 then offset1 + BitVec.ofNat 8 irq else offset2 + BitVec.ofNat 8 (irq - 8)
  | .spurious7 => offset1 + 7#8
  | .spurious15 => offset2 + 7#8

/-- The irqs that are to be called for it. -/
def irqs : Event → List ℕ
  | .real irq => [irq.val]
  | .spurious7 | .spurious15 => []

end Event

/-- An interrupt arrives and is handled. -/
def interrupted (offset1 offset2 : BitVec 8) (s : Ports) (event : Event) : Ports :=
  (event.arrive s).onInterrupt offset1 offset2 (event.vector offset1 offset2)

/-! ## What it is for -/

/-- **An interrupt is acknowledged**: its irq is called if it is real, and
nothing stays in service for it. -/
structure Acknowledged (offset1 offset2 : BitVec 8) (s : Ports) (event : Event) : Prop where
  calls : (interrupted offset1 offset2 s event).calls = s.calls ++ event.irqs
  isr1 : (interrupted offset1 offset2 s event).chip1.isr = s.chip1.isr
  isr2 : (interrupted offset1 offset2 s event).chip2.isr = s.chip2.isr

/-- Nothing of this priority or above it is in service. -/
def Idle (isr : BitVec 8) (line : ℕ) : Prop := ∀ k ≤ line, isr.getLsbD k = false

/-- **What the handler is right about.** A real irq has its vector among those
of its chip, and nothing of its priority or above it is in service. A spurious
one has its vector among those of neither chip, and the line between the chips
is in service already where it comes of the second. -/
def Event.Handled (offset1 offset2 isr1 isr2 : BitVec 8) (event : Event) : Prop :=
  let vector := event.vector offset1 offset2
  match event with
  | .real irq =>
    if irq.val < 8 then Within offset1 vector ∧ Idle isr1 irq
    else ¬Within offset1 vector ∧ Within offset2 vector ∧ Idle isr1 2 ∧ Idle isr2 (irq - 8)
  | .spurious7 => ¬Within offset1 vector ∧ ¬Within offset2 vector
  | .spurious15 => ¬Within offset1 vector ∧ ¬Within offset2 vector ∧ isr1.getLsbD 2 = true

/-! ## What is written to a chip -/

variable {isr offset vector : BitVec 8} {line : ℕ} {port : Port}

/-- **No irq is found out.** What is negated is 0 or 1, and has no such bit. -/
theorem notServed_eq_false (isr : BitVec 8) : notServed isr = false := by
  rw [notServed]
  split <;> decide

namespace Port

theorem write8_readIsr : port.write8 readIsr = { port with readsIsr := true } := by
  rw [write8, if_neg (by decide), if_pos rfl]

theorem write8_endOfInput : port.write8 endOfInput = { port with isr := ended port.isr } := by
  rw [write8, if_pos rfl]

theorem getLsbD_bit (line : ℕ) {k : ℕ} (hk : k < 8) :
    (1#8 <<< line).getLsbD k = decide (k = line) := by
  have hsub : (!decide (k < line) && decide (k - line = 0)) = decide (k = line) := by grind
  rw [BitVec.getLsbD_shiftLeft, decide_eq_true hk, Bool.true_and, BitVec.getLsbD_one]
  rwa [decide_eq_true (by decide : 0 < 8), Bool.true_and]

theorem getLsbD_serve (isr : BitVec 8) (line : ℕ) {k : ℕ} (hk : k < 8) :
    (isr ||| 1#8 <<< line).getLsbD k = (isr.getLsbD k || decide (k = line)) := by
  rw [BitVec.getLsbD_or, getLsbD_bit line hk]

theorem getLsbD_end (isr : BitVec 8) (line : ℕ) {k : ℕ} (hk : k < 8) :
    (isr &&& ~~~(1#8 <<< line)).getLsbD k = (isr.getLsbD k && !decide (k = line)) := by
  rw [BitVec.getLsbD_and, BitVec.getLsbD_not, getLsbD_bit line hk, decide_eq_true hk,
    Bool.true_and]

/-- A line that was in service leaves no trace of its coming. -/
theorem serve_eq_iff (isr : BitVec 8) (hline : line < 8) :
    isr ||| 1#8 <<< line = isr ↔ isr.getLsbD line = true := by
  refine ⟨fun h => ?_, fun h => BitVec.eq_of_getLsbD_eq fun k hk => ?_⟩
  · rw [← h, getLsbD_serve isr line hline, decide_eq_true rfl, Bool.or_true]
  · rw [getLsbD_serve isr line hk]
    by_cases heq : k = line
    · rw [heq, h, Bool.true_or]
    · rw [decide_eq_false heq, Bool.or_false]

/-- Of what is in service with a line, the highest is the line or above it. -/
theorem highest_serve (isr : BitVec 8) (hline : line < 8) :
    ∃ k ≤ line, highest (isr ||| 1#8 <<< line) = some k ∧
      (isr.getLsbD k = true ∨ k = line) ∧ ∀ j < k, isr.getLsbD j = false := by
  have hset : (isr ||| 1#8 <<< line).getLsbD line = true := by
    rw [getLsbD_serve isr line hline, decide_eq_true rfl, Bool.or_true]
  cases hfound : highest (isr ||| 1#8 <<< line) with
  | none =>
    have hnone := List.find?_eq_none.1 hfound line (List.mem_range.2 hline)
    exact absurd hset hnone
  | some k =>
    obtain ⟨hk, hmem, hbelow⟩ := List.find?_range_eq_some.1 hfound
    have hlt : k < 8 := List.mem_range.1 hmem
    have hle : k ≤ line := Nat.le_of_not_lt fun h => by
      have hnot := hbelow line h
      rw [hset] at hnot
      cases hnot
    rw [getLsbD_serve isr line hlt, Bool.or_eq_true, decide_eq_true_eq] at hk
    refine ⟨k, hle, rfl, hk, fun j hj => ?_⟩
    have hnot := hbelow j hj
    rw [getLsbD_serve isr line (by omega), Bool.not_eq_true', Bool.or_eq_false_iff] at hnot
    exact hnot.1

/-- **An end of interrupt undoes the coming of a line** exactly when nothing
of its priority or above it was in service. -/
theorem ended_serve_iff (isr : BitVec 8) (hline : line < 8) :
    ended (isr ||| 1#8 <<< line) = isr ↔ Idle isr line := by
  obtain ⟨k, hle, hfound, hk, hbelow⟩ := highest_serve isr hline
  have hlt : k < 8 := Nat.lt_of_le_of_lt hle hline
  rw [ended, hfound]
  refine ⟨fun h => ?_, fun hidle => BitVec.eq_of_getLsbD_eq fun j hj => ?_⟩
  · -- the bit that was cleared is clear in the result, so the line itself was the highest
    have hclear : isr.getLsbD k = false := by
      rw [← h, getLsbD_end _ k hlt, decide_eq_true rfl, Bool.not_true, Bool.and_false]
    have heq : k = line := hk.resolve_left (by rw [hclear]; decide)
    intro j hj
    rcases Nat.lt_or_eq_of_le hj with hj | rfl
    · exact hbelow j (heq ▸ hj)
    · exact heq ▸ hclear
  · have heq : k = line := hk.resolve_left (by rw [hidle k hle]; decide)
    rw [heq, getLsbD_end _ line hj, getLsbD_serve isr line hj]
    by_cases hjl : j = line
    · rw [hjl, decide_eq_true rfl, Bool.not_true, Bool.and_false, hidle line (Nat.le_refl line)]
    · rw [decide_eq_false hjl, Bool.or_false, Bool.not_false, Bool.and_true]

end Port

/-! ## What the handler does -/

variable {offset1 offset2 isr1 isr2 : BitVec 8} {s : Ports} {event : Event} {events : List Event}

namespace Ports

/-- Every vector of the first chip is called and ended. -/
theorem onInterrupt_first (s : Ports) (offset2 : BitVec 8) (h : Within offset1 vector) :
    (s.onInterrupt offset1 offset2 vector).calls
        = s.calls ++ [vector.toNat - offset1.toNat] ∧
      (s.onInterrupt offset1 offset2 vector).chip1.isr = Port.ended s.chip1.isr ∧
      (s.onInterrupt offset1 offset2 vector).chip2.isr = s.chip2.isr := by
  rw [onInterrupt, if_pos h]
  simp only [notServed_eq_false, Bool.false_eq_true, and_false, if_false]
  by_cases h7 : vector.toNat - offset1.toNat = 7
  · rw [if_pos h7, h7]
    simp only [write1, onIrq, Port.write8_readIsr, Port.write8_endOfInput, and_self]
  · rw [if_neg h7]
    simp only [write1, onIrq, Port.write8_endOfInput, and_self]

/-- So is every vector of the second, and the line between them with it. -/
theorem onInterrupt_second (s : Ports) (h1 : ¬Within offset1 vector) (h2 : Within offset2 vector) :
    (s.onInterrupt offset1 offset2 vector).calls
        = s.calls ++ [vector.toNat - offset2.toNat + 8] ∧
      (s.onInterrupt offset1 offset2 vector).chip1.isr = Port.ended s.chip1.isr ∧
      (s.onInterrupt offset1 offset2 vector).chip2.isr = Port.ended s.chip2.isr := by
  rw [onInterrupt, if_neg h1, if_pos h2]
  simp only [notServed_eq_false, Bool.false_eq_true, and_false, if_false]
  by_cases h15 : vector.toNat - offset2.toNat + 8 = 15
  · rw [if_pos h15, h15]
    simp only [write1, write2, onIrq, Port.write8_readIsr, Port.write8_endOfInput, and_self]
  · rw [if_neg h15]
    simp only [write1, write2, onIrq, Port.write8_endOfInput, and_self]

theorem onInterrupt_neither (h1 : ¬Within offset1 vector) (h2 : ¬Within offset2 vector) :
    s.onInterrupt offset1 offset2 vector = s := by
  rw [onInterrupt, if_neg h1, if_neg h2]

/-- **What is called for is called exactly once** where the vector is one of
those tested, and only there. -/
theorem calls_onInterrupt (s : Ports) :
    (s.onInterrupt offset1 offset2 vector).calls = s.calls ↔
      ¬Within offset1 vector ∧ ¬Within offset2 vector := by
  by_cases h1 : Within offset1 vector
  · rw [(onInterrupt_first s offset2 h1).1]
    exact iff_of_false (by simp) fun h => h.1 h1
  · by_cases h2 : Within offset2 vector
    · rw [(onInterrupt_second s h1 h2).1]
      exact iff_of_false (by simp) fun h => h.2 h2
    · rw [onInterrupt_neither h1 h2]
      exact iff_of_true rfl ⟨h1, h2⟩

end Ports

theorem Event.calls_arrive (event : Event) (s : Ports) : (event.arrive s).calls = s.calls := by
  cases event with
  | real irq => rw [Event.arrive]; split <;> rfl
  | spurious7 => rfl
  | spurious15 => rfl

/-- A vector that is tested for is the line it was raised with. -/
theorem toNat_sub_of_within (hline : line < 8) (h : Within offset (offset + BitVec.ofNat 8 line)) :
    (offset + BitVec.ofNat 8 line).toNat - offset.toNat = line := by
  obtain ⟨hle, hlt⟩ := h
  have hoffset : offset.toNat < 256 := offset.isLt
  rw [BitVec.toNat_add, BitVec.toNat_ofNat] at hle hlt ⊢
  omega

/-! ## The result -/

theorem acknowledged_irq_first {irq : Fin 16} (hirq : irq.val < 8) :
    Acknowledged offset1 offset2 s (.real irq) ↔
      Within offset1 (offset1 + BitVec.ofNat 8 irq) ∧ Idle s.chip1.isr irq := by
  have hvector : (Event.real irq).vector offset1 offset2 = offset1 + BitVec.ofNat 8 irq :=
    if_pos hirq
  have harrive : (Event.real irq).arrive s = { s with chip1 := s.chip1.serve irq } := if_pos hirq
  by_cases h1 : Within offset1 (offset1 + BitVec.ofNat 8 irq)
  · obtain ⟨hcalls, hisr1, hisr2⟩ :=
      Ports.onInterrupt_first { s with chip1 := s.chip1.serve irq } offset2 h1
    rw [toNat_sub_of_within hirq h1] at hcalls
    have hended := Port.ended_serve_iff s.chip1.isr hirq
    rw [and_iff_right h1, ← hended]
    refine ⟨fun h => ?_, fun h => ⟨?_, ?_, ?_⟩⟩
    · have hkept := h.isr1
      rwa [interrupted, hvector, harrive, hisr1] at hkept
    · rwa [interrupted, hvector, harrive]
    · rwa [interrupted, hvector, harrive, hisr1]
    · rwa [interrupted, hvector, harrive]
  · refine iff_of_false (fun h => ?_) fun h => h1 h.1
    have hcalls := h.calls
    rw [interrupted, hvector, harrive] at hcalls
    by_cases h2 : Within offset2 (offset1 + BitVec.ofNat 8 irq)
    · rw [(Ports.onInterrupt_second _ h1 h2).1] at hcalls
      have heq := List.singleton_inj.1 (List.append_cancel_left hcalls)
      omega
    · rw [Ports.onInterrupt_neither h1 h2] at hcalls
      exact List.cons_ne_nil _ _ (List.self_eq_append_right.1 hcalls)

theorem acknowledged_irq_second {irq : Fin 16} (hirq : ¬irq.val < 8) :
    Acknowledged offset1 offset2 s (.real irq) ↔
      ¬Within offset1 (offset2 + BitVec.ofNat 8 (irq - 8)) ∧
        Within offset2 (offset2 + BitVec.ofNat 8 (irq - 8)) ∧
          Idle s.chip1.isr 2 ∧ Idle s.chip2.isr (irq - 8) := by
  have hvector : (Event.real irq).vector offset1 offset2
      = offset2 + BitVec.ofNat 8 (irq - 8) := if_neg hirq
  have harrive : (Event.real irq).arrive s
      = { s with chip1 := s.chip1.serve 2, chip2 := s.chip2.serve (irq - 8) } := if_neg hirq
  have hline : irq.val - 8 < 8 := by omega
  by_cases h1 : Within offset1 (offset2 + BitVec.ofNat 8 (irq - 8))
  · -- taken for an irq of the first chip
    refine iff_of_false (fun h => ?_) fun h => h.1 h1
    have hcalls := h.calls
    rw [interrupted, hvector, harrive, (Ports.onInterrupt_first _ offset2 h1).1] at hcalls
    have heq := List.singleton_inj.1 (List.append_cancel_left hcalls)
    obtain ⟨hle, hlt⟩ := h1
    omega
  · by_cases h2 : Within offset2 (offset2 + BitVec.ofNat 8 (irq - 8))
    · obtain ⟨hcalls, hisr1, hisr2⟩ := Ports.onInterrupt_second
        { s with chip1 := s.chip1.serve 2, chip2 := s.chip2.serve (irq - 8) } h1 h2
      rw [toNat_sub_of_within hline h2, Nat.sub_add_cancel (Nat.le_of_not_lt hirq)] at hcalls
      have hended1 := Port.ended_serve_iff s.chip1.isr (by decide : 2 < 8)
      have hended2 := Port.ended_serve_iff s.chip2.isr hline
      rw [and_iff_right h1, and_iff_right h2, ← hended1, ← hended2]
      refine ⟨fun h => ⟨?_, ?_⟩, fun h => ⟨?_, ?_, ?_⟩⟩
      · have hkept := h.isr1
        rwa [interrupted, hvector, harrive, hisr1] at hkept
      · have hkept := h.isr2
        rwa [interrupted, hvector, harrive, hisr2] at hkept
      · rwa [interrupted, hvector, harrive]
      · rw [interrupted, hvector, harrive, hisr1]
        exact h.1
      · rw [interrupted, hvector, harrive, hisr2]
        exact h.2
    · refine iff_of_false (fun h => ?_) fun h => h2 h.2.1
      have hcalls := h.calls
      rw [interrupted, hvector, harrive, Ports.onInterrupt_neither h1 h2] at hcalls
      exact List.cons_ne_nil _ _ (List.self_eq_append_right.1 hcalls)

/-- Of a spurious interrupt nothing is to be called. -/
theorem acknowledged_spurious (hirqs : event.irqs = [])
    (hisr2 : (event.arrive s).chip2.isr = s.chip2.isr) :
    Acknowledged offset1 offset2 s event ↔
      ¬Within offset1 (event.vector offset1 offset2) ∧
        ¬Within offset2 (event.vector offset1 offset2) ∧
          (event.arrive s).chip1.isr = s.chip1.isr := by
  have hcalls : (event.arrive s).calls = s.calls ++ event.irqs := by
    rw [Event.calls_arrive, hirqs, List.append_nil]
  refine ⟨fun h => ?_, fun ⟨h1, h2, hisr1⟩ => ?_⟩
  · have hkept := h.calls
    rw [← hcalls, interrupted, Ports.calls_onInterrupt] at hkept
    have hisr1 := h.isr1
    rw [interrupted, Ports.onInterrupt_neither hkept.1 hkept.2] at hisr1
    exact ⟨hkept.1, hkept.2, hisr1⟩
  · have hstays : interrupted offset1 offset2 s event = event.arrive s :=
      Ports.onInterrupt_neither h1 h2
    exact ⟨hstays ▸ hcalls, hstays ▸ hisr1, hstays ▸ hisr2⟩

/-- **A step is acknowledged** exactly when the handler is right about it. -/
theorem acknowledged_iff : Acknowledged offset1 offset2 s event ↔
    event.Handled offset1 offset2 s.chip1.isr s.chip2.isr := by
  cases event with
  | real irq =>
    by_cases hirq : irq.val < 8
    · rw [acknowledged_irq_first hirq]
      simp only [Event.Handled, Event.vector, if_pos hirq]
    · rw [acknowledged_irq_second hirq]
      simp only [Event.Handled, Event.vector, if_neg hirq]
  | spurious7 =>
    rw [acknowledged_spurious rfl rfl]
    simp only [Event.Handled, Event.arrive, and_true]
  | spurious15 =>
    have hserve := Port.serve_eq_iff s.chip1.isr (by decide : 2 < 8)
    rw [acknowledged_spurious rfl rfl, Event.Handled, ← hserve]
    rfl

/-- **Interrupts are acknowledged in a run** exactly when the handler is right
about each of them, as the registers were when it began: no line stays blocked
and no spurious interrupt is called for. -/
theorem acknowledgedAlong_iff (offset1 offset2 : BitVec 8) (s : Ports) (events : List Event) :
    Along (interrupted offset1 offset2) (Acknowledged offset1 offset2) s events ↔
      ∀ event ∈ events, event.Handled offset1 offset2 s.chip1.isr s.chip2.isr := by
  induction events generalizing s with
  | nil => exact iff_of_true trivial fun event h => absurd h List.not_mem_nil
  | cons event events ih =>
    rw [along_cons, List.forall_mem_cons, acknowledged_iff]
    refine and_congr_right fun hhandled => ?_
    have hacknowledged := acknowledged_iff.2 hhandled
    rw [ih, hacknowledged.isr1, hacknowledged.isr2]

/-- A spurious interrupt of the second chip, of the offsets `_on_start` sets,
is called for and ended there. -/
theorem not_acknowledgedAlong_spurious :
    ¬Along (interrupted 0x20 0x28) (Acknowledged 0x20 0x28)
      ⟨⟨0, 0, false⟩, ⟨0, 0, false⟩, []⟩ [.spurious15] := by
  rw [along_cons]
  intro h
  have hcalls := h.1.calls
  revert hcalls
  decide

end Pic8259

end Uberos
