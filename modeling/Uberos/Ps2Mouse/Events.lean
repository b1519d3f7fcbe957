import Mathlib.Algebra.Ring.Int.Defs
import Mathlib.Data.List.Chain
import Uberos.Ps2Mouse.Stream
/-!
# What a mouse tells of

The events of each button follow its state, which is that of the last
packet, and the motions told of are those of the packets, however the
bytes are delivered. What the driver answers of a button is of the first
one, whichever is asked of.
-/

namespace Uberos

open Library

namespace Ps2Mouse

variable {device : Device} {m m' m'' : Mouse} {packet : WellFormed} {packets : List WellFormed}

/-! ## What it is for -/

/-- What an event says of a button: that it is pressed, or released. -/
def Event.ofButton (button : ℕ) : Event → Option Bool
  | .pressed i => if i = button then some true else none
  | .released i => if i = button then some false else none
  | .moved _ _ => none
  | .scrolled _ => none

/-- How far an event moves. -/
def Event.x : Event → ℤ
  | .moved x _ => x
  | _ => 0

def Event.y : Event → ℤ
  | .moved _ y => y
  | _ => 0

/-- Each differs from the one before, the first from a release. -/
def Alternates (events : List Bool) : Prop := (false :: events).IsChain (· ≠ ·)

namespace Mouse

variable (m : Mouse)

/-- The events of a button. -/
def buttonEvents (button : ℕ) : List Bool := m.events.filterMap (Event.ofButton button)

/-- All that has been moved. -/
def movedX : ℤ := (m.events.map Event.x).sum

def movedY : ℤ := (m.events.map Event.y).sum

end Mouse

/-- The bit of a button in a packet. -/
def Packet.button (packet : Packet) : ℕ → Bool
  | 0 => packet.leftButton
  | 1 => packet.rightButton
  | 2 => packet.middleButton
  | 3 => packet.button4
  | _ => packet.button5

namespace Device

variable (device : Device)

/-- All that some packets move. -/
def xSum (packets : List WellFormed) : ℤ := (packets.map fun packet => device.xMotion packet.val).sum

def ySum (packets : List WellFormed) : ℤ := (packets.map fun packet => device.yMotion packet.val).sum

/-- **The buttons are alike** in a packet: all of them are as the first. -/
def Alike (packet : WellFormed) : Prop :=
  ∀ i < device.buttonCount.toNat, packet.val.button i = packet.val.leftButton

/-- **The motion stays in its type**, packet by packet. -/
def InRange (group : List WellFormed) : Prop :=
  ∀ n ≤ group.length, InI32 (device.xSum (group.take n)) ∧ InI32 (device.ySum (group.take n))

instance (packet : WellFormed) : Decidable (device.Alike packet) :=
  inferInstanceAs (Decidable (∀ i < _, _))

instance (group : List WellFormed) : Decidable (device.InRange group) :=
  inferInstanceAs (Decidable (∀ n ≤ _, _ ∧ _))

end Device

/-- **The driver tells of the packets**: the events of each button
alternate, its state is what the last of them says, and the motions come
to those of the packets, no sum of them being undefined. -/
structure Mouse.Tells (m : Mouse) (device : Device) (packets : List WellFormed) : Prop where
  alternates : ∀ button, Alternates (m.buttonEvents button)
  state : ∀ button : BitVec 8, button.toNat < device.buttonCount.toNat →
    (m.getButtonState device button = true ↔
      (m.buttonEvents button.toNat).getLast? = some true)
  x : m.movedX = device.xSum packets
  y : m.movedY = device.ySum packets
  defined : m.overflowed = false

/-! ## Events and states -/

/-- The events of each button alternate and end with its state. -/
def Mouse.Tracks (m : Mouse) : Prop :=
  ∀ button, Alternates (m.buttonEvents button) ∧
    (false :: m.buttonEvents button).getLast? = some (m.buttonState button)

theorem buttonEvents_triggerEvent (event : Event) (button : ℕ) :
    (m.triggerEvent event).buttonEvents button
      = m.buttonEvents button ++ (event.ofButton button).toList := by
  rw [Mouse.buttonEvents, Mouse.triggerEvent, List.filterMap_append, Mouse.buttonEvents]
  refine congrArg (_ ++ ·) ?_
  cases hevent : event.ofButton button with
  | none => exact List.filterMap_cons_none hevent
  | some pressed => exact List.filterMap_cons_some hevent

/-- An event that is of no button changes nothing. -/
theorem Mouse.Tracks.triggerEvent (h : m.Tracks) {event : Event}
    (hevent : ∀ button, event.ofButton button = none) : (m.triggerEvent event).Tracks := by
  intro button
  rw [buttonEvents_triggerEvent, hevent, Option.toList_none, List.append_nil]
  exact h button

/-- The state of a button is set, whether or not it is told of. -/
theorem buttonState_setButton (button : ℕ) (state : Bool) (i : ℕ) :
    (m.setButton button state).buttonState i = if i = button then state else m.buttonState i := by
  rw [Mouse.setButton]
  by_cases hne : m.buttonState button ≠ state
  · rw [if_pos hne]
    rfl
  · rw [if_neg hne]
    split
    · next heq => rw [heq, not_not.mp hne]
    · rfl

/-- **A button that changes is told of**, and the others are as they were. -/
theorem Mouse.Tracks.setButton (h : m.Tracks) (button : ℕ) (state : Bool) :
    (m.setButton button state).Tracks := by
  intro i
  have hstate := buttonState_setButton (m := m) button state i
  obtain ⟨halternates, hlast⟩ := h i
  rw [hstate]
  by_cases hne : m.buttonState button ≠ state
  · have hset : m.setButton button state = _ := if_pos hne
    have hevent : (if state then Event.pressed button else .released button).ofButton i
        = if button = i then some state else none := by
      cases state <;> rfl
    have hevents : (m.setButton button state).buttonEvents i
        = m.buttonEvents i ++ (if button = i then some state else none).toList := by
      rw [hset, buttonEvents_triggerEvent, hevent]
      rfl
    rw [hevents]
    by_cases heq : i = button
    · rw [if_pos heq.symm, if_pos heq, Option.toList_some]
      refine ⟨?_, by rw [← List.cons_append, List.getLast?_concat]⟩
      refine List.isChain_append.mpr ⟨halternates, List.isChain_singleton _, ?_⟩
      intro last hmem next hnext
      rw [hlast, Option.mem_some_iff] at hmem
      rw [List.head?_cons, Option.mem_some_iff] at hnext
      rw [← hmem, ← hnext, heq]
      exact hne
    · rw [if_neg (Ne.symm heq), if_neg heq, Option.toList_none, List.append_nil]
      exact ⟨halternates, hlast⟩
  · have hset : m.setButton button state = m := if_neg hne
    rw [hset]
    refine ⟨halternates, hlast.trans (congrArg some ?_)⟩
    split
    · next heq => rw [heq, not_not.mp hne]
    · rfl

theorem Mouse.Tracks.setButtons (h : m.Tracks) (packet : Packet) :
    (m.setButtons device packet).Tracks := by
  have hthree := ((h.setButton 0 packet.leftButton).setButton 1 packet.rightButton).setButton 2
    packet.middleButton
  rw [Mouse.setButtons]
  split
  · exact (hthree.setButton 3 packet.button4).setButton 4 packet.button5
  · exact hthree

theorem Mouse.Tracks.addMotion (h : m.Tracks) (packet : Packet) :
    (m.addMotion device packet).Tracks := by
  rw [Mouse.addMotion]
  split
  · exact h
  · exact h

theorem Mouse.Tracks.scroll (h : m.Tracks) (packet : Packet) :
    (m.scroll device packet).Tracks := by
  rw [Mouse.scroll]
  repeat' split
  all_goals first
    | exact h
    | exact h.triggerEvent fun _ => rfl

theorem Mouse.Tracks.onPacket (h : m.Tracks) (packet : Packet) :
    (m.onPacket device packet).Tracks :=
  ((h.setButtons packet).addMotion packet).scroll packet

theorem Mouse.Tracks.flush (h : m.Tracks) : m.flush.Tracks := by
  rw [Mouse.flush]
  split
  · exact h.triggerEvent fun _ => rfl
  · exact h

/-! ## Motion -/

/-- Nothing of the motion is changed. -/
structure Mouse.SameMotion (m m' : Mouse) : Prop where
  movedX : m'.movedX = m.movedX
  movedY : m'.movedY = m.movedY
  pendingX : m'.pendingX = m.pendingX
  pendingY : m'.pendingY = m.pendingY
  overflowed : m'.overflowed = m.overflowed

theorem Mouse.SameMotion.trans (h : m.SameMotion m') (h' : m'.SameMotion m'') :
    m.SameMotion m'' :=
  ⟨h'.movedX.trans h.movedX, h'.movedY.trans h.movedY, h'.pendingX.trans h.pendingX,
    h'.pendingY.trans h.pendingY, h'.overflowed.trans h.overflowed⟩

theorem movedX_triggerEvent (event : Event) : (m.triggerEvent event).movedX = m.movedX + event.x := by
  rw [Mouse.movedX, Mouse.triggerEvent, List.map_append, List.sum_append, Mouse.movedX]
  exact congrArg (m.movedX + ·) (Int.add_zero event.x)

theorem movedY_triggerEvent (event : Event) : (m.triggerEvent event).movedY = m.movedY + event.y := by
  rw [Mouse.movedY, Mouse.triggerEvent, List.map_append, List.sum_append, Mouse.movedY]
  exact congrArg (m.movedY + ·) (Int.add_zero event.y)

theorem sameMotion_triggerEvent {event : Event} (hx : event.x = 0) (hy : event.y = 0) :
    m.SameMotion (m.triggerEvent event) where
  movedX := by rw [movedX_triggerEvent, hx, Int.add_zero]
  movedY := by rw [movedY_triggerEvent, hy, Int.add_zero]
  pendingX := rfl
  pendingY := rfl
  overflowed := rfl

theorem sameMotion_setButton (button : ℕ) (state : Bool) :
    m.SameMotion (m.setButton button state) := by
  rw [Mouse.setButton]
  split
  · have hstate : m.SameMotion
        { m with buttonState := fun i => if i = button then state else m.buttonState i } :=
      ⟨rfl, rfl, rfl, rfl, rfl⟩
    refine hstate.trans (sameMotion_triggerEvent ?_ ?_)
    · cases state <;> rfl
    · cases state <;> rfl
  · exact ⟨rfl, rfl, rfl, rfl, rfl⟩

variable (device) in
theorem sameMotion_setButtons (packet : Packet) : m.SameMotion (m.setButtons device packet) := by
  have hthree := ((sameMotion_setButton (m := m) 0 packet.leftButton).trans
    (sameMotion_setButton 1 packet.rightButton)).trans (sameMotion_setButton 2 packet.middleButton)
  rw [Mouse.setButtons]
  split
  · exact (hthree.trans (sameMotion_setButton 3 packet.button4)).trans
      (sameMotion_setButton 4 packet.button5)
  · exact hthree

variable (device) in
theorem sameMotion_scroll (packet : Packet) : m.SameMotion (m.scroll device packet) := by
  rw [Mouse.scroll]
  repeat' split
  all_goals first
    | exact ⟨rfl, rfl, rfl, rfl, rfl⟩
    | exact sameMotion_triggerEvent rfl rfl

/-- **A packet's motion is added** to what there is, and told of later. -/
structure Mouse.AddsMotion (m : Mouse) (x y : ℤ) (m' : Mouse) : Prop where
  movedX : m'.movedX = m.movedX
  movedY : m'.movedY = m.movedY
  pendingX : m'.pendingX = m.pendingX + x
  pendingY : m'.pendingY = m.pendingY + y

/-- Where there is none, nothing is. -/
theorem addMotion_of_zero {packet : Packet}
    (hmotion : ¬(device.xMotion packet ≠ 0 ∨ device.yMotion packet ≠ 0)) :
    device.xMotion packet = 0 ∧ device.yMotion packet = 0 ∧ m.addMotion device packet = m := by
  obtain ⟨hx, hy⟩ := not_or.mp hmotion
  exact ⟨not_not.mp hx, not_not.mp hy, if_neg hmotion⟩

variable (device) in
theorem addsMotion_addMotion (packet : Packet) :
    m.AddsMotion (device.xMotion packet) (device.yMotion packet)
      (m.addMotion device packet) := by
  by_cases hmotion : device.xMotion packet ≠ 0 ∨ device.yMotion packet ≠ 0
  · have hadd : m.addMotion device packet = _ := if_pos hmotion
    rw [hadd]
    exact ⟨rfl, rfl, rfl, rfl⟩
  · obtain ⟨hx, hy, hsame⟩ := addMotion_of_zero (m := m) hmotion
    rw [hsame, hx, hy]
    exact ⟨rfl, rfl, (Int.add_zero _).symm, (Int.add_zero _).symm⟩

variable (device) in
theorem addsMotion_onPacket (packet : Packet) :
    m.AddsMotion (device.xMotion packet) (device.yMotion packet)
      (m.onPacket device packet) := by
  have hbefore := sameMotion_setButtons (m := m) device packet
  have hadd := addsMotion_addMotion (m := m.setButtons device packet) device packet
  have hafter := sameMotion_scroll (m := (m.setButtons device packet).addMotion device packet)
    device packet
  refine ⟨?_, ?_, ?_, ?_⟩
  · exact hafter.movedX.trans (hadd.movedX.trans hbefore.movedX)
  · exact hafter.movedY.trans (hadd.movedY.trans hbefore.movedY)
  · rw [Mouse.onPacket, hafter.pendingX, hadd.pendingX, hbefore.pendingX]
  · rw [Mouse.onPacket, hafter.pendingY, hadd.pendingY, hbefore.pendingY]

variable (device) in
/-- The sums of a packet are defined where they stay in their type. -/
theorem overflowed_onPacket (packet : Packet) (hx : InI32 m.pendingX) (hy : InI32 m.pendingY) :
    (m.onPacket device packet).overflowed = false ↔
      m.overflowed = false ∧ InI32 (m.onPacket device packet).pendingX ∧
        InI32 (m.onPacket device packet).pendingY := by
  have hadds := addsMotion_onPacket (m := m) device packet
  have hbefore := sameMotion_setButtons (m := m) device packet
  have hafter := sameMotion_scroll (m := (m.setButtons device packet).addMotion device packet)
    device packet
  have hsame : (m.onPacket device packet).overflowed
      = ((m.setButtons device packet).addMotion device packet).overflowed := hafter.overflowed
  rw [hsame, hadds.pendingX, hadds.pendingY]
  by_cases hmotion : device.xMotion packet ≠ 0 ∨ device.yMotion packet ≠ 0
  · have hadd : (m.setButtons device packet).addMotion device packet = _ := if_pos hmotion
    simp only [hadd, hbefore.overflowed, hbefore.pendingX, hbefore.pendingY,
      Bool.or_eq_false_iff, Bool.not_eq_false', decide_eq_true_eq]
  · obtain ⟨hx0, hy0, hnone⟩ := addMotion_of_zero (m := m.setButtons device packet) hmotion
    rw [hnone, hbefore.overflowed, hx0, hy0, Int.add_zero, Int.add_zero]
    exact (and_iff_left ⟨hx, hy⟩).symm

/-- A sum that was not defined is not so afterwards. -/
theorem overflowed_of_onPacket {packet : Packet}
    (h : (m.onPacket device packet).overflowed = false) : m.overflowed = false := by
  have hbefore := sameMotion_setButtons (m := m) device packet
  have hafter := sameMotion_scroll (m := (m.setButtons device packet).addMotion device packet)
    device packet
  have hsame : (m.onPacket device packet).overflowed
      = ((m.setButtons device packet).addMotion device packet).overflowed := hafter.overflowed
  rw [hsame, Mouse.addMotion] at h
  rw [← hbefore.overflowed]
  split at h
  · exact (Bool.or_eq_false_iff.mp h).1
  · exact h

/-! ## Packets and groups of them -/

theorem onPackets_cons : m.onPackets device (packet :: packets)
    = (m.onPacket device packet.val).onPackets device packets := rfl

theorem Mouse.Tracks.onPackets (h : m.Tracks) (packets : List WellFormed) :
    (m.onPackets device packets).Tracks := by
  induction packets generalizing m with
  | nil => exact h
  | cons packet packets ih => exact ih (h.onPacket packet.val)

variable (device) in
theorem addsMotion_onPackets (packets : List WellFormed) :
    m.AddsMotion (device.xSum packets) (device.ySum packets) (m.onPackets device packets) := by
  induction packets generalizing m with
  | nil => exact ⟨rfl, rfl, (Int.add_zero _).symm, (Int.add_zero _).symm⟩
  | cons packet packets ih =>
    have hfirst := addsMotion_onPacket (m := m) device packet.val
    have hrest := ih (m := m.onPacket device packet.val)
    have hx : device.xSum (packet :: packets) = device.xMotion packet.val + device.xSum packets :=
      List.sum_cons
    have hy : device.ySum (packet :: packets) = device.yMotion packet.val + device.ySum packets :=
      List.sum_cons
    rw [onPackets_cons, hx, hy]
    refine ⟨?_, ?_, ?_, ?_⟩
    · rw [hrest.movedX, hfirst.movedX]
    · rw [hrest.movedY, hfirst.movedY]
    · rw [hrest.pendingX, hfirst.pendingX, Int.add_assoc]
    · rw [hrest.pendingY, hfirst.pendingY, Int.add_assoc]

theorem overflowed_of_onPackets {packets : List WellFormed}
    (h : (m.onPackets device packets).overflowed = false) : m.overflowed = false := by
  induction packets generalizing m with
  | nil => exact h
  | cons packet packets ih => exact overflowed_of_onPacket (ih h)

/-- **The sums of some packets are defined** where each stays in its type. -/
theorem overflowed_onPackets (packets : List WellFormed) (hx : InI32 m.pendingX)
    (hy : InI32 m.pendingY) :
    (m.onPackets device packets).overflowed = false ↔
      m.overflowed = false ∧ ∀ n ≤ packets.length,
        InI32 (m.onPackets device (packets.take n)).pendingX ∧
          InI32 (m.onPackets device (packets.take n)).pendingY := by
  induction packets generalizing m with
  | nil =>
    constructor
    · intro hdefined
      refine ⟨hdefined, fun n _ => ?_⟩
      rw [List.take_nil]
      exact ⟨hx, hy⟩
    · exact fun h => h.1
  | cons packet packets ih =>
    have hfirst := overflowed_onPacket device packet.val hx hy
    rw [onPackets_cons]
    constructor
    · intro hdefined
      have hone := overflowed_of_onPackets hdefined
      obtain ⟨hdefined', hx', hy'⟩ := hfirst.mp hone
      refine ⟨hdefined', fun n hn => ?_⟩
      cases n with
      | zero => exact ⟨hx, hy⟩
      | succ n => exact ((ih hx' hy').mp hdefined).2 n (Nat.le_of_succ_le_succ hn)
    · rintro ⟨hdefined, hrange⟩
      obtain ⟨hx', hy'⟩ := hrange 1 (Nat.succ_le_succ (Nat.zero_le _))
      refine (ih hx' hy').mpr ⟨hfirst.mpr ⟨hdefined, hx', hy'⟩, fun n hn => ?_⟩
      exact hrange (n + 1) (Nat.succ_le_succ hn)

/-! ## The states of the buttons -/

/-- The buttons that a device has are set as they are in the packet. -/
theorem buttonState_setButtons {i : ℕ} (hi : i < device.buttonCount.toNat) (packet : Packet) :
    (m.setButtons device packet).buttonState i = packet.button i := by
  rw [Mouse.setButtons]
  rcases device.buttonCount_eq with hthree | hfive
  · have hcount : device.buttonCount.toNat = 3 := congrArg BitVec.toNat hthree
    rw [if_neg (by omega)]
    simp only [buttonState_setButton]
    have hi' : i = 0 ∨ i = 1 ∨ i = 2 := by omega
    rcases hi' with rfl | rfl | rfl
    · rfl
    · rfl
    · rfl
  · have hcount : device.buttonCount.toNat = 5 := congrArg BitVec.toNat hfive
    rw [if_pos (by omega)]
    simp only [buttonState_setButton]
    have hi' : i = 0 ∨ i = 1 ∨ i = 2 ∨ i = 3 ∨ i = 4 := by omega
    rcases hi' with rfl | rfl | rfl | rfl | rfl
    · rfl
    · rfl
    · rfl
    · rfl
    · rfl

theorem buttonState_addMotion (packet : Packet) :
    (m.addMotion device packet).buttonState = m.buttonState := by
  rw [Mouse.addMotion]
  split
  · rfl
  · rfl

theorem buttonState_scroll (packet : Packet) :
    (m.scroll device packet).buttonState = m.buttonState := by
  rw [Mouse.scroll]
  repeat' split
  all_goals rfl

theorem buttonState_onPacket {i : ℕ} (hi : i < device.buttonCount.toNat) (packet : Packet) :
    (m.onPacket device packet).buttonState i = packet.button i := by
  rw [Mouse.onPacket, buttonState_scroll, buttonState_addMotion, buttonState_setButtons hi]

/-- **The state of a button is that of the last packet.** -/
theorem buttonState_onPackets {i : ℕ} (hi : i < device.buttonCount.toNat)
    (packets : List WellFormed) :
    (m.onPackets device packets).buttonState i
      = (packets.getLast?.map (·.val.button i)).getD (m.buttonState i) := by
  induction packets generalizing m with
  | nil => rfl
  | cons packet packets ih =>
    rw [onPackets_cons, ih, buttonState_onPacket hi, List.getLast?_cons]
    cases packets.getLast? with
    | none => rfl
    | some last => rfl

/-! ## Groups -/

theorem flush_eq (m : Mouse) : m.flush.buttonState = m.buttonState ∧
    m.flush.overflowed = m.overflowed ∧ m.flush.movedX = m.movedX + m.pendingX ∧
    m.flush.movedY = m.movedY + m.pendingY := by
  rw [Mouse.flush]
  by_cases hpending : m.pendingX ≠ 0 ∨ m.pendingY ≠ 0
  · rw [if_pos hpending]
    exact ⟨rfl, rfl, movedX_triggerEvent _, movedY_triggerEvent _⟩
  · obtain ⟨hx, hy⟩ := not_or.mp hpending
    rw [if_neg hpending, not_not.mp hx, not_not.mp hy, Int.add_zero, Int.add_zero]
    exact ⟨rfl, rfl, rfl, rfl⟩

/-- What a group of packets comes to, told of once. -/
structure Mouse.AddsGroup (m : Mouse) (device : Device) (packets : List WellFormed)
    (m' : Mouse) : Prop where
  movedX : m'.movedX = m.movedX + device.xSum packets
  movedY : m'.movedY = m.movedY + device.ySum packets
  buttonState : ∀ i < device.buttonCount.toNat,
    m'.buttonState i = (packets.getLast?.map (·.val.button i)).getD (m.buttonState i)

variable (device) in
theorem addsGroup_onGroup (packets : List WellFormed) :
    m.AddsGroup device packets (m.onGroup device packets) := by
  have hadds := addsMotion_onPackets (m := { m with pendingX := 0, pendingY := 0 })
    device packets
  obtain ⟨hstate, -, hx, hy⟩ :=
    flush_eq (({ m with pendingX := 0, pendingY := 0 } : Mouse).onPackets device packets)
  rw [Mouse.onGroup]
  refine ⟨?_, ?_, fun i hi => ?_⟩
  · rw [hx, hadds.movedX, hadds.pendingX, Int.zero_add]
    rfl
  · rw [hy, hadds.movedY, hadds.pendingY, Int.zero_add]
    rfl
  · rw [hstate, buttonState_onPackets hi]

/-- The sums of a group start from nothing. -/
theorem overflowed_onGroup (packets : List WellFormed) :
    (m.onGroup device packets).overflowed = false ↔
      m.overflowed = false ∧ device.InRange packets := by
  have hpending (n : ℕ) := addsMotion_onPackets (m := { m with pendingX := 0, pendingY := 0 })
    device (packets.take n)
  have hzero : InI32 0 := by decide
  obtain ⟨-, hoverflowed, -, -⟩ :=
    flush_eq (({ m with pendingX := 0, pendingY := 0 } : Mouse).onPackets device packets)
  rw [Mouse.onGroup, hoverflowed, overflowed_onPackets packets hzero hzero]
  simp only [(hpending _).pendingX, (hpending _).pendingY, Int.zero_add]
  rfl

theorem Mouse.Tracks.onGroup (h : m.Tracks) (packets : List WellFormed) :
    (m.onGroup device packets).Tracks := by
  have hstart : ({ m with pendingX := 0, pendingY := 0 } : Mouse).Tracks := h
  exact (hstart.onPackets packets).flush

variable (device) in
/-- **Groups come to what their packets do.** -/
theorem addsGroup_onGroups (groups : List (List WellFormed)) :
    m.AddsGroup device groups.flatten (m.onGroups device groups) := by
  induction groups generalizing m with
  | nil => exact ⟨(Int.add_zero _).symm, (Int.add_zero _).symm, fun _ _ => rfl⟩
  | cons group groups ih =>
    have hfirst := addsGroup_onGroup (m := m) device group
    have hrest := ih (m := m.onGroup device group)
    rw [List.flatten_cons]
    refine ⟨?_, ?_, fun i hi => ?_⟩
    · have hsum : device.xSum (group ++ groups.flatten)
          = device.xSum group + device.xSum groups.flatten := by
        rw [Device.xSum, List.map_append, List.sum_append]
        rfl
      rw [hsum, ← Int.add_assoc, ← hfirst.movedX]
      exact hrest.movedX
    · have hsum : device.ySum (group ++ groups.flatten)
          = device.ySum group + device.ySum groups.flatten := by
        rw [Device.ySum, List.map_append, List.sum_append]
        rfl
      rw [hsum, ← Int.add_assoc, ← hfirst.movedY]
      exact hrest.movedY
    · refine (hrest.buttonState i hi).trans ?_
      rw [hfirst.buttonState i hi, List.getLast?_append]
      cases groups.flatten.getLast? with
      | none => rfl
      | some last => rfl

variable (device) in
theorem overflowed_onGroups (groups : List (List WellFormed)) :
    (m.onGroups device groups).overflowed = false ↔
      m.overflowed = false ∧ ∀ group ∈ groups, device.InRange group := by
  induction groups generalizing m with
  | nil => simp [Mouse.onGroups]
  | cons group groups ih =>
    have hrest := ih (m := m.onGroup device group)
    rw [overflowed_onGroup] at hrest
    rw [List.forall_mem_cons, ← and_assoc]
    exact hrest

theorem Mouse.Tracks.onGroups (h : m.Tracks) (groups : List (List WellFormed)) :
    (m.onGroups device groups).Tracks := by
  induction groups generalizing m with
  | nil => exact h
  | cons group groups ih => exact ih (h.onGroup group)

theorem tracks_started : Mouse.started.Tracks := by
  intro button
  exact ⟨List.isChain_singleton _, rfl⟩

/-! ## The run -/

/-- What is answered of a button is of the first, and of any that is as the
first is. -/
theorem getButtonState_iff (h : m.Tracks) {button : BitVec 8}
    (hbutton : button.toNat < device.buttonCount.toNat) :
    (m.getButtonState device button = true ↔
        (m.buttonEvents button.toNat).getLast? = some true) ↔
      m.buttonState button.toNat = m.buttonState 0 := by
  have hlast := (h button.toNat).2
  rw [List.getLast?_cons, Option.some.injEq] at hlast
  have hiff : (m.buttonEvents button.toNat).getLast? = some true ↔
      m.buttonState button.toNat = true := by
    rw [← hlast]
    cases (m.buttonEvents button.toNat).getLast? with
    | none => simp
    | some pressed => simp
  have hanswer : m.getButtonState device button = m.buttonState 0 := if_neg (by omega)
  rw [hiff, hanswer, ← Bool.eq_iff_iff, eq_comm]

/-- All of the buttons are as the first is where the last packet has them so. -/
theorem alike_iff (m : Mouse) (hstart : ∀ i, m.buttonState i = false)
    (hadds : m.AddsGroup device packets m') :
    (∀ button : BitVec 8, button.toNat < device.buttonCount.toNat →
        m'.buttonState button.toNat = m'.buttonState 0) ↔
      ∀ packet ∈ packets.getLast?, device.Alike packet := by
  have hcount : 0 < device.buttonCount.toNat := by
    rcases device.buttonCount_eq with hthree | hfive
    · rw [hthree]
      decide
    · rw [hfive]
      decide
  have hstate (i : ℕ) (hi : i < device.buttonCount.toNat) := hadds.buttonState i hi
  cases hlast : packets.getLast? with
  | none =>
    simp only [hlast, Option.map_none, Option.getD_none, hstart] at hstate
    refine iff_of_true (fun button hbutton => ?_) (by simp)
    rw [hstate _ hbutton, hstate 0 hcount]
  | some last =>
    simp only [hlast, Option.map_some, Option.getD_some] at hstate
    simp only [Option.mem_def, Option.some.injEq, forall_eq']
    constructor
    · intro halike i hi
      have hlt : i < 2 ^ 8 := Nat.lt_trans hi device.buttonCount.isLt
      have hnat : (BitVec.ofNat 8 i).toNat = i := by
        rw [BitVec.toNat_ofNat, Nat.mod_eq_of_lt hlt]
      have hbutton := halike (BitVec.ofNat 8 i) (by rw [hnat]; exact hi)
      rw [hnat, hstate i hi, hstate 0 hcount] at hbutton
      exact hbutton
    · intro halike button hbutton
      rw [hstate _ hbutton, hstate 0 hcount]
      exact halike _ hbutton

/-- **The mouse's packets are told of where the buttons of the last are
alike**, and each interrupt's motion stays in its type. -/
theorem tells_iff (device : Device) (packets : List WellFormed) (interrupts : List Interrupt)
    (h : interrupts.flatMap device.delivered = device.stream packets) :
    (run (fun (m : Mouse) interrupt => m.onIrq device interrupt) Mouse.started interrupts).Tells
        device packets ↔
      (∀ packet ∈ packets.getLast?, device.Alike packet) ∧
        ∀ group ∈ device.groups packets interrupts, device.InRange group := by
  obtain ⟨rest, hrun⟩ := run_eq_onGroups packets interrupts h
  have htracks : (Mouse.started.onGroups device (device.groups packets interrupts)).Tracks :=
    tracks_started.onGroups _
  have hadds := addsGroup_onGroups (m := .started) device
    (device.groups packets interrupts)
  have hdefined := overflowed_onGroups (m := .started) device
    (device.groups packets interrupts)
  rw [flatten_groups interrupts h] at hadds
  rw [hrun, ← alike_iff .started (fun _ => rfl) hadds]
  constructor
  · intro htells
    refine ⟨fun button hbutton => ?_, (hdefined.mp htells.defined).2⟩
    exact (getButtonState_iff htracks hbutton).mp (htells.state button hbutton)
  · rintro ⟨halike, hrange⟩
    refine ⟨fun button => (htracks button).1, fun button hbutton => ?_, ?_, ?_, ?_⟩
    · exact (getButtonState_iff htracks hbutton).mpr (halike button hbutton)
    · exact hadds.movedX.trans (Int.zero_add _)
    · exact hadds.movedY.trans (Int.zero_add _)
    · exact hdefined.mpr ⟨rfl, hrange⟩

/-! ## One packet -/

/-- A mouse of three buttons without a wheel. -/
def plain : Device where
  irq := 12
  buttonCount := 3
  hasWheel := false
  scale := 1
  buttonCount_eq := Or.inl rfl
  scale_eq := Or.inl rfl

theorem one_all : (Packet.mk 0x0f 5 3 0).one = true := by decide

theorem one_left : (Packet.mk 0x09 5 3 0).one = true := by decide

/-- All three buttons are pressed, and the mouse moves. -/
def all : WellFormed := ⟨⟨0x0f, 5, 3, 0⟩, one_all⟩

/-- The left one alone is. -/
def left : WellFormed := ⟨⟨0x09, 5, 3, 0⟩, one_left⟩

/-- A packet of all three is told of, in two interrupts. -/
theorem tells_all :
    (run (fun (m : Mouse) interrupt => m.onIrq plain interrupt) Mouse.started
      [⟨12, [(0x0f, true)]⟩, ⟨1, [(0x1c, false)]⟩, ⟨12, [(5, true), (3, true)]⟩]).Tells
        plain [all] :=
  (tells_iff plain [all] [⟨12, [(0x0f, true)]⟩, ⟨1, [(0x1c, false)]⟩, ⟨12, [(5, true), (3, true)]⟩]
    (by decide)).mpr ⟨by decide, by decide⟩

/-- With the left button pressed, the right one is said to be too. -/
theorem not_tells_left :
    ([⟨12, [(0x09, true), (5, true), (3, true)]⟩] : List Interrupt).flatMap plain.delivered
        = plain.stream [left] ∧
      ¬(run (fun (m : Mouse) interrupt => m.onIrq plain interrupt) Mouse.started
        [⟨12, [(0x09, true), (5, true), (3, true)]⟩]).Tells plain [left] := by
  refine ⟨by decide, fun htells => ?_⟩
  have hstate := htells.state 1 (by decide)
  revert hstate
  decide

end Ps2Mouse

end Uberos
