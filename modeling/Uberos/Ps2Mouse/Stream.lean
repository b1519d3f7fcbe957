import Uberos.Ps2Mouse.Model
/-!
# The packets of a stream

Between two bytes the driver holds the beginning of one packet and no
more, and nothing else of it depends on that. So an interrupt does what
the packets do that it makes whole, and tells of their motion once;
which packets these are is a matter of how many bytes came before.
-/

namespace Uberos

open Library

namespace Ps2Mouse

/-- A packet as a mouse sends it. -/
abbrev WellFormed := { packet : Packet // packet.one = true }

namespace Device

variable (device : Device)

/-- The bytes of a packet. -/
def bytes (packet : WellFormed) : List (BitVec 8) :=
  [packet.val.head, packet.val.xChange, packet.val.yChange, packet.val.wheelMouse].take
    device.packetLength

/-- The bytes of several, one after another. -/
def stream (packets : List WellFormed) : List (BitVec 8) := packets.flatMap device.bytes

/-- What is read in an interrupt: the mouse's bytes until another's, if it
is the mouse's interrupt. -/
def delivered (interrupt : Interrupt) : List (BitVec 8) :=
  if interrupt.irq = device.irq then (interrupt.data.takeWhile (·.2)).map (·.1) else []

/-- The mouse's interrupts. -/
def own (interrupts : List Interrupt) : List Interrupt :=
  interrupts.filter (·.irq = device.irq)

/-- The packets that are made whole in each of some interrupts, by what is
delivered in it, with `held` bytes of the first there before. -/
def completed : ℕ → List WellFormed → List (List (BitVec 8)) → List (List WellFormed)
  | _, _, [] => []
  | held, packets, bytes :: later =>
    let total := held + bytes.length
    packets.take (total / device.packetLength) ::
      completed (total % device.packetLength) (packets.drop (total / device.packetLength)) later

/-- The packets that the mouse's interrupts make whole. -/
def groups (packets : List WellFormed) (interrupts : List Interrupt) : List (List WellFormed) :=
  device.completed 0 packets ((device.own interrupts).map device.delivered)

end Device

variable {device : Device} {m : Mouse} {packet : WellFormed} {packets : List WellFormed}

/-! ## Beginnings -/

/-- `data` with some bytes in it. -/
def held (bytes : List (BitVec 8)) : Packet :=
  ⟨bytes.getD 0 0, bytes.getD 1 0, bytes.getD 2 0, bytes.getD 3 0⟩

theorem mod_four_lt (n : ℕ) : n % 4 < 4 := Nat.mod_lt n zero_lt_four

namespace Mouse

/-- The driver with the beginning of a packet. -/
def hold (m : Mouse) (bytes : List (BitVec 8)) : Mouse :=
  { m with packet := held bytes, packetBytes := ⟨bytes.length % 4, mod_four_lt _⟩ }

/-- What some packets do, one after another. -/
def onPackets (m : Mouse) (device : Device) (packets : List WellFormed) : Mouse :=
  packets.foldl (fun m packet => m.onPacket device packet.val) m

/-- What an interrupt does that makes them whole. -/
def onGroup (m : Mouse) (device : Device) (packets : List WellFormed) : Mouse :=
  ({ m with pendingX := 0, pendingY := 0 }.onPackets device packets).flush

end Mouse

/-- A byte goes behind those that there are. -/
theorem set_hold (bytes : List (BitVec 8)) (h : bytes.length < 4) (byte : BitVec 8) :
    (m.hold bytes).packet.set (m.hold bytes).packetBytes byte = held (bytes ++ [byte]) := by
  match bytes with
  | [] => rfl
  | [_] => rfl
  | [_, _] => rfl
  | [_, _, _] => rfl
  | _ :: _ :: _ :: _ :: _ => exact absurd h (by simp)

variable (device packet) in
theorem length_bytes : (device.bytes packet).length = device.packetLength := by
  have hlength := device.packetLength_eq
  rw [Device.bytes, List.length_take]
  simp only [List.length_cons, List.length_nil]
  omega

theorem packetLength_pos : 0 < device.packetLength := by
  have hlength := device.packetLength_eq
  omega

/-- A packet begins with the byte that says so. -/
theorem one_held {front later : List (BitVec 8)} (hne : front ≠ [])
    (h : front ++ later = device.bytes packet) : (held front).one = true := by
  cases front with
  | nil => exact absurd rfl hne
  | cons byte front =>
    have hhead := congrArg (fun bytes => bytes.getD 0 0) h
    have hpos : 0 < device.packetLength := packetLength_pos
    have hbyte : byte = packet.val.head := by
      rw [Device.bytes] at hhead
      rcases device.packetLength_eq with hthree | hfour
      · rw [hthree] at hhead
        exact hhead
      · rw [hfour] at hhead
        exact hhead
    have hone := packet.property
    rw [Packet.one] at hone ⊢
    rw [held, ← hone]
    exact congrArg (fun head => BitVec.getLsbD head 3) hbyte

/-- What is done does not depend on a fourth byte that is not sent. -/
theorem onPacket_bytes : m.onPacket device (held (device.bytes packet))
    = m.onPacket device packet.val := by
  rcases device.packetLength_eq with hthree | hfour
  · have hmode : ¬(device.hasWheel ∨ 3 < device.buttonCount.toNat) := by
      intro hmode
      rw [Device.packetLength, if_pos hmode] at hthree
      exact absurd hthree (by decide)
    obtain ⟨hwheel, hcount⟩ := not_or.mp hmode
    have hbytes : held (device.bytes packet) = { packet.val with wheelMouse := 0 } := by
      rw [Device.bytes, hthree]
      rfl
    rw [hbytes, Mouse.onPacket, Mouse.onPacket, Mouse.scroll, Mouse.scroll, if_neg hwheel,
      if_neg hwheel, Mouse.setButtons, Mouse.setButtons]
    simp only [if_neg hcount]
    rfl
  · have hbytes : held (device.bytes packet) = packet.val := by
      rw [Device.bytes, hfour]
      rfl
    rw [hbytes]

/-! ## What is held does not matter -/

section

variable {front : List (BitVec 8)}

theorem setButton_hold (button : ℕ) (state : Bool) :
    (m.hold front).setButton button state = (m.setButton button state).hold front := by
  rw [Mouse.setButton, Mouse.setButton]
  by_cases hne : m.buttonState button ≠ state
  · rw [if_pos hne]
    exact if_pos hne
  · rw [if_neg hne]
    exact if_neg hne

theorem setButtons_hold (packet : Packet) : (m.hold front).setButtons device packet
    = (m.setButtons device packet).hold front := by
  rw [Mouse.setButtons, Mouse.setButtons]
  simp only [setButton_hold]
  split
  · rfl
  · rfl

theorem addMotion_hold (packet : Packet) : (m.hold front).addMotion device packet
    = (m.addMotion device packet).hold front := by
  rw [Mouse.addMotion, Mouse.addMotion]
  split
  · rfl
  · rfl

theorem scroll_hold (packet : Packet) : (m.hold front).scroll device packet
    = (m.scroll device packet).hold front := by
  rw [Mouse.scroll, Mouse.scroll]
  repeat' split
  all_goals rfl

theorem onPacket_hold (packet : Packet) : (m.hold front).onPacket device packet
    = (m.onPacket device packet).hold front := by
  rw [Mouse.onPacket, Mouse.onPacket, setButtons_hold, addMotion_hold, scroll_hold]

theorem flush_hold : (m.hold front).flush = m.flush.hold front := by
  rw [Mouse.flush, Mouse.flush]
  by_cases hpending : m.pendingX ≠ 0 ∨ m.pendingY ≠ 0
  · rw [if_pos hpending]
    exact if_pos hpending
  · rw [if_neg hpending]
    exact if_neg hpending

end

/-! ## A byte -/

/-- What a byte does that is in sync. -/
theorem onByte_eq {byte : BitVec 8} (hone : (m.packet.set m.packetBytes byte).one = true) :
    m.onByte device byte =
      if h : m.packetBytes.val + 1 < device.packetLength then
        { m with
          packet := m.packet.set m.packetBytes byte
          packetBytes := ⟨m.packetBytes.val + 1, device.lt_four h⟩ }
      else (m.onPacket device (m.packet.set m.packetBytes byte)).hold [] :=
  if_neg fun h => h.2 hone

/-- **A byte that leaves a packet in part is kept.** -/
theorem onByte_hold {front later : List (BitVec 8)} {byte : BitVec 8}
    (h : front ++ [byte] ++ later = device.bytes packet)
    (hpart : (front ++ [byte]).length < device.packetLength) :
    (m.hold front).onByte device byte = m.hold (front ++ [byte]) := by
  have hlength : (front ++ [byte]).length = front.length + 1 := List.length_append
  have hfour := device.lt_four hpart
  have hset := set_hold (m := m) front (by omega) byte
  have hbytes : (m.hold front).packetBytes.val = front.length := Nat.mod_eq_of_lt (by omega)
  have hone : (held (front ++ [byte])).one = true := one_held (by simp) h
  rw [onByte_eq (by rw [hset, hone]), dif_pos (by omega), hset]
  have hnext : (m.hold front).packetBytes.val + 1 = (front ++ [byte]).length % 4 := by
    rw [Nat.mod_eq_of_lt hfour]
    omega
  simp only [hnext]
  rfl

/-- **The byte that makes a packet whole has it taken.** -/
theorem onByte_last {front : List (BitVec 8)} {byte : BitVec 8}
    (h : front ++ [byte] = device.bytes packet) :
    (m.hold front).onByte device byte = (m.onPacket device packet.val).hold [] := by
  have hlength : front.length + 1 = device.packetLength := by
    rw [← length_bytes device packet, ← h, List.length_append]
    rfl
  have hfour := device.packetLength_eq
  have hset := set_hold (m := m) front (by omega) byte
  have hbytes : (m.hold front).packetBytes.val = front.length := Nat.mod_eq_of_lt (by omega)
  have hwhole : front ++ [byte] ++ [] = device.bytes packet := by rw [List.append_nil, h]
  have hone : (held (front ++ [byte])).one = true := one_held (by simp) hwhole
  rw [onByte_eq (by rw [hset, hone]), dif_neg (by omega), hset, h, onPacket_hold, onPacket_bytes]
  rfl

/-! ## Bytes -/

/-- What some bytes do, one after another. -/
def onBytes (device : Device) (m : Mouse) (bytes : List (BitVec 8)) : Mouse :=
  run (fun m byte => m.onByte device byte) m bytes

/-- Bytes that leave a packet in part are kept. -/
theorem onBytes_hold {front bytes later : List (BitVec 8)}
    (h : front ++ bytes ++ later = device.bytes packet)
    (hpart : (front ++ bytes).length < device.packetLength) :
    onBytes device (m.hold front) bytes = m.hold (front ++ bytes) := by
  induction bytes generalizing front with
  | nil => simp only [onBytes, run_nil, List.append_nil]
  | cons byte bytes ih =>
    have hsplit : front ++ byte :: bytes = front ++ [byte] ++ bytes := by
      rw [List.append_assoc, List.singleton_append]
    have hshort : (front ++ [byte]).length < device.packetLength := by
      rw [hsplit, List.length_append] at hpart
      omega
    have hfirst : front ++ [byte] ++ (bytes ++ later) = device.bytes packet := by
      rw [← List.append_assoc, ← hsplit, h]
    have hrest := ih (by rw [← hsplit, h]) (by rwa [← hsplit])
    rw [onBytes, run_cons, onByte_hold hfirst hshort, hsplit]
    exact hrest

/-- **The rest of a packet makes it whole.** -/
theorem onBytes_whole {front bytes : List (BitVec 8)} (hne : bytes ≠ [])
    (h : front ++ bytes = device.bytes packet) :
    onBytes device (m.hold front) bytes = (m.onPacket device packet.val).hold [] := by
  obtain ⟨init, byte, rfl⟩ := (List.eq_nil_or_concat' bytes).resolve_left hne
  have hsplit : front ++ (init ++ [byte]) = front ++ init ++ [byte] :=
    (List.append_assoc _ _ _).symm
  have hlength : (front ++ init ++ [byte]).length = (front ++ init).length + 1 :=
    List.length_append
  rw [hsplit] at h
  have hpart : (front ++ init).length < device.packetLength := by
    rw [← length_bytes device packet, ← h]
    omega
  have hinit := onBytes_hold (m := m) h hpart
  rw [onBytes] at hinit
  rw [onBytes, run_append, hinit, run_cons, run_nil]
  exact onByte_last h

/-! ## Interrupts -/

/-- The loop reads what is delivered. -/
theorem readBytes_eq (data : List (BitVec 8 × Bool)) :
    m.readBytes device data = onBytes device m ((data.takeWhile (·.2)).map (·.1)) := by
  induction data generalizing m with
  | nil => rfl
  | cons item data ih =>
    obtain ⟨byte, mouseByte⟩ := item
    cases mouseByte with
    | false => rfl
    | true => exact ih

theorem stream_cons : device.stream (packet :: packets)
    = device.bytes packet ++ device.stream packets := List.flatMap_cons

/-- Packets that are left out are whole numbers of bytes. -/
theorem drop_stream (n : ℕ) : (device.stream packets).drop (n * device.packetLength)
    = device.stream (packets.drop n) := by
  induction n generalizing packets with
  | zero => rw [Nat.zero_mul, List.drop_zero, List.drop_zero]
  | succ n ih =>
    cases packets with
    | nil => rw [List.drop_nil, Device.stream, List.flatMap_nil, List.drop_nil]
    | cons packet packets =>
      have hlength := length_bytes device packet
      have hdrop : (n + 1) * device.packetLength - (device.bytes packet).length
          = n * device.packetLength := by
        rw [hlength, Nat.succ_mul, Nat.add_sub_cancel]
      have hnone : (device.bytes packet).drop ((n + 1) * device.packetLength) = [] := by
        refine List.drop_eq_nil_of_le ?_
        rw [hlength, Nat.succ_mul]
        exact Nat.le_add_left _ _
      rw [stream_cons, List.drop_append, hnone, hdrop, ih, List.nil_append, List.drop_succ_cons]

/-- **The bytes that come make whole the packets that they fill**, with
those that are there before; the rest is the beginning of the next. -/
theorem onBytes_packets {front bytes later : List (BitVec 8)}
    (hpart : front.length < device.packetLength)
    (h : front ++ bytes ++ later = device.stream packets) :
    onBytes device (m.hold front) bytes
      = (m.onPackets device (packets.take ((front ++ bytes).length / device.packetLength))).hold
        ((front ++ bytes).drop
          ((front ++ bytes).length / device.packetLength * device.packetLength)) := by
  induction packets generalizing m front bytes with
  | nil =>
    have hnil : front ++ bytes ++ later = [] := h
    simp only [List.append_eq_nil_iff] at hnil
    obtain ⟨⟨rfl, rfl⟩, rfl⟩ := hnil
    rw [List.take_nil, List.append_nil, List.drop_nil]
    rfl
  | cons packet packets ih =>
    have hlength := length_bytes device packet
    have hwhole : device.bytes packet <+: front ++ bytes ++ later :=
      ⟨device.stream packets, by rw [h, stream_cons]⟩
    by_cases hshort : (front ++ bytes).length < device.packetLength
    · have hprefix : front ++ bytes <+: device.bytes packet :=
        List.prefix_of_prefix_length_le (List.prefix_append _ later) hwhole (by omega)
      obtain ⟨rest, hrest⟩ := hprefix
      rw [onBytes_hold hrest hshort, Nat.div_eq_of_lt hshort, Nat.zero_mul, List.take_zero,
        List.drop_zero]
      rfl
    · -- the first packet is made whole, and what is left of the bytes is of those behind it
      have hfront : front <+: device.bytes packet :=
        List.prefix_of_prefix_length_le ⟨bytes ++ later, (List.append_assoc _ _ _).symm⟩ hwhole
          (by omega)
      obtain ⟨middle, hmiddle⟩ := hfront
      have hbytes : device.bytes packet <+: front ++ bytes :=
        List.prefix_of_prefix_length_le hwhole (List.prefix_append _ later) (by omega)
      rw [← hmiddle, List.prefix_append_right_inj] at hbytes
      obtain ⟨rest, rfl⟩ := hbytes
      have hne : middle ≠ [] := by
        rintro rfl
        rw [List.append_nil] at hmiddle
        rw [hmiddle] at hpart
        omega
      have hjoin : front ++ (middle ++ rest) = device.bytes packet ++ rest := by
        rw [← List.append_assoc, hmiddle]
      have hlater : [] ++ rest ++ later = device.stream packets := by
        rw [hjoin, stream_cons, List.append_assoc, List.append_cancel_left_eq] at h
        exact h
      have hcount : (device.bytes packet ++ rest).length / device.packetLength
          = ([] ++ rest).length / device.packetLength + 1 := by
        rw [List.length_append, hlength, List.nil_append, Nat.add_comm,
          Nat.add_div_right _ packetLength_pos]
      have hdrop : (device.bytes packet ++ rest).drop
            ((([] ++ rest).length / device.packetLength + 1) * device.packetLength)
          = ([] ++ rest).drop (([] ++ rest).length / device.packetLength * device.packetLength) := by
        rw [Nat.succ_mul, Nat.add_comm, ← hlength, ← List.drop_drop, List.drop_left]
        rfl
      have hfirst : onBytes device (m.hold front) (middle ++ rest)
          = onBytes device ((m.onPacket device packet.val).hold []) rest := by
        have hmiddle' := onBytes_whole (m := m) hne hmiddle
        rw [onBytes] at hmiddle' ⊢
        rw [run_append, hmiddle']
        rfl
      rw [hfirst, hjoin, hcount, hdrop, List.take_succ_cons]
      exact ih packetLength_pos hlater

/-! ## Interrupts one after another -/

/-- An interrupt does what the packets do that it makes whole. -/
theorem onIrq_hold {front later : List (BitVec 8)} {interrupt : Interrupt}
    (hirq : interrupt.irq = device.irq) (hpart : front.length < device.packetLength)
    (h : front ++ device.delivered interrupt ++ later = device.stream packets) :
    (m.hold front).onIrq device interrupt
      = (m.onGroup device (packets.take
          ((front ++ device.delivered interrupt).length / device.packetLength))).hold
        ((front ++ device.delivered interrupt).drop
          ((front ++ device.delivered interrupt).length / device.packetLength
            * device.packetLength)) := by
  have hbytes : device.delivered interrupt = (interrupt.data.takeWhile (·.2)).map (·.1) :=
    if_pos hirq
  have hpackets := onBytes_packets (m := { m with pendingX := 0, pendingY := 0 }) hpart h
  rw [Mouse.onIrq, if_neg (not_not_intro hirq), readBytes_eq, ← hbytes, Mouse.onGroup, ← flush_hold,
    ← hpackets]
  rfl

/-- Another's interrupt is nothing to the mouse. -/
theorem run_own (interrupts : List Interrupt) :
    run (fun m interrupt => m.onIrq device interrupt) m interrupts
      = run (fun m interrupt => m.onIrq device interrupt) m (device.own interrupts) := by
  induction interrupts generalizing m with
  | nil => rfl
  | cons interrupt interrupts ih =>
    by_cases hirq : interrupt.irq = device.irq
    · have hown : device.own (interrupt :: interrupts) = interrupt :: device.own interrupts :=
        List.filter_cons_of_pos (decide_eq_true hirq)
      rw [hown, run_cons, run_cons, ih]
    · have hown : device.own (interrupt :: interrupts) = device.own interrupts :=
        List.filter_cons_of_neg (by simpa using hirq)
      rw [hown, run_cons, Mouse.onIrq, if_pos hirq, ih]

/-- Nor is anything delivered in it. -/
theorem delivered_own (interrupts : List Interrupt) :
    (device.own interrupts).flatMap device.delivered = interrupts.flatMap device.delivered := by
  induction interrupts with
  | nil => rfl
  | cons interrupt interrupts ih =>
    by_cases hirq : interrupt.irq = device.irq
    · have hown : device.own (interrupt :: interrupts) = interrupt :: device.own interrupts :=
        List.filter_cons_of_pos (decide_eq_true hirq)
      rw [hown, List.flatMap_cons, List.flatMap_cons, ih]
    · have hown : device.own (interrupt :: interrupts) = device.own interrupts :=
        List.filter_cons_of_neg (by simpa using hirq)
      rw [hown, ih, List.flatMap_cons, Device.delivered, if_neg hirq, List.nil_append]

/-- What some interrupts do that make groups of packets whole. -/
def Mouse.onGroups (m : Mouse) (device : Device) (groups : List (List WellFormed)) : Mouse :=
  run (fun m group => m.onGroup device group) m groups

/-- The mouse's interrupts do what the packets do that each makes whole. -/
theorem run_completed (front : List (BitVec 8)) (interrupts : List Interrupt)
    (hown : ∀ interrupt ∈ interrupts, interrupt.irq = device.irq)
    (hpart : front.length < device.packetLength)
    (h : front ++ interrupts.flatMap device.delivered = device.stream packets) :
    ∃ rest, run (fun m interrupt => m.onIrq device interrupt) (m.hold front) interrupts
      = (m.onGroups device
          (device.completed front.length packets (interrupts.map device.delivered))).hold rest := by
  induction interrupts generalizing m front packets with
  | nil => exact ⟨front, rfl⟩
  | cons interrupt interrupts ih =>
    rw [List.flatMap_cons, ← List.append_assoc] at h
    have hlength : (front ++ device.delivered interrupt).length
        = front.length + (device.delivered interrupt).length := List.length_append
    have hfirst := onIrq_hold (m := m) (hown interrupt List.mem_cons_self) hpart h
    have hle := Nat.div_mul_le_self (front ++ device.delivered interrupt).length
      device.packetLength
    have hrest : ((front ++ device.delivered interrupt).drop
          ((front ++ device.delivered interrupt).length / device.packetLength
            * device.packetLength)).length
        = (front ++ device.delivered interrupt).length % device.packetLength := by
      rw [List.length_drop, Nat.mod_eq_sub_div_mul]
    have hdrop := congrArg (List.drop ((front ++ device.delivered interrupt).length
      / device.packetLength * device.packetLength)) h
    rw [List.drop_append_of_le_length hle, drop_stream] at hdrop
    have hlater := ih _ (fun other hother => hown other (List.mem_cons_of_mem _ hother))
      (m := m.onGroup device (packets.take
        ((front ++ device.delivered interrupt).length / device.packetLength)))
      (by rw [hrest]; exact Nat.mod_lt _ packetLength_pos) hdrop
    rw [hrest, hlength] at hlater
    rw [run_cons, hfirst, hlength]
    exact hlater

/-- **The interrupts do what the packets do**, in the groups that they
make whole, however the bytes are delivered. -/
theorem run_eq_onGroups (packets : List WellFormed) (interrupts : List Interrupt)
    (h : interrupts.flatMap device.delivered = device.stream packets) :
    ∃ rest, run (fun m interrupt => m.onIrq device interrupt) .started interrupts
      = (Mouse.started.onGroups device (device.groups packets interrupts)).hold rest := by
  rw [run_own]
  refine run_completed (m := .started) [] (device.own interrupts) ?_ packetLength_pos ?_
  · intro interrupt hmem
    exact of_decide_eq_true (List.mem_filter.mp hmem).2
  · rw [List.nil_append, delivered_own, h]

theorem length_stream : (device.stream packets).length = packets.length * device.packetLength := by
  induction packets with
  | nil => rw [List.length_nil, Nat.zero_mul]; rfl
  | cons packet packets ih =>
    rw [stream_cons, List.length_append, ih, length_bytes, List.length_cons, Nat.succ_mul,
      Nat.add_comm]

/-- Bytes that are those of the packets complete them all. -/
theorem flatten_completed {count : ℕ} (deliveries : List (List (BitVec 8)))
    (hpart : count < device.packetLength)
    (h : count + deliveries.flatten.length = packets.length * device.packetLength) :
    (device.completed count packets deliveries).flatten = packets := by
  induction deliveries generalizing count packets with
  | nil =>
    rw [List.flatten_nil, List.length_nil, Nat.add_zero] at h
    have hnone : packets.length = 0 := by
      refine Nat.eq_zero_of_not_pos fun hpos => ?_
      have hle := Nat.mul_le_mul_right device.packetLength hpos
      omega
    rw [List.length_eq_zero_iff.mp hnone]
    rfl
  | cons bytes deliveries ih =>
    rw [List.flatten_cons, List.length_append] at h
    have htotal := Nat.div_add_mod' (count + bytes.length) device.packetLength
    have hrest : (count + bytes.length) % device.packetLength + deliveries.flatten.length
        = (packets.drop ((count + bytes.length) / device.packetLength)).length
          * device.packetLength := by
      rw [List.length_drop, Nat.sub_mul]
      omega
    rw [Device.completed, List.flatten_cons, ih (Nat.mod_lt _ packetLength_pos) hrest,
      List.take_append_drop]

/-- **The groups are the packets**, cut where the interrupts are. -/
theorem flatten_groups (interrupts : List Interrupt)
    (h : interrupts.flatMap device.delivered = device.stream packets) :
    (device.groups packets interrupts).flatten = packets := by
  refine flatten_completed _ packetLength_pos ?_
  have hbytes : ((device.own interrupts).map device.delivered).flatten = device.stream packets := by
    rw [← List.flatMap_def, delivered_own, h]
  rw [hbytes, length_stream, Nat.zero_add]

end Ps2Mouse

end Uberos
