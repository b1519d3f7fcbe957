import Uberos.Pci.Bars
/-!
# The sizing of a function

The loop over the bars of a function, of registers that decode something
and of any. It leaves them as they were; what it records is what they
decode as far as each decoder is sized, and it keeps to the six bars but
for a pair that begins at the last.
-/

namespace Uberos

open Library

namespace Pci

variable {config config' : ConfigSpace} {location : Location} {device : PciDevice} {i passes : ℕ}
variable {decoder : Decoder} {layout : List Decoder}

/-! ## What it is for -/

/-- **The registers of a function decode a layout**, each what is legal. -/
def ConfigSpace.Decodes (config : ConfigSpace) (location : Location) (layout : List Decoder) : Prop :=
  (∀ decoder ∈ layout, decoder.Legal) ∧
    (List.range 6).map (fun i => config location (ConfigSpace.bar0 + i * 4))
      = layout.flatMap Decoder.registers

/-- A register that says that it is the first of a pair. -/
def IsPair (value : BitVec 32) : Prop :=
  value &&& 0b1 = 0 ∧ ((value &&& 0b110) >>> 1).toNat = 0b10

instance (value : BitVec 32) : Decidable (IsPair value) := inferInstanceAs (Decidable (_ ∧ _))

/-- From an index on, a pair begins at the last register. -/
def PairAtLast (value : ℕ → BitVec 32) : ℕ → ℕ → Prop
  | 0, _ => False
  | passes + 1, i =>
    if i < 6 then
      if IsPair (value i) then i = 5 ∨ PairAtLast value passes (i + 2)
      else PairAtLast value passes (i + 1)
    else False

instance PairAtLast.decidable (value : ℕ → BitVec 32) :
    ∀ passes i, Decidable (PairAtLast value passes i)
  | 0, _ => inferInstanceAs (Decidable False)
  | passes + 1, i =>
    have := PairAtLast.decidable value passes (i + 2)
    have := PairAtLast.decidable value passes (i + 1)
    inferInstanceAs (Decidable (if i < 6 then if IsPair (value i) then _ else _ else False))

/-- **A function is sized**: no bar past the six is used, the registers are
left as they were, and the bars are those of whatever is decoded. -/
structure Sizes (config config' : ConfigSpace) (device : PciDevice) : Prop where
  within : ∀ i ∈ device.touched, i < 6
  restored : config.Same config'
  recorded : ∀ layout, config.Decodes device.location layout →
    (List.range 6).map (fun i => (device.bar i).numbers) = layout.flatMap Decoder.expected

/-- **What can be sized**: no pair begins at the last register, and what is
decoded is sized. -/
def Sizable (config : ConfigSpace) (location : Location) : Prop :=
  ¬PairAtLast (config.readBar location) 6 0 ∧
    ∀ layout, config.Decodes location layout → ∀ decoder ∈ layout, decoder.Sized

/-! ## A turn of the loop -/

theorem scanBar_io (h : (config.disable device.location).readBar device.location i &&& 0b1 ≠ 0) :
    scanBar config device i =
      (((config.disable device.location).sizeIo device.location i (device.bar i)
          ((config.disable device.location).readBar device.location i)).1,
        device.setBar i ((config.disable device.location).sizeIo device.location i (device.bar i)
          ((config.disable device.location).readBar device.location i)).2, i) :=
  if_pos h

theorem scanBar_memory
    (h : (config.disable device.location).readBar device.location i &&& 0b1 = 0)
    (hsize : ((config.disable device.location).sizeMemory device.location i
      ((config.disable device.location).readBar device.location i)).2.size ≠ ._64bit) :
    scanBar config device i =
      (((config.disable device.location).sizeMemory device.location i
          ((config.disable device.location).readBar device.location i)).1,
        device.setBar i ((config.disable device.location).sizeMemory device.location i
          ((config.disable device.location).readBar device.location i)).2, i) :=
  (if_neg (not_not_intro h)).trans (if_neg hsize)

theorem scanBar_pair
    (h : (config.disable device.location).readBar device.location i &&& 0b1 = 0)
    (hsize : ((config.disable device.location).sizeMemory device.location i
      ((config.disable device.location).readBar device.location i)).2.size = ._64bit) :
    scanBar config device i =
      (((config.disable device.location).sizeMemory device.location i
          ((config.disable device.location).readBar device.location i)).1,
        (device.setBar i ((config.disable device.location).sizeMemory device.location i
          ((config.disable device.location).readBar device.location i)).2).setBar (i + 1)
            { Bar.zero with size := ((config.disable device.location).sizeMemory device.location i
              ((config.disable device.location).readBar device.location i)).2.size }, i + 1) :=
  (if_neg (not_not_intro h)).trans (if_pos hsize)

/-- Only the one type is of 64 bits. -/
theorem size_eq_iff (address : BitVec 32) :
    (config.sizeMemory location i address).2.size = ._64bit ↔
      ((address &&& 0b110) >>> 1).toNat = 0b10 := by
  rw [ConfigSpace.sizeMemory]
  split
  · next heq => exact iff_of_true rfl heq
  · next heq => exact iff_of_false (fun h => BarSize.noConfusion h) (by omega)
  · next hne _ => exact iff_of_false (fun h => BarSize.noConfusion h) hne

variable (config device i) in
/-- **A turn of the loop uses a bar**, or the two of a pair. -/
theorem scanBar_touched : (scanBar config device i).2.1.touched
      = device.touched ++ (if IsPair (config.readBar device.location i) then [i, i + 1] else [i]) ∧
    (scanBar config device i).2.2
      = if IsPair (config.readBar device.location i) then i + 1 else i := by
  have hsame : config.Same (config.disable device.location) := ConfigSpace.same_disable
  rw [← hsame.readBar]
  by_cases hio : (config.disable device.location).readBar device.location i &&& 0b1 = 0
  · by_cases hsize : ((config.disable device.location).sizeMemory device.location i
        ((config.disable device.location).readBar device.location i)).2.size = ._64bit
    · have hpair : IsPair ((config.disable device.location).readBar device.location i) :=
        ⟨hio, (size_eq_iff _).mp hsize⟩
      rw [scanBar_pair hio hsize, if_pos hpair, if_pos hpair]
      exact ⟨List.append_assoc _ _ _, rfl⟩
    · have hpair : ¬IsPair ((config.disable device.location).readBar device.location i) :=
        fun hpair => hsize ((size_eq_iff _).mpr hpair.2)
      rw [scanBar_memory hio hsize, if_neg hpair, if_neg hpair]
      exact ⟨rfl, rfl⟩
  · have hpair : ¬IsPair ((config.disable device.location).readBar device.location i) :=
      fun hpair => hio hpair.1
    rw [scanBar_io hio, if_neg hpair, if_neg hpair]
    exact ⟨rfl, rfl⟩

/-- The registers of the bars are the same after a turn. -/
theorem scanBar_same : config.Same (scanBar config device i).1 := by
  rw [scanBar_config]
  exact ConfigSpace.same_disable

theorem pairAtLast_congr {value value' : ℕ → BitVec 32} (h : ∀ j, value j = value' j) :
    PairAtLast value passes i ↔ PairAtLast value' passes i := by
  rw [funext h]

variable (passes config device i) in
/-- **The bars that are used are the six** unless a pair begins at the last. -/
theorem scanBars_touched :
    (∀ j ∈ (scanBars passes config device i).2.touched, j < 6) ↔
      (∀ j ∈ device.touched, j < 6) ∧ ¬PairAtLast (config.readBar device.location) passes i := by
  induction passes generalizing config device i with
  | zero => exact (and_iff_left id).symm
  | succ passes ih =>
    rw [scanBars, PairAtLast]
    by_cases hi : i < 6
    · obtain ⟨htouched, hindex⟩ := scanBar_touched config device i
      have hlocation := scanBar_location config device i
      have hvalue (j : ℕ) : (scanBar config device i).1.readBar
            (scanBar config device i).2.1.location j = config.readBar device.location j := by
        rw [hlocation]
        exact scanBar_same.readBar
      rw [if_pos hi, if_pos hi, ih, pairAtLast_congr hvalue, htouched, hindex]
      by_cases hpair : IsPair (config.readBar device.location i)
      · simp only [if_pos hpair, List.forall_mem_append, List.forall_mem_cons, List.not_mem_nil,
          false_implies, implies_true, and_true, not_or]
        constructor
        · rintro ⟨⟨hbefore, -, hnext⟩, hlater⟩
          exact ⟨hbefore, by omega, hlater⟩
        · rintro ⟨hbefore, hlast, hlater⟩
          exact ⟨⟨hbefore, hi, by omega⟩, hlater⟩
      · simp only [if_neg hpair, List.forall_mem_append, List.forall_mem_cons, List.not_mem_nil,
          false_implies, implies_true, and_true, hi]
    · rw [if_neg hi, if_neg hi]
      exact (and_iff_left id).symm

/-! ## What the loop records -/

/-- **A stretch of bars is recorded** and those before it are as they were. -/
structure Records (device device' : PciDevice) (i next : ℕ) (numbers : List (ℕ × ℕ × ℕ × ℕ)) :
    Prop where
  next_eq : next = i + numbers.length
  kept : ∀ j < i, device'.bar j = device.bar j
  recorded : (List.range' i numbers.length).map (fun j => (device'.bar j).numbers) = numbers

theorem setBar_self (bar : Bar) : (device.setBar i bar).bar i = bar :=
  Function.update_self ..

theorem setBar_of_ne {j : ℕ} (bar : Bar) (hne : j ≠ i) :
    (device.setBar i bar).bar j = device.bar j :=
  Function.update_of_ne hne ..

theorem Records.refl : Records device device i i [] := ⟨rfl, fun _ _ => rfl, rfl⟩

/-- One bar is recorded, -/
theorem records_setBar (bar : Bar) :
    Records device (device.setBar i bar) i (i + 1) [bar.numbers] := by
  refine ⟨rfl, fun j hj => setBar_of_ne bar (by omega), ?_⟩
  simp only [List.length_cons, List.length_nil, Nat.zero_add, List.range'_one, List.map_cons,
    List.map_nil, setBar_self]

/-- and two of them. -/
theorem records_pair (bar bar' : Bar) :
    Records device ((device.setBar i bar).setBar (i + 1) bar') i (i + 2)
      [bar.numbers, bar'.numbers] := by
  have hne : i ≠ i + 1 := by omega
  refine ⟨rfl, fun j hj => ?_, ?_⟩
  · rw [setBar_of_ne bar' (by omega), setBar_of_ne bar (by omega)]
  · simp only [List.length_cons, List.length_nil, Nat.zero_add, Nat.reduceAdd, List.range'_succ,
      List.range'_zero, List.map_cons, List.map_nil, setBar_self, setBar_of_ne bar' hne]

/-- A stretch follows another. -/
theorem Records.trans {device' device'' : PciDevice} {next next' : ℕ}
    {numbers numbers' : List (ℕ × ℕ × ℕ × ℕ)} (h : Records device device' i next numbers)
    (h' : Records device' device'' next next' numbers') :
    Records device device'' i next' (numbers ++ numbers') := by
  obtain ⟨rfl, hkept, hrecorded⟩ := h
  obtain ⟨rfl, hkept', hrecorded'⟩ := h'
  refine ⟨?_, fun j hj => ?_, ?_⟩
  · rw [List.length_append, Nat.add_assoc]
  · exact (hkept' j (by omega)).trans (hkept j hj)
  · have hfirst : (List.range' i numbers.length).map (fun j => (device''.bar j).numbers)
        = numbers := by
      refine Eq.trans (List.map_congr_left fun j hj => ?_) hrecorded
      have hlt := (List.mem_range'_1.mp hj).2
      rw [hkept' j hlt]
    rw [List.length_append, ← List.range'_append_1, List.map_append, hfirst, hrecorded']

theorem length_written (decoder : Decoder) :
    decoder.written.length = decoder.registers.length := by
  cases decoder <;> simp only [Decoder.written, Decoder.registers, List.length_cons, List.length_nil]

theorem length_expected (decoder : Decoder) :
    decoder.expected.length = decoder.written.length := by
  cases decoder <;> simp only [Decoder.written, Decoder.expected, List.length_cons, List.length_nil]

/-- A turn of the loop of what is not a pair. -/
theorem records_memory {numbers : ℕ × ℕ × ℕ × ℕ}
    (h : (config.disable device.location).readBar device.location i &&& 0b1 = 0)
    (hnumbers : ((config.disable device.location).sizeMemory device.location i
      ((config.disable device.location).readBar device.location i)).2.numbers = numbers)
    (hsize : ((config.disable device.location).sizeMemory device.location i
      ((config.disable device.location).readBar device.location i)).2.size ≠ ._64bit) :
    Records device (scanBar config device i).2.1 i ((scanBar config device i).2.2 + 1)
      [numbers] := by
  rw [scanBar_memory h hsize, ← hnumbers]
  exact records_setBar _

/-- **A turn of the loop records a decoder** that its registers are of. -/
theorem scanBar_records (hlegal : decoder.Legal)
    (hregisters : (List.range' i decoder.registers.length).map
      (fun j => config device.location (ConfigSpace.bar0 + j * 4)) = decoder.registers) :
    Records device (scanBar config device i).2.1 i ((scanBar config device i).2.2 + 1)
      decoder.written := by
  have hsame (j : ℕ) : config.disable device.location device.location (ConfigSpace.bar0 + j * 4)
      = config device.location (ConfigSpace.bar0 + j * 4) := by
    refine ConfigSpace.same_disable device.location _ ?_
    rw [ConfigSpace.bar0, ConfigSpace.command]
    omega
  simp only [← hsame] at hregisters
  -- memory's registers have no bit of an io port
  have hmemory {type : BitVec 32} {bits exponent block : ℕ} (hfits : Fits 4 bits exponent block)
      (htype : type &&& 0b1 = 0#32)
      (hregister : config.disable device.location device.location (ConfigSpace.bar0 + i * 4)
        = Decoder.register type bits exponent block) :
      (config.disable device.location).readBar device.location i &&& 0b1 = 0#32 := by
    rw [(readBar_eq hregister).1, read_type 1 hfits (by decide) (by decide)]
    exact htype
  cases decoder with
  | unimplemented =>
    have hregister : config.disable device.location device.location (ConfigSpace.bar0 + i * 4)
        = ⟨0, 0⟩ := (List.cons.inj hregisters).1
    obtain ⟨hnumbers, hsize⟩ := sizeMemory_numbers_unimplemented hregister
    have hread : (config.disable device.location).readBar device.location i &&& 0b1 = 0#32 := by
      rw [(readBar_eq hregister).1]
      rfl
    exact records_memory hread hnumbers (by rw [hsize]; decide)
  | io bits exponent block =>
    obtain ⟨hbits, hfits⟩ := hlegal
    have hregister := (List.cons.inj hregisters).1
    have hle : bits ≤ 32 := by omega
    have hread : (config.disable device.location).readBar device.location i &&& 0b1 ≠ 0#32 := by
      rw [(readBar_eq hregister).1, read_type 1 hfits (by decide) (by decide)]
      decide
    have hnumbers := sizeIo_numbers (device.bar i) hle hfits hregister
    rw [scanBar_io hread, Decoder.written, ← hnumbers]
    exact records_setBar _
  | memory16 bits exponent block prefetchable =>
    obtain ⟨hbits, hfits⟩ := hlegal
    have hregister := (List.cons.inj hregisters).1
    obtain ⟨hnumbers, hsize⟩ := sizeMemory_numbers16 hfits hregister
    exact records_memory (hmemory hfits (by cases prefetchable <;> decide) hregister) hnumbers
      (by rw [hsize]; decide)
  | memory32 exponent block prefetchable =>
    have hfits : Fits 4 32 exponent block := hlegal
    have hregister := (List.cons.inj hregisters).1
    obtain ⟨hnumbers, hsize⟩ := sizeMemory_numbers32 hfits hregister
    exact records_memory (hmemory hfits (by cases prefetchable <;> decide) hregister) hnumbers
      (by rw [hsize]; decide)
  | memory64 exponent block prefetchable =>
    have hfits : Fits 4 64 exponent block := hlegal
    obtain ⟨hregister, hrest⟩ := List.cons.inj hregisters
    have hsecond := congrArg Register.value (List.cons.inj hrest).1
    obtain ⟨hnumbers, hsize⟩ := sizeMemory_numbers64 hfits hregister hsecond
    have hread := hmemory hfits (by cases prefetchable <;> decide) hregister
    have hwritten : (Decoder.memory64 exponent block prefetchable).written
        = [((config.disable device.location).sizeMemory device.location i
            ((config.disable device.location).readBar device.location i)).2.numbers,
          (0, 0, 0, 0)] := by
      rw [hnumbers]
      rfl
    rw [scanBar_pair hread hsize, hwritten]
    exact records_pair _ _

/-- A register is taken by each decoder. -/
theorem registers_pos (decoder : Decoder) : 0 < decoder.registers.length := by
  cases decoder <;> exact Nat.zero_lt_succ _

/-- The loop is over. -/
theorem scanBars_end : scanBars passes config device 6 = (config, device) := by
  cases passes with
  | zero => rfl
  | succ passes => exact if_neg (by decide)

variable (passes config device i) in
/-- **The loop records a layout** that the registers from an index on are of. -/
theorem scanBars_records {n : ℕ} (hlegal : ∀ decoder ∈ layout, decoder.Legal)
    (hregisters : (List.range' i n).map
      (fun j => config device.location (ConfigSpace.bar0 + j * 4))
        = layout.flatMap Decoder.registers)
    (hpasses : n ≤ passes) (hend : i + n = 6) :
    Records device (scanBars passes config device i).2 i 6 (layout.flatMap Decoder.written) := by
  induction layout generalizing passes config device i n with
  | nil =>
    have hlength := congrArg List.length hregisters
    rw [List.length_map, List.length_range', List.flatMap_nil, List.length_nil] at hlength
    have hlast : i = 6 := by omega
    rw [hlast, scanBars_end]
    exact .refl
  | cons decoder layout ih =>
    have hpos := registers_pos decoder
    have hlength := congrArg List.length hregisters
    rw [List.length_map, List.length_range', List.flatMap_cons, List.length_append] at hlength
    generalize hrest : (layout.flatMap Decoder.registers).length = rest at hlength
    subst hlength
    rw [List.flatMap_cons, ← List.range'_append_1, List.map_append] at hregisters
    obtain ⟨hfirst, hlater⟩ := List.append_inj hregisters (by
      rw [List.length_map, List.length_range'])
    have hturn := scanBar_records (hlegal decoder List.mem_cons_self) hfirst
    have hnext := hturn.next_eq
    rw [length_written] at hnext
    cases passes with
    | zero => exact absurd hpasses (by omega)
    | succ passes =>
      have hi : i < 6 := by omega
      rw [scanBars, if_pos hi, List.flatMap_cons]
      -- the registers that are left are read as they were
      have hleft : (List.range' (i + decoder.registers.length) rest).map
          (fun j => (scanBar config device i).1 (scanBar config device i).2.1.location
            (ConfigSpace.bar0 + j * 4)) = layout.flatMap Decoder.registers := by
        rw [← hlater, scanBar_location]
        refine List.map_congr_left fun j _ => ?_
        refine scanBar_same device.location _ ?_
        rw [ConfigSpace.bar0, ConfigSpace.command]
        omega
      rw [← hnext] at hleft
      have hlegal' : ∀ decoder ∈ layout, decoder.Legal := fun decoder hmem =>
        hlegal decoder (List.mem_cons_of_mem _ hmem)
      exact hturn.trans (ih _ _ _ _ hlegal' hleft (by omega) (by omega))

/-- **What is recorded of a layout is what is to be** just where each
decoder is sized. -/
theorem written_eq_expected_iff (hlegal : ∀ decoder ∈ layout, decoder.Legal) :
    layout.flatMap Decoder.written = layout.flatMap Decoder.expected ↔
      ∀ decoder ∈ layout, decoder.Sized := by
  induction layout with
  | nil => exact iff_of_true rfl (List.forall_mem_nil _)
  | cons decoder layout ih =>
    rw [List.forall_mem_cons] at hlegal
    rw [List.flatMap_cons, List.flatMap_cons, List.forall_mem_cons, ← Decoder.written_eq_iff hlegal.1,
      ← ih hlegal.2]
    constructor
    · exact fun heq => List.append_inj heq (length_expected decoder).symm
    · rintro ⟨hdecoder, hlayout⟩
      rw [hdecoder, hlayout]

/-! ## A function -/

variable {s : Pci} {calls : ℕ}

/-- **A bus is scanned to an end**, and leaves the registers as they were. -/
theorem exists_scanBus (hcalls : 256 ≤ calls) {bus : BitVec 8}
    (hunseen : s.scannedBusses.get bus = false) :
    ∃ s', Pci.scanBus calls bus s = some s' ∧ s.config.Same s'.config := by
  let busses : BitVec 8 ≃ Fin (2 ^ 8) := ⟨BitVec.toFin, BitVec.ofFin, fun _ => rfl, fun _ => rfl⟩
  let _ : Fintype (BitVec 8) := Fintype.ofEquiv (Fin (2 ^ 8)) busses.symm
  have hcard : (toWalk s).unseen ≤ calls := by
    refine Nat.le_trans (Finset.card_le_univ _) ?_
    rw [Fintype.ofEquiv_card, Fintype.card_fin]
    exact hcalls
  obtain ⟨w, hvisit, -⟩ := exists_visit (g := linkage s.config first) calls
    (w := toWalk s) hunseen hcard
  obtain ⟨hwalk, hsame⟩ := follows_scanBus calls bus (.refl s.config)
  rw [hvisit, Option.map_eq_some_iff] at hwalk
  obtain ⟨s', hscan, -⟩ := hwalk
  exact ⟨s', hscan, hsame s' hscan⟩

/-- **A function is added** after what is behind it. -/
theorem exists_scanFunction (hcalls : 256 ≤ calls) (hvendor : s.config.HasVendor location) :
    ∃ u : Pci, s.config.Same u.config ∧ scanFunction (Pci.scanBus calls) location s
      = some (u.addFunction location (s.config.readConfig32 location 0x00)
          (s.config.readConfig32 location 0x08)) := by
  have hfunction : scanFunction (Pci.scanBus calls) location s
      = (if s.config.IsBridge location ∧
            s.scannedBusses.get (s.config.secondaryBus (first location)) = false then
          Pci.scanBus calls (s.config.secondaryBus (first location)) s else some s).map
        (·.addFunction location (s.config.readConfig32 location 0x00)
          (s.config.readConfig32 location 0x08)) :=
    if_neg hvendor
  rw [hfunction]
  split
  · next hbridge =>
    obtain ⟨u, hscan, hsame⟩ := exists_scanBus hcalls hbridge.2
    exact ⟨u, hsame, by rw [hscan]; rfl⟩
  · exact ⟨s, .refl s.config, rfl⟩

theorem pairAtLast_same (h : config.Same config') :
    PairAtLast (config'.readBar location) passes i ↔
      PairAtLast (config.readBar location) passes i :=
  pairAtLast_congr fun _ => h.readBar

theorem decodes_same (h : config.Same config') (hdecodes : config.Decodes location layout) :
    config'.Decodes location layout := by
  refine ⟨hdecodes.1, ?_⟩
  rw [← hdecodes.2]
  refine List.map_congr_left fun j _ => h location _ ?_
  rw [ConfigSpace.bar0, ConfigSpace.command]
  omega

/-- **The loop over the bars** of a function sizes it just where it can be
sized. -/
theorem scanBars_sizes_iff (h : config.Same config') (id fullClass : BitVec 32) :
    Sizes config (scanBars 6 config' ⟨id, fullClass, location, fun _ => .zero, []⟩ 0).1
        (scanBars 6 config' ⟨id, fullClass, location, fun _ => .zero, []⟩ 0).2 ↔
      Sizable config location := by
  obtain ⟨hsame, hlocation⟩ := scanBars_same 6 config'
    ⟨id, fullClass, location, fun _ => .zero, []⟩ 0
  have htouched := scanBars_touched config' ⟨id, fullClass, location, fun _ => .zero, []⟩ 0 6
  rw [pairAtLast_same h, and_iff_right (List.forall_mem_nil _)] at htouched
  have hwritten {layout : List Decoder} (hdecodes : config.Decodes location layout) :
      (List.range 6).map (fun i =>
          ((scanBars 6 config' ⟨id, fullClass, location, fun _ => .zero, []⟩ 0).2.bar i).numbers)
        = layout.flatMap Decoder.written := by
    have hthere := decodes_same h hdecodes
    have hrecords := scanBars_records config' ⟨id, fullClass, location, fun _ => .zero, []⟩ 0 6
      (n := 6) hthere.1
      (by rw [← List.range_eq_range']; exact hthere.2) (Nat.le_refl 6) rfl
    have hlength := hrecords.next_eq
    have hrecorded := hrecords.recorded
    rw [Nat.zero_add] at hlength
    rw [← hlength, ← List.range_eq_range'] at hrecorded
    exact hrecorded
  constructor
  · rintro ⟨hwithin, -, hrecorded⟩
    refine ⟨htouched.mp hwithin, fun layout hdecodes => ?_⟩
    rw [hlocation] at hrecorded
    rw [← written_eq_expected_iff hdecodes.1, ← hwritten hdecodes]
    exact hrecorded layout hdecodes
  · rintro ⟨hlast, hsized⟩
    refine ⟨htouched.mpr hlast, h.trans hsame, fun layout hdecodes => ?_⟩
    rw [hlocation] at hdecodes
    rw [hwritten hdecodes, written_eq_expected_iff hdecodes.1]
    exact hsized layout hdecodes

/-- **A function is sized by `scan_function`**: it ends, and the last device
is the function's, with its bars. -/
def SizesFunction (s : Pci) (calls : ℕ) (location : Location) : Prop :=
  ∃ s' device, scanFunction (Pci.scanBus calls) location s = some s' ∧
    s'.devices.getLast? = some device ∧ device.location = location ∧
      Sizes s.config s'.config device

theorem sizesFunction_iff_of_eq {u : Pci} {id fullClass : BitVec 32}
    (h : s.config.Same u.config) (hscan : scanFunction (Pci.scanBus calls) location s
      = some (u.addFunction location id fullClass)) :
    SizesFunction s calls location ↔ Sizable s.config location := by
  have hlocation := (scanBars_same 6 u.config ⟨id, fullClass, location, fun _ => .zero, []⟩ 0).2
  rw [← scanBars_sizes_iff h id fullClass]
  constructor
  · rintro ⟨s', device, hs', hdevice, -, hsizes⟩
    rw [hscan, Option.some.injEq] at hs'
    subst hs'
    rw [addFunction, List.getLast?_append_of_ne_nil _ (List.cons_ne_nil _ _),
      List.getLast?_singleton, Option.some.injEq] at hdevice
    subst hdevice
    exact hsizes
  · intro hsizes
    refine ⟨_, _, hscan, ?_, hlocation, hsizes⟩
    rw [addFunction, List.getLast?_append_of_ne_nil _ (List.cons_ne_nil _ _),
      List.getLast?_singleton]

/-- **A function is sized just where it can be**, whatever its registers
hold, and wherever in the scan it is come to. -/
theorem scanFunction_sizes_iff (s : Pci) (calls : ℕ) (hcalls : 256 ≤ calls) (location : Location)
    (hvendor : s.config.HasVendor location) :
    SizesFunction s calls location ↔ Sizable s.config location := by
  obtain ⟨u, hsame, hscan⟩ := exists_scanFunction hcalls hvendor
  exact sizesFunction_iff_of_eq hsame hscan

/-! ## A card, and a host bridge -/

/-- The last bits of a type tell memory of 32 bits from the others, if
there is anything to write. -/
theorem sized_of_memory32 (register : Register) (hlegal : decoder.Legal)
    (hmem : register ∈ decoder.registers.head?) (hvalue : register.value &&& 0b111 = 0#32)
    (hwritable : register.writable ≠ 0#32) : decoder.Sized := by
  have htype (upper : ℕ) (kept : BitVec 32) {type : BitVec 32} {least bits exponent block : ℕ}
      (hfits : Fits least bits exponent block)
      (hregister : Decoder.register type bits exponent block = register) (hupper : upper ≤ least)
      (hkept : kept.toNat < 2 ^ upper) :
      type &&& kept = register.value &&& kept := by
    rw [← hregister]
    exact (read_type upper hfits hupper hkept).symm
  have hio : register.value &&& 0b1 = 0#32 := by
    have hboth : (0b1 : BitVec 32) = 0b111 &&& 0b1 := by decide
    rw [hboth, ← BitVec.and_assoc, hvalue]
    decide
  cases decoder with
  | unimplemented =>
    have hregister : ⟨0, 0⟩ = register := Option.some.inj hmem
    exact absurd (congrArg Register.writable hregister).symm hwritable
  | io bits exponent block =>
    have hbit := htype 1 0b1 hlegal.2 (Option.some.inj hmem) (by decide)
      (by decide)
    rw [hio] at hbit
    exact absurd hbit (by decide)
  | memory16 bits exponent block prefetchable =>
    have hbits := htype 3 0b111 hlegal.2 (Option.some.inj hmem) (by decide)
      (by decide)
    rw [hvalue] at hbits
    exact absurd hbits (by cases prefetchable <;> decide)
  | memory32 => trivial
  | memory64 exponent block prefetchable =>
    have hbits := htype 3 0b111 hlegal (Option.some.inj hmem) (by decide)
      (by decide)
    rw [hvalue] at hbits
    exact absurd hbits (by cases prefetchable <;> decide)

/-- A card of six blocks of memory. -/
def card : ConfigSpace := fun _ offset =>
  if ConfigSpace.bar0 ≤ offset then Decoder.register (Decoder.typeBits 0b000 false) 32 16 0xfebd
  else fixed 0x100e8086

theorem sizable_card : Sizable card ⟨0, 2, 0⟩ := by
  refine ⟨by decide +kernel, fun layout hdecodes decoder hmem => ?_⟩
  have hpos := registers_pos decoder
  obtain ⟨register, rest, hregisters⟩ := List.exists_cons_of_length_pos hpos
  have hthere : register ∈ layout.flatMap Decoder.registers :=
    List.mem_flatMap.mpr ⟨decoder, hmem, by rw [hregisters]; exact List.mem_cons_self⟩
  rw [← hdecodes.2, List.mem_map] at hthere
  obtain ⟨j, -, hregister⟩ := hthere
  have hcard : register = Decoder.register (Decoder.typeBits 0b000 false) 32 16 0xfebd := by
    rw [← hregister]
    exact if_pos (Nat.le_add_right _ _)
  refine sized_of_memory32 register (hdecodes.1 decoder hmem) ?_ ?_ ?_
  · rw [hregisters, List.head?_cons]
    exact Option.mem_some_self _
  · rw [hcard]
    decide +kernel
  · rw [hcard]
    decide +kernel

theorem sizes_card : SizesFunction ⟨card, .empty, []⟩ 256 ⟨0, 2, 0⟩ :=
  (scanFunction_sizes_iff ⟨card, .empty, []⟩ 256 (Nat.le_refl _) ⟨0, 2, 0⟩ (by decide +kernel)).mpr
    sizable_card

/-- A host bridge, which has no address at all. -/
def hostBridge : ConfigSpace
  | ⟨0, 0, 0⟩, 0x00 => fixed 0x12378086
  | ⟨0, 0, 0⟩, 0x08 => fixed 0x06000002
  | _, 0x00 => fixed 0xffffffff
  | _, _ => fixed 0

/-- It is recorded with six of four gigabytes. -/
theorem not_sizes_hostBridge : ¬SizesFunction ⟨hostBridge, .empty, []⟩ 256 ⟨0, 0, 0⟩ := by
  intro hsizes
  have hdecodes : hostBridge.Decodes ⟨0, 0, 0⟩ (List.replicate 6 .unimplemented) := by
    refine ⟨fun decoder hmem => ?_, by decide⟩
    rw [List.eq_of_mem_replicate hmem]
    trivial
  have hvendor : hostBridge.HasVendor ⟨0, 0, 0⟩ := by decide
  obtain ⟨u, hsame, hscan⟩ := exists_scanFunction (s := ⟨hostBridge, .empty, []⟩)
    (Nat.le_refl 256) hvendor
  obtain ⟨-, hsized⟩ := (sizesFunction_iff_of_eq hsame hscan).mp hsizes
  exact hsized _ hdecodes .unimplemented (List.mem_replicate.mpr ⟨by decide, rfl⟩)

end Pci

end Uberos
