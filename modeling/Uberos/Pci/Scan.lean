import Uberos.Bitmask.Refined
import Uberos.Library.Walk
import Uberos.Pci.Registers
/-!
# The functions that are found

The scan is a walk of the busses, whose items are the functions that are
present and lead to the busses behind the bridges. It ends, and it puts
out each function that it comes to once. What it comes to is told by a
bridge's registers, and is read of the first function of the bridge's
device; the busses of a host are told by the type of its header, and are
read of its cache line.
-/

namespace Uberos

open Library

namespace Pci

variable {config : ConfigSpace} {location : Location} {bus device : BitVec 8}

/-! ## What is there -/

namespace ConfigSpace

variable (config : ConfigSpace) (location : Location)

/-- A vendor answers. -/
def HasVendor : Prop := (config.readConfig32 location 0x00).setWidth 16 ≠ 0xffff#16

instance : Decidable (config.HasVendor location) := inferInstanceAs (Decidable (_ ≠ _))

/-- The header says that there are several functions. -/
def IsMulti : Prop := (config.readConfig32 location 0x0c >>> 16 &&& 0xff) &&& 0x80 ≠ 0#32

instance : Decidable (config.IsMulti location) := inferInstanceAs (Decidable (_ ≠ _))

/-- **A function is present**: its device's first is, and it is that, or one
of several. -/
def Present : Prop :=
  location.device.toNat < 32 ∧ location.function.toNat < 8 ∧
    config.HasVendor { location with function := 0 } ∧
    (location.function = 0 ∨
      config.IsMulti { location with function := 0 } ∧ config.HasVendor location)

/-- A bridge to another bus. -/
def IsBridge : Prop :=
  (config.readConfig32 location 0x08 >>> 16).setWidth 16 = pciToPciBridge

instance : Decidable (config.IsBridge location) := inferInstanceAs (Decidable (_ = _))

/-- The bus that the registers of a function say is behind it. -/
def secondaryBus : BitVec 8 :=
  (config.readConfig32 location 0x18 >>> 8 &&& 0xff).setWidth 8

/-- The functions of a device, as they are come to. -/
def functionsOf (bus device : BitVec 8) : List Location :=
  if config.HasVendor ⟨bus, device, 0⟩ then
    if config.IsMulti ⟨bus, device, 0⟩ then
      ((List.range 8).map fun function => ⟨bus, device, BitVec.ofNat 8 function⟩).filter
        fun location => config.HasVendor location
    else [⟨bus, device, 0⟩]
  else []

/-- The functions of a bus, as they are come to. -/
def functionsOn (bus : BitVec 8) : List Location :=
  (List.range 32).flatMap fun device => config.functionsOf bus (BitVec.ofNat 8 device)

end ConfigSpace

/-! ## The order they are come to in -/

theorem toNat_ofNat {n : ℕ} (hn : n < 2 ^ 8) : (BitVec.ofNat 8 n).toNat = n := by
  rw [BitVec.toNat_ofNat, Nat.mod_eq_of_lt hn]

theorem mem_functionsOf : location ∈ config.functionsOf bus device ↔
    location.bus = bus ∧ location.device = device ∧ location.function.toNat < 8 ∧
      config.HasVendor ⟨bus, device, 0⟩ ∧
      (location.function = 0 ∨ config.IsMulti ⟨bus, device, 0⟩ ∧ config.HasVendor location) := by
  obtain ⟨bus', device', function⟩ := location
  rw [ConfigSpace.functionsOf]
  by_cases hvendor : config.HasVendor ⟨bus, device, 0⟩
  · rw [if_pos hvendor]
    by_cases hmulti : config.IsMulti ⟨bus, device, 0⟩
    · rw [if_pos hmulti, List.mem_filter, List.mem_map, decide_eq_true_eq]
      constructor
      · rintro ⟨⟨n, hn, heq⟩, hpresent⟩
        have hlt := List.mem_range.mp hn
        cases heq
        refine ⟨rfl, rfl, ?_, hvendor, Or.inr ⟨hmulti, hpresent⟩⟩
        rw [toNat_ofNat (by omega)]
        exact hlt
      · rintro ⟨rfl, rfl, hlt, -, hfunction⟩
        refine ⟨⟨function.toNat, List.mem_range.mpr hlt, ?_⟩, ?_⟩
        · rw [BitVec.ofNat_toNat, BitVec.setWidth_eq]
        · rcases hfunction with rfl | ⟨-, hpresent⟩
          · exact hvendor
          · exact hpresent
    · rw [if_neg hmulti, List.mem_singleton]
      constructor
      · intro heq
        cases heq
        exact ⟨rfl, rfl, Nat.zero_lt_succ 7, hvendor, Or.inl rfl⟩
      · rintro ⟨rfl, rfl, -, -, rfl | ⟨htrue, -⟩⟩
        · rfl
        · exact absurd htrue hmulti
  · rw [if_neg hvendor]
    refine iff_of_false List.not_mem_nil ?_
    rintro ⟨-, -, -, htrue, -⟩
    exact hvendor htrue

/-- **The functions of a bus are those that are present** on it. -/
theorem mem_functionsOn :
    location ∈ config.functionsOn bus ↔ location.bus = bus ∧ config.Present location := by
  simp only [ConfigSpace.functionsOn, List.mem_flatMap, List.mem_range, mem_functionsOf]
  constructor
  · rintro ⟨n, hn, rfl, hdevice, hlt, hvendor, hfunction⟩
    rw [← hdevice] at hvendor hfunction
    refine ⟨rfl, ?_, hlt, hvendor, hfunction⟩
    rw [hdevice, toNat_ofNat (by omega)]
    exact hn
  · rintro ⟨rfl, hdevice, hlt, hvendor, hfunction⟩
    have hback : BitVec.ofNat 8 location.device.toNat = location.device := by
      rw [BitVec.ofNat_toNat, BitVec.setWidth_eq]
    refine ⟨location.device.toNat, hdevice, rfl, hback.symm, hlt, ?_, ?_⟩
    · rw [hback]
      exact hvendor
    · rw [hback]
      exact hfunction

theorem nodup_functionsOf : (config.functionsOf bus device).Nodup := by
  rw [ConfigSpace.functionsOf]
  split
  · split
    · refine List.Nodup.filter _ (List.Nodup.map_on ?_ List.nodup_range)
      intro n hn m hm heq
      have htoNat := congrArg (fun location => location.function.toNat) heq
      rw [toNat_ofNat (by have := List.mem_range.mp hn; omega),
        toNat_ofNat (by have := List.mem_range.mp hm; omega)] at htoNat
      exact htoNat
    · exact List.nodup_singleton _
  · exact List.nodup_nil

/-- Each function of a bus is come to once. -/
theorem nodup_functionsOn : (config.functionsOn bus).Nodup := by
  refine List.nodup_flatMap.mpr ⟨fun _ _ => nodup_functionsOf, ?_⟩
  refine List.nodup_range.pairwise_of_forall_ne fun n hn m hm hne location hfirst hsecond => ?_
  have hdevice := (mem_functionsOf.mp hfirst).2.1.symm.trans (mem_functionsOf.mp hsecond).2.1
  have htoNat := congrArg BitVec.toNat hdevice
  rw [toNat_ofNat (by have := List.mem_range.mp hn; omega),
    toNat_ofNat (by have := List.mem_range.mp hm; omega)] at htoNat
  exact hne htoNat

/-! ## The walk -/

/-- **The busses as they are linked**: a bridge leads to the bus that the
registers of a function say is behind it. -/
def linkage (config : ConfigSpace) (told : Location → Location) :
    Linkage (BitVec 8) Location where
  items := config.functionsOn
  next location :=
    if config.IsBridge location then some (config.secondaryBus (told location)) else none
  owner := Location.bus
  nodup _ := nodup_functionsOn
  owner_of_mem _ _ h := (mem_functionsOn.mp h).1

/-- The first function of a device. -/
def first (location : Location) : Location := { location with function := 0 }

/-- The busses that the scan begins with. -/
def hosts (config : ConfigSpace) : List (BitVec 8) :=
  if config.readConfig32 ⟨0, 0, 0⟩ 0x0c &&& 0x80 ≠ 0 then
    ((List.range 8).map (BitVec.ofNat 8)).filter fun function => config.HasVendor ⟨0, 0, function⟩
  else [0]

/-- What the walk holds of a scan. -/
def toWalk (s : Pci) : Walk (BitVec 8) Location :=
  ⟨s.scannedBusses.get, s.devices.map (·.location)⟩

/-- **A scan does what the walk does**, and leaves the registers as they were. -/
def Follows (config : ConfigSpace) (scanned : Option Pci)
    (walked : Option (Walk (BitVec 8) Location)) : Prop :=
  scanned.map toWalk = walked ∧ ∀ s ∈ scanned, config.Same s.config

variable {s : Pci} {scanBus : BitVec 8 → Pci → Option Pci}
variable {visit : BitVec 8 → Walk (BitVec 8) Location → Option (Walk (BitVec 8) Location)}

theorem follows_some (h : config.Same s.config) : Follows config (some s) (some (toWalk s)) :=
  ⟨rfl, fun t ht => by rw [← Option.mem_some_iff.mp ht]; exact h⟩

/-- One after the other, they do what the walk does. -/
theorem Follows.bind {scanned : Option Pci} {walked : Option (Walk (BitVec 8) Location)}
    {f : Pci → Option Pci} {f' : Walk (BitVec 8) Location → Option (Walk (BitVec 8) Location)}
    (h : Follows config scanned walked)
    (hf : ∀ s, config.Same s.config → Follows config (f s) (f' (toWalk s))) :
    Follows config (scanned.bind f) (walked.bind f') := by
  obtain ⟨rfl, hsame⟩ := h
  cases scanned with
  | none => exact ⟨rfl, fun s hs => absurd hs (Option.not_mem_none s)⟩
  | some s => exact hf s (hsame s rfl)

/-- A function is put out where it is added. -/
theorem follows_addFunction (h : config.Same s.config) (location : Location)
    (id fullClass : BitVec 32) :
    Follows config (some (s.addFunction location id fullClass))
      (some ((toWalk s).put location)) := by
  obtain ⟨hsame, hlocation⟩ := scanBars_same 6 s.config
    { id, fullClass, location, bar := fun _ => .zero, touched := [] } 0
  have hwalk : toWalk (s.addFunction location id fullClass) = (toWalk s).put location := by
    rw [toWalk, addFunction, toWalk, Walk.put]
    simp only [List.map_append, List.map_cons, List.map_nil, hlocation]
  rw [← hwalk]
  exact follows_some (h.trans hsame)

theorem zero_ne_command : 0x00 ≠ ConfigSpace.command := by decide

theorem eight_ne_command : 0x08 ≠ ConfigSpace.command := by decide

theorem twelve_ne_command : 0x0c ≠ ConfigSpace.command := by decide

theorem twentyFour_ne_command : 0x18 ≠ ConfigSpace.command := by decide

theorem same_hasVendor (h : config.Same s.config) :
    s.config.HasVendor location ↔ config.HasVendor location := by
  rw [ConfigSpace.HasVendor, ConfigSpace.HasVendor, h.readConfig32 zero_ne_command]

theorem same_isMulti (h : config.Same s.config) :
    s.config.IsMulti location ↔ config.IsMulti location := by
  rw [ConfigSpace.IsMulti, ConfigSpace.IsMulti, h.readConfig32 twelve_ne_command]

theorem same_isBridge (h : config.Same s.config) :
    s.config.IsBridge location ↔ config.IsBridge location := by
  rw [ConfigSpace.IsBridge, ConfigSpace.IsBridge, h.readConfig32 eight_ne_command]

theorem same_secondaryBus (h : config.Same s.config) :
    s.config.secondaryBus location = config.secondaryBus location := by
  rw [ConfigSpace.secondaryBus, ConfigSpace.secondaryBus, h.readConfig32 twentyFour_ne_command]

/-- A bus that has not been scanned is entered. -/
theorem follows_enter
    (hscan : ∀ bus s, config.Same s.config →
      Follows config (scanBus bus s) (visit bus (toWalk s)))
    (h : config.Same s.config) (bus : BitVec 8) :
    Follows config (if s.scannedBusses.get bus = false then scanBus bus s else some s)
      (Linkage.enter visit bus (toWalk s)) := by
  cases hseen : s.scannedBusses.get bus with
  | false =>
    rw [if_pos rfl, Linkage.enter_of_unseen hseen]
    exact hscan bus s h
  | true =>
    rw [if_neg (by decide), Linkage.enter_of_seen hseen]
    exact follows_some h

/-- **A function that is present is an item of the walk.** -/
theorem follows_scanFunction
    (hscan : ∀ bus s, config.Same s.config →
      Follows config (scanBus bus s) (visit bus (toWalk s)))
    (h : config.Same s.config) (hvendor : config.HasVendor location) :
    Follows config (scanFunction scanBus location s)
      ((linkage config first).take visit location (toWalk s)) := by
  have hpresent : s.config.HasVendor location := (same_hasVendor h).mpr hvendor
  have hadd (t : Pci) (ht : config.Same t.config) :=
    follows_addFunction ht location (s.config.readConfig32 location 0x00)
      (s.config.readConfig32 location 0x08)
  have hfunction : scanFunction scanBus location s
      = (if s.config.IsBridge location ∧
            s.scannedBusses.get (s.config.secondaryBus (first location)) = false then
          scanBus (s.config.secondaryBus (first location)) s else some s).map
        (·.addFunction location (s.config.readConfig32 location 0x00)
          (s.config.readConfig32 location 0x08)) :=
    if_neg hpresent
  rw [hfunction, same_secondaryBus h]
  by_cases hbridge : config.IsBridge location
  · have hnext : (linkage config first).next location
        = some (config.secondaryBus (first location)) := if_pos hbridge
    simp only [(same_isBridge h).mpr hbridge, true_and]
    rw [Linkage.take_of_some hnext, Option.map_eq_bind, Option.map_eq_bind]
    exact (follows_enter hscan h _).bind hadd
  · have hnext : (linkage config first).next location = none := if_neg hbridge
    rw [if_neg fun hboth => hbridge ((same_isBridge h).mp hboth.1), Linkage.take_of_none hnext]
    exact hadd s h

/-- One that is not is passed over. -/
theorem scanFunction_of_absent (h : config.Same s.config) (hvendor : ¬config.HasVendor location) :
    scanFunction scanBus location s = some s := by
  have habsent : ¬s.config.HasVendor location := fun htrue => hvendor ((same_hasVendor h).mp htrue)
  exact if_pos (not_not.mp habsent)

/-- Functions are come to as those of them that are present. -/
theorem follows_filter
    (hscan : ∀ bus s, config.Same s.config →
      Follows config (scanBus bus s) (visit bus (toWalk s)))
    (location : ℕ → Location) (functions : List ℕ) (h : config.Same s.config) :
    Follows config (functions.foldlM (fun s n => scanFunction scanBus (location n) s) s)
      (((functions.map location).filter fun location => config.HasVendor location).foldlM
        (fun w location => (linkage config first).take visit location w) (toWalk s)) := by
  induction functions generalizing s with
  | nil => exact follows_some h
  | cons n functions ih =>
    rw [List.map_cons, List.foldlM_cons]
    by_cases hvendor : config.HasVendor (location n)
    · have hkeep : ((location n :: functions.map location).filter
          fun location => config.HasVendor location) = _ :=
        List.filter_cons_of_pos (decide_eq_true hvendor)
      rw [hkeep, List.foldlM_cons]
      exact (follows_scanFunction hscan h hvendor).bind fun t ht => ih ht
    · have hdrop : ((location n :: functions.map location).filter
          fun location => config.HasVendor location) = _ :=
        List.filter_cons_of_neg fun htrue => hvendor (of_decide_eq_true htrue)
      rw [hdrop, scanFunction_of_absent h hvendor]
      exact ih h

/-- **A device is the items that are present of it.** -/
theorem follows_scanDevice
    (hscan : ∀ bus s, config.Same s.config →
      Follows config (scanBus bus s) (visit bus (toWalk s)))
    (h : config.Same s.config) (bus device : BitVec 8) :
    Follows config (scanDevice scanBus bus device s)
      ((config.functionsOf bus device).foldlM
        (fun w location => (linkage config first).take visit location w) (toWalk s)) := by
  rw [ConfigSpace.functionsOf]
  by_cases hvendor : config.HasVendor ⟨bus, device, 0⟩
  · have hpresent := (same_hasVendor h).mpr hvendor
    rw [if_pos hvendor]
    by_cases hmulti : config.IsMulti ⟨bus, device, 0⟩
    · have hdevice : scanDevice scanBus bus device s
          = (List.range 8).foldlM (fun s function =>
              scanFunction scanBus ⟨bus, device, BitVec.ofNat 8 function⟩ s) s :=
        (if_neg hpresent).trans (if_pos ((same_isMulti h).mpr hmulti))
      rw [if_pos hmulti, hdevice]
      exact follows_filter hscan _ _ h
    · have hdevice : scanDevice scanBus bus device s = scanFunction scanBus ⟨bus, device, 0⟩ s :=
        (if_neg hpresent).trans (if_neg fun htrue => hmulti ((same_isMulti h).mp htrue))
      rw [if_neg hmulti, hdevice, List.foldlM_cons]
      have hone := follows_scanFunction hscan h hvendor
      rw [← Option.bind_fun_some (scanFunction scanBus ⟨bus, device, 0⟩ s)]
      exact hone.bind fun t ht => follows_some ht
  · have habsent : ¬s.config.HasVendor ⟨bus, device, 0⟩ :=
      fun htrue => hvendor ((same_hasVendor h).mp htrue)
    have hdevice : scanDevice scanBus bus device s = some s := if_pos (not_not.mp habsent)
    rw [if_neg hvendor, hdevice]
    exact follows_some h

/-- What is put out device by device is put out of them all. -/
theorem follows_devices
    (hscan : ∀ bus s, config.Same s.config →
      Follows config (scanBus bus s) (visit bus (toWalk s)))
    (bus : BitVec 8) (devices : List ℕ) (h : config.Same s.config) :
    Follows config
      (devices.foldlM (fun s device => scanDevice scanBus bus (BitVec.ofNat 8 device) s) s)
      ((devices.flatMap fun device => config.functionsOf bus (BitVec.ofNat 8 device)).foldlM
        (fun w location => (linkage config first).take visit location w) (toWalk s)) := by
  induction devices generalizing s with
  | nil => exact follows_some h
  | cons device devices ih =>
    rw [List.foldlM_cons, List.flatMap_cons, List.foldlM_append]
    exact (follows_scanDevice hscan h bus (BitVec.ofNat 8 device)).bind fun t ht => ih ht

/-- **A bus is scanned as it is visited.** -/
theorem follows_scanBus (calls : ℕ) (bus : BitVec 8) (h : config.Same s.config) :
    Follows config (Pci.scanBus calls bus s)
      ((linkage config first).visit calls bus (toWalk s)) := by
  induction calls generalizing bus s with
  | zero => exact ⟨rfl, fun t ht => absurd ht (Option.not_mem_none t)⟩
  | succ calls ih =>
    have hmark : toWalk { s with scannedBusses := s.scannedBusses.set bus true }
        = (toWalk s).mark bus := by
      have hseen : (s.scannedBusses.set bus true).get
          = fun other => decide (other = bus) || s.scannedBusses.get other := by
        funext other
        rw [Bool.eq_iff_iff, Bitmask.get256_set, Bool.or_eq_true, decide_eq_true_eq]
        split
        · next heq => exact iff_of_true rfl (Or.inl heq)
        · next hne => exact (or_iff_right hne).symm
      rw [toWalk, toWalk, Walk.mark, hseen]
    rw [Linkage.visit, ← hmark]
    exact follows_devices (fun bus s => ih bus) bus (List.range 32) h

/-- The hosts that are there are entered. -/
theorem follows_hosts (calls : ℕ) (functions : List ℕ) (h : config.Same s.config) :
    Follows config
      (functions.foldlM (fun s function =>
        if (s.config.readConfig32 ⟨0, 0, BitVec.ofNat 8 function⟩ 0x00).setWidth 16 = 0xffff#16 then
          some s
        else if s.scannedBusses.get (BitVec.ofNat 8 function) = false then
          Pci.scanBus calls (BitVec.ofNat 8 function) s
        else some s) s)
      ((linkage config first).walk calls ((functions.map (BitVec.ofNat 8)).filter fun function =>
        config.HasVendor ⟨0, 0, function⟩) (toWalk s)) := by
  induction functions generalizing s with
  | nil => exact follows_some h
  | cons function functions ih =>
    rw [List.foldlM_cons, List.map_cons]
    by_cases hvendor : config.HasVendor ⟨0, 0, BitVec.ofNat 8 function⟩
    · have hkeep : ((BitVec.ofNat 8 function :: functions.map (BitVec.ofNat 8)).filter
          fun function => config.HasVendor ⟨0, 0, function⟩) = _ :=
        List.filter_cons_of_pos (decide_eq_true hvendor)
      rw [hkeep, Linkage.walk, List.foldlM_cons, if_neg ((same_hasVendor h).mpr hvendor)]
      exact (follows_enter (fun bus s => follows_scanBus calls bus) h _).bind fun t ht => ih ht
    · have hdrop : ((BitVec.ofNat 8 function :: functions.map (BitVec.ofNat 8)).filter
          fun function => config.HasVendor ⟨0, 0, function⟩) = _ :=
        List.filter_cons_of_neg fun htrue => hvendor (of_decide_eq_true htrue)
      have habsent : ¬s.config.HasVendor ⟨0, 0, BitVec.ofNat 8 function⟩ :=
        fun htrue => hvendor ((same_hasVendor h).mp htrue)
      rw [hdrop, if_pos (not_not.mp habsent)]
      exact ih h

/-- **The scan is a walk from the busses of the hosts.** -/
theorem follows_scan (calls : ℕ) (config : ConfigSpace) :
    Follows config (scan calls config)
      ((linkage config first).walk calls (hosts config) .start) := by
  have hstart : toWalk { config, scannedBusses := .empty, devices := [] } = .start := by
    have hseen : Bitmask256.empty.get = fun _ => false := by
      funext bus
      rw [Bool.eq_false_iff, Ne, Bitmask.get256_iff, Bitmask256.empty]
      simp
    rw [toWalk, hseen]
    rfl
  rw [← hstart, hosts, scan]
  dsimp only
  split
  · exact follows_hosts calls (List.range 8) (.refl config)
  · rw [Linkage.walk, List.foldlM_cons]
    have hone := follows_scanBus calls 0 (s := { config, scannedBusses := .empty, devices := [] })
      (.refl config)
    have hunseen : (toWalk { config, scannedBusses := .empty, devices := [] }).seen 0 = false := by
      rw [hstart]
      rfl
    rw [Linkage.enter_of_unseen hunseen, ← Option.bind_fun_some (Pci.scanBus calls 0 _)]
    exact hone.bind fun t ht => follows_some ht

/-! ## What it is for -/

/-- The busses that there are: the first, and those of the host controllers
of a host bridge of several functions. -/
def IsHost (config : ConfigSpace) (bus : BitVec 8) : Prop :=
  bus = 0 ∨ config.IsMulti ⟨0, 0, 0⟩ ∧ config.Present ⟨0, 0, bus⟩

/-- **A bus can be reached** from those of the hosts through bridges, each
by what its own registers say. -/
def Reachable (config : ConfigSpace) (bus : BitVec 8) : Prop :=
  (linkage config id).ReachFrom {host | IsHost config host} bus

/-- **The functions are enumerated**: every one that is present on a bus
that can be reached is registered, once, and nothing else is. -/
structure Enumerates (config : ConfigSpace) (s : Pci) : Prop where
  nodup : (s.devices.map (·.location)).Nodup
  mem_iff : ∀ location, location ∈ s.devices.map (·.location) ↔
    config.Present location ∧ Reachable config location.bus

/-- **The scan ends with all of them.** No more calls nest than there are
busses. -/
def Scans (config : ConfigSpace) : Prop :=
  ∀ calls ≥ 256, ∃ s, scan calls config = some s ∧ Enumerates config s

/-- **The busses told are those read**: where there is a function, a bus is
reached from the hosts through bridges just where it is from the busses
of the functions of the first device, with the test of the cache line for
that of the header, through the busses that the first functions of the
bridges' devices say. -/
def ReadAsTold (config : ConfigSpace) : Prop :=
  ∀ location, config.Present location →
    ((linkage config first).ReachFrom {host | host ∈ hosts config} location.bus ↔
      Reachable config location.bus)

/-! ## What is enumerated -/

/-- **The scan ends**, and registers what is read to be reachable, once. -/
theorem exists_scan (config : ConfigSpace) (calls : ℕ) (hcalls : 256 ≤ calls) :
    ∃ s, scan calls config = some s ∧ (s.devices.map (·.location)).Nodup ∧
      ∀ location, location ∈ s.devices.map (·.location) ↔ config.Present location ∧
        (linkage config first).ReachFrom {host | host ∈ hosts config} location.bus := by
  let busses : BitVec 8 ≃ Fin (2 ^ 8) := ⟨BitVec.toFin, BitVec.ofFin, fun _ => rfl, fun _ => rfl⟩
  let _ : Fintype (BitVec 8) := Fintype.ofEquiv (Fin (2 ^ 8)) busses.symm
  have hcard : Fintype.card (BitVec 8) ≤ calls := by
    rw [Fintype.ofEquiv_card, Fintype.card_fin]
    exact hcalls
  obtain ⟨w, hwalk⟩ := exists_walk (g := linkage config first) calls hcard (hosts config) .start
  obtain ⟨hsame, -⟩ := follows_scan calls config
  rw [hwalk, Option.map_eq_some_iff] at hsame
  obtain ⟨s, hscan, rfl⟩ := hsame
  obtain ⟨hnodup, hmem⟩ := walk_start hwalk
  refine ⟨s, hscan, hnodup, fun location => (hmem location).trans ?_⟩
  constructor
  · rintro ⟨bus, hreach, hitem⟩
    obtain ⟨rfl, hpresent⟩ := mem_functionsOn.mp hitem
    exact ⟨hpresent, hreach⟩
  · rintro ⟨hpresent, hreach⟩
    exact ⟨location.bus, hreach, mem_functionsOn.mpr ⟨rfl, hpresent⟩⟩

/-- **The scan finds the functions where the busses told are those read.** -/
theorem scans_iff (config : ConfigSpace) : Scans config ↔ ReadAsTold config := by
  constructor
  · intro hscans location hpresent
    obtain ⟨s, hscan, henumerates⟩ := hscans 256 (Nat.le_refl _)
    obtain ⟨s', hscan', -, hmem⟩ := exists_scan config 256 (Nat.le_refl _)
    rw [hscan, Option.some.injEq] at hscan'
    subst hscan'
    have hiff := (hmem location).symm.trans (henumerates.mem_iff location)
    rw [and_congr_right_iff] at hiff
    exact hiff hpresent
  · intro hread calls hcalls
    obtain ⟨s, hscan, hnodup, hmem⟩ := exists_scan config calls hcalls
    refine ⟨s, hscan, hnodup, fun location => (hmem location).trans ?_⟩
    exact and_congr_right fun hpresent => hread location hpresent

/-- A hardware is read as told whose first device's cache line says of its
functions what its header says, and whose bridges are each behind the bus
that its device's first function says too. -/
theorem readAsTold_of_alike (hhosts : ∀ bus, bus ∈ hosts config ↔ IsHost config bus)
    (hbridges : ∀ location, config.Present location → config.IsBridge location →
      config.secondaryBus (first location) = config.secondaryBus location) :
    ReadAsTold config := by
  have hedge : (linkage config first).Edge = (linkage config id).Edge := by
    funext bus bus'
    refine propext (exists_congr fun location => and_congr_right fun hmem => ?_)
    have hpresent := (mem_functionsOn.mp hmem).2
    change (if config.IsBridge location then some (config.secondaryBus (first location)) else none)
        = some bus' ↔
      (if config.IsBridge location then some (config.secondaryBus location) else none) = some bus'
    by_cases hbridge : config.IsBridge location
    · rw [if_pos hbridge, if_pos hbridge, hbridges location hpresent hbridge]
    · rw [if_neg hbridge, if_neg hbridge]
  intro location _
  simp only [Reachable, Linkage.ReachFrom, Linkage.Reach, hedge, Set.mem_ofPred_eq, hhosts]

/-! ## A bridge behind a function -/

/-- A register that cannot be written. -/
def fixed (value : BitVec 32) : Register := ⟨value, 0⟩

/-- A host bridge, a device of two functions the second of which is a
bridge to bus 1, and a device behind it. -/
def bridged : ConfigSpace
  | ⟨0, 0, 0⟩, 0x00 => fixed 0x12378086
  | ⟨0, 0, 0⟩, 0x08 => fixed 0x06000002
  | ⟨0, 1, 0⟩, 0x00 => fixed 0x10008086
  | ⟨0, 1, 0⟩, 0x08 => fixed 0x02000000
  | ⟨0, 1, 0⟩, 0x0c => fixed 0x00800000
  | ⟨0, 1, 1⟩, 0x00 => fixed 0x244e8086
  | ⟨0, 1, 1⟩, 0x08 => fixed 0x06040000
  | ⟨0, 1, 1⟩, 0x0c => fixed 0x00810000
  | ⟨0, 1, 1⟩, 0x18 => fixed 0x00010100
  | ⟨1, 0, 0⟩, 0x00 => fixed 0x100e8086
  | ⟨1, 0, 0⟩, 0x08 => fixed 0x02000000
  | _, 0x00 => fixed 0xffffffff
  | _, _ => fixed 0

theorem bridged_items : ∀ location ∈ bridged.functionsOn 0,
    (linkage bridged first).next location = none ∨
      (linkage bridged first).next location = some 0 := by
  decide +kernel

/-- The device behind the bridge is not found. -/
theorem not_scans_bridged : ¬Scans bridged := by
  intro hscans
  obtain ⟨s, hscan, henumerates⟩ := hscans 256 (Nat.le_refl _)
  obtain ⟨s', hscan', -, hmem⟩ := exists_scan bridged 256 (Nat.le_refl _)
  rw [hscan, Option.some.injEq] at hscan'
  subst hscan'
  have hpresent : bridged.Present ⟨1, 0, 0⟩ := ⟨by decide, by decide, by decide, Or.inl rfl⟩
  have hbridge : bridged.Present ⟨0, 1, 1⟩ :=
    ⟨by decide, by decide, by decide, Or.inr ⟨by decide, by decide⟩⟩
  have hreachable : Reachable bridged 1 := by
    refine ⟨0, Or.inl rfl, Relation.ReflTransGen.single ⟨⟨0, 1, 1⟩, ?_, by decide⟩⟩
    exact mem_functionsOn.mpr ⟨rfl, hbridge⟩
  have hfound := (hmem ⟨1, 0, 0⟩).mp ((henumerates.mem_iff ⟨1, 0, 0⟩).mpr ⟨hpresent, hreachable⟩)
  obtain ⟨host, hhost, hreach⟩ := hfound.2
  -- no function of bus 0 leads away from it
  have hzero : ∀ bus, (linkage bridged first).Reach host bus → bus = 0 := by
    intro bus hbus
    induction hbus with
    | refl =>
      have hhosts : hosts bridged = [0] := by decide
      have hhost' : host ∈ hosts bridged := hhost
      rw [hhosts, List.mem_singleton] at hhost'
      exact hhost'
    | tail _ hedge ih =>
      obtain ⟨location, hitem, hnext⟩ := hedge
      rw [ih] at hitem
      rcases bridged_items location hitem with hnone | hsame
      · rw [hnone] at hnext
        cases hnext
      · rw [hsame, Option.some.injEq] at hnext
        exact hnext.symm
  exact absurd (hzero 1 hreach) (by decide)

end Pci

end Uberos
