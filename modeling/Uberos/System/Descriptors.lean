import Mathlib.Algebra.Group.Nat.Defs
import Mathlib.Data.List.Basic
import Mathlib.Logic.Function.Basic
import Uberos.Library.Run
/-!
# The descriptor tables

`drivers/x86/system/Gdt.cpp` and `Idt.cpp`, with the processor that reads
the tables they make. A segment is the one that was last asked for, as
long as there are not more than the array has room for; a gate is the one
that was last set, but with entries of 64 bits only where the high half of
the address is what the code puts there. That the calls are made under a
lock is left out.
-/

namespace Uberos

open Library

namespace Gdt

/-- `Gdt::DescriptorSize`. -/
inductive DescriptorSize
  | _16bit
  | _32bit
  | _64bit
  deriving DecidableEq, Repr

/-- `Entry`. -/
structure Entry where
  limitLow : UInt16 := 0
  baseLow : UInt16 := 0
  baseMiddle : UInt8 := 0
  access : UInt8 := 0
  limitHigh : BitVec 4 := 0
  flag64bit : Bool := false
  flag32bit : Bool := false
  flagGranularity4k : Bool := false
  baseHigh : UInt8 := 0
  deriving DecidableEq

/-- What an entry is asked for with. -/
structure Asked where
  base : UInt32
  limit : UInt32
  access : UInt8
  descriptorSize : DescriptorSize
  granularity4k : Bool
  deriving DecidableEq

/-- What `_set_entry` makes an entry. -/
def Asked.entry (a : Asked) : Entry where
  baseLow := (a.base &&& 0xffff).toUInt16
  baseMiddle := (a.base >>> 16 &&& 0xff).toUInt8
  baseHigh := (a.base >>> 24 &&& 0xff).toUInt8
  access := a.access
  limitLow := (a.limit &&& 0xffff).toUInt16
  limitHigh := (a.limit >>> 16 &&& 0x0f).toBitVec.setWidth 4
  flag64bit := a.descriptorSize = ._64bit
  flag32bit := a.descriptorSize = ._32bit
  flagGranularity4k := a.granularity4k

end Gdt

open Gdt in
/-- `count`, `entries` and `gdtr.limit`, and the limit that was loaded
last. -/
structure Gdt where
  count : ℕ
  entries : Fin 32 → Entry
  limit : UInt16
  loaded : Option UInt16

namespace Gdt

/-- What the driver is asked for. -/
inductive Call
  | setEntry (i : ℕ) (asked : Asked)
  | addEntry (asked : Asked)
  | applyEntries
  deriving DecidableEq

/-- As it is before it starts. -/
def initial : Gdt := ⟨0, fun _ => {}, 0xffff, none⟩

/-- `_set_entry`, where the array has the entry. -/
def setEntry (g : Gdt) (i : ℕ) (asked : Asked) : Option Gdt :=
  if h : i / 8 < 32 then some { g with entries := Function.update g.entries ⟨i / 8, h⟩ asked.entry }
  else none

/-- `_add_entry`. -/
def addEntry (g : Gdt) (asked : Asked) : Option Gdt :=
  ({ g with count := g.count + 1 } : Gdt).setEntry (g.count * 8) asked |>.map fun g =>
    { g with limit := .ofNat (g.count * 8 - 1) }

/-- One call. -/
def step (g : Gdt) : Call → Option Gdt
  | .setEntry i asked => g.setEntry i asked
  | .addEntry asked => g.addEntry asked
  | .applyEntries => some { g with loaded := some g.limit }

/-- The null descriptor. -/
def nullDescriptor : Asked := ⟨0, 0, 0, ._32bit, true⟩

/-- `_on_start`. -/
def onStart : List Call :=
  [.addEntry nullDescriptor, .addEntry ⟨0, 0xffffffff, 0x9a, ._32bit, true⟩,
    .addEntry ⟨0, 0xffffffff, 0x92, ._32bit, true⟩, .addEntry ⟨0, 0xffffffff, 0xfa, ._32bit, true⟩,
    .addEntry ⟨0, 0xffffffff, 0xf2, ._32bit, true⟩, .applyEntries]

/-! ## What it is for -/

/-- A segment, with its limit in bytes. -/
structure Segment where
  base : ℕ
  limit : ℕ
  access : UInt8
  is64bit : Bool
  is32bit : Bool
  deriving DecidableEq

/-- What the processor reads out of an entry. -/
def Entry.segment (e : Entry) : Segment where
  base := e.baseLow.toNat + e.baseMiddle.toNat * 2 ^ 16 + e.baseHigh.toNat * 2 ^ 24
  limit :=
    let limit := e.limitLow.toNat + e.limitHigh.toNat * 2 ^ 16
    if e.flagGranularity4k then limit * 4096 + 4095 else limit
  access := e.access
  is64bit := e.flag64bit
  is32bit := e.flag32bit

/-- What was asked for: a limit has twenty bits. -/
def Asked.segment (a : Asked) : Segment where
  base := a.base.toNat
  limit :=
    let limit := a.limit.toNat % 2 ^ 20
    if a.granularity4k then limit * 4096 + 4095 else limit
  access := a.access
  is64bit := a.descriptorSize = ._64bit
  is32bit := a.descriptorSize = ._32bit

/-- The segment of a selector, where the processor finds one: the first
entry is none. -/
def segment (g : Gdt) (selector : ℕ) : Option Segment :=
  if h : selector / 8 < 32 then
    if 0 < selector / 8 ∧ ∃ limit ∈ g.loaded, selector / 8 * 8 + 7 ≤ limit.toNat then
      some (g.entries ⟨selector / 8, h⟩).segment
    else none
  else none

/-- The segments in the order in which they were added, and how many there
were as they were last applied. -/
structure Segments where
  segments : List Segment := []
  applied : ℕ := 0
  deriving DecidableEq

namespace Segments

/-- One call. -/
def step (s : Segments) : Call → Segments
  | .setEntry i asked => { s with segments := s.segments.set (i / 8) asked.segment }
  | .addEntry asked => { s with segments := s.segments ++ [asked.segment] }
  | .applyEntries => { s with applied := s.segments.length }

/-- The segment of a selector. -/
def segment (s : Segments) (selector : ℕ) : Option Segment :=
  if 0 < selector / 8 ∧ selector / 8 < s.applied then s.segments[selector / 8]? else none

end Segments

/-- How many entries some calls add. -/
def added (calls : List Call) : ℕ :=
  calls.countP fun call => match call with
    | .addEntry _ => true
    | _ => false

/-- The array has room for what is added, and what is set. -/
def Fits (calls : List Call) : Prop :=
  added calls ≤ 32 ∧ ∀ i asked, .setEntry i asked ∈ calls → i / 8 < 32

/-! ## One entry -/

theorem toNat_and_mask {x mask : UInt32} {k : ℕ} (h : mask.toNat = 2 ^ k - 1) :
    (x &&& mask).toNat = x.toNat % 2 ^ k := by
  rw [UInt32.toNat_and, h, Nat.and_two_pow_sub_one_eq_mod]

theorem toNat_shiftRight {x k : UInt32} (h : k.toNat < 32) :
    (x >>> k).toNat = x.toNat / 2 ^ k.toNat := by
  rw [UInt32.toNat_shiftRight, Nat.mod_eq_of_lt h, Nat.shiftRight_eq_div_pow]

/-- **An entry says what was asked for.** -/
theorem segment_entry (a : Asked) : a.entry.segment = a.segment := by
  have hbase := a.base.toNat_lt
  have hlow : a.entry.baseLow.toNat = a.base.toNat % 65536 := by
    show ((a.base &&& 0xffff).toUInt16).toNat = _
    rw [UInt32.toNat_toUInt16, toNat_and_mask (k := 16) rfl]
    exact Nat.mod_mod _ _
  have hmiddle : a.entry.baseMiddle.toNat = a.base.toNat / 65536 % 256 := by
    show ((a.base >>> 16 &&& 0xff).toUInt8).toNat = _
    rw [UInt32.toNat_toUInt8, toNat_and_mask (k := 8) rfl, Nat.mod_mod,
      toNat_shiftRight (by decide)]
    rfl
  have hhigh : a.entry.baseHigh.toNat = a.base.toNat / 16777216 % 256 := by
    show ((a.base >>> 24 &&& 0xff).toUInt8).toNat = _
    rw [UInt32.toNat_toUInt8, toNat_and_mask (k := 8) rfl, Nat.mod_mod,
      toNat_shiftRight (by decide)]
    rfl
  have hlimitLow : a.entry.limitLow.toNat = a.limit.toNat % 65536 := by
    show ((a.limit &&& 0xffff).toUInt16).toNat = _
    rw [UInt32.toNat_toUInt16, toNat_and_mask (k := 16) rfl]
    exact Nat.mod_mod _ _
  have hlimitHigh : a.entry.limitHigh.toNat = a.limit.toNat / 65536 % 16 := by
    show ((a.limit >>> 16 &&& 0x0f).toBitVec.setWidth 4).toNat = _
    rw [BitVec.toNat_setWidth, UInt32.toNat_toBitVec, toNat_and_mask (k := 4) rfl, Nat.mod_mod,
      toNat_shiftRight (by decide)]
    rfl
  unfold Entry.segment Asked.segment
  rw [hlow, hmiddle, hhigh, hlimitLow, hlimitHigh]
  refine Segment.mk.injEq .. |>.mpr ⟨?_, ?_, rfl, rfl, rfl⟩
  · omega
  · have hlimit : a.limit.toNat % 65536 + a.limit.toNat / 65536 % 16 * 2 ^ 16 =
        a.limit.toNat % 2 ^ 20 := by omega
    rw [hlimit]
    rfl

/-! ## The table -/

variable {g g' : Gdt} {s : Segments} {calls : List Call} {call : Call} {asked : Asked}

/-- **The table has what was asked for**, and the limits are those of what
there is and of what was applied. -/
structure Follows (g : Gdt) (s : Segments) : Prop where
  count : g.count = s.segments.length
  length_le : s.segments.length ≤ 32
  entries : ∀ k (h : k < 32), k < s.segments.length →
    s.segments[k]? = some (g.entries ⟨k, h⟩).segment
  limit : 0 < s.segments.length → g.limit.toNat = s.segments.length * 8 - 1
  applied : s.applied ≤ s.segments.length
  loaded : ∀ limit ∈ g.loaded, 0 < s.applied ∧ limit.toNat = s.applied * 8 - 1
  not_loaded : g.loaded = none → s.applied = 0

theorem follows_initial : Follows initial {} where
  count := rfl
  length_le := Nat.zero_le _
  entries _ _ hk := absurd hk (Nat.not_lt_zero _)
  limit hpos := absurd hpos (Nat.lt_irrefl _)
  applied := le_rfl
  loaded _ h := absurd h (by simp [initial])
  not_loaded _ := rfl

/-- The processor finds what was applied. -/
theorem Follows.segment_eq (h : Follows g s) (selector : ℕ) :
    g.segment selector = s.segment selector := by
  have happlied := h.applied
  have hlength := h.length_le
  unfold Gdt.segment Segments.segment
  by_cases hfound : 0 < selector / 8 ∧ selector / 8 < s.applied
  · obtain ⟨hpos, hlt⟩ := hfound
    have hloaded : ∃ limit ∈ g.loaded, selector / 8 * 8 + 7 ≤ limit.toNat := by
      cases hload : g.loaded with
      | none => exact absurd (h.not_loaded hload) (by omega)
      | some limit =>
        have hlimit := (h.loaded limit (by rw [hload]; rfl)).2
        exact ⟨limit, rfl, by omega⟩
    rw [dif_pos (by omega), if_pos ⟨hpos, hloaded⟩, if_pos ⟨hpos, hlt⟩]
    exact (h.entries _ _ (by omega)).symm
  · rw [if_neg hfound]
    split
    · rw [if_neg]
      rintro ⟨hpos, limit, hmem, hle⟩
      obtain ⟨happlied, hlimit⟩ := h.loaded limit hmem
      exact hfound ⟨hpos, by omega⟩
    · rfl

theorem Follows.setEntry {i : ℕ} (h : Follows g s) (hset : g.setEntry i asked = some g') :
    Follows g' (s.step (.setEntry i asked)) := by
  unfold Gdt.setEntry at hset
  split at hset
  · rename_i hi
    cases hset
    have hlength : (s.segments.set (i / 8) asked.segment).length = s.segments.length :=
      List.length_set
    refine ⟨h.count.trans hlength.symm, hlength.le.trans h.length_le, fun k hk hlt => ?_,
      fun hpos => ?_, h.applied.trans hlength.ge, h.loaded, h.not_loaded⟩
    · have hlt : k < s.segments.length := hlt.trans_eq hlength
      have hold := h.entries k hk hlt
      show (s.segments.set (i / 8) asked.segment)[k]? = some (Function.update g.entries ⟨i / 8, hi⟩
        asked.entry ⟨k, hk⟩).segment
      rcases eq_or_ne (i / 8) k with rfl | hne
      · rw [Function.update_self, segment_entry, List.getElem?_set_self hlt]
      · rw [Function.update_of_ne fun heq => hne (Fin.mk.inj heq).symm, List.getElem?_set_ne hne]
        exact hold
    · show g.limit.toNat = _
      rw [h.limit (hpos.trans_eq hlength)]
      exact congrArg (· * 8 - 1) hlength.symm
  · cases hset

theorem Follows.addEntry (h : Follows g s) (hadd : g.addEntry asked = some g') :
    Follows g' (s.step (.addEntry asked)) := by
  have hcount := h.count
  unfold Gdt.addEntry Gdt.setEntry at hadd
  rw [Nat.mul_div_cancel _ (by decide : 0 < 8)] at hadd
  split at hadd
  · rename_i hroom
    rw [Option.map_some, Option.some.injEq] at hadd
    subst hadd
    have hlength : (s.segments ++ [asked.segment]).length = s.segments.length + 1 :=
      List.length_append
    have hlimit : (UInt16.ofNat ((g.count + 1) * 8 - 1)).toNat =
        (s.segments ++ [asked.segment]).length * 8 - 1 := by
      have hlt : (g.count + 1) * 8 - 1 < UInt16.size := by
        show _ < 65536
        omega
      rw [UInt16.toNat_ofNat_of_lt' hlt, hlength, hcount]
    refine ⟨?_, ?_, fun k hk hlt => ?_, fun _ => hlimit, ?_, h.loaded, h.not_loaded⟩
    · exact (congrArg (· + 1) hcount).trans hlength.symm
    · exact hlength.le.trans (by omega)
    · have hlt : k < s.segments.length + 1 := hlt.trans_eq hlength
      show (s.segments ++ [asked.segment])[k]? = some (Function.update g.entries ⟨g.count, hroom⟩
        asked.entry ⟨k, hk⟩).segment
      rcases Nat.lt_succ_iff_lt_or_eq.1 hlt with hlt | rfl
      · rw [Function.update_of_ne fun heq => absurd (Fin.mk.inj heq) (by omega),
          List.getElem?_append_left hlt]
        exact h.entries k hk hlt
      · have hsame : (⟨s.segments.length, hk⟩ : Fin 32) = ⟨g.count, hroom⟩ := Fin.ext hcount.symm
        rw [hsame, Function.update_self, segment_entry, List.getElem?_concat_length]
    · exact h.applied.trans (hlength ▸ Nat.le_succ _)
  · cases hadd

theorem Follows.applyEntries (h : Follows g s) (hpos : 0 < s.segments.length) :
    Follows { g with loaded := some g.limit } (s.step .applyEntries) where
  count := h.count
  length_le := h.length_le
  entries := h.entries
  limit := h.limit
  applied := le_rfl
  loaded limit hlimit := by
    cases hlimit
    exact ⟨hpos, h.limit hpos⟩
  not_loaded hnone := absurd hnone (by simp)

/-- **One call.** -/
theorem Follows.step (h : Follows g s) (hpos : 0 < s.segments.length)
    (hstep : g.step call = some g') :
    Follows g' (s.step call) ∧ 0 < (s.step call).segments.length := by
  cases call with
  | setEntry i asked => exact ⟨h.setEntry hstep, hpos.trans_eq List.length_set.symm⟩
  | addEntry asked => exact ⟨h.addEntry hstep, by simp [Segments.step]⟩
  | applyEntries =>
    cases hstep
    exact ⟨h.applyEntries hpos, hpos⟩

theorem isSome_setEntry {i : ℕ} : (g.setEntry i asked).isSome ↔ i / 8 < 32 := by
  unfold setEntry
  split <;> simp_all

theorem isSome_addEntry : (g.addEntry asked).isSome ↔ g.count < 32 := by
  unfold addEntry
  rw [Option.isSome_map, isSome_setEntry]
  show g.count * 8 / 8 < 32 ↔ _
  rw [Nat.mul_div_cancel _ (by decide : 0 < 8)]

theorem added_cons : added (call :: calls) = added [call] + added calls :=
  @List.countP_append _ _ [call] calls

/-- How many there are after a call. -/
theorem count_step (hstep : g.step call = some g') : g'.count = g.count + added [call] := by
  cases call with
  | setEntry i asked =>
    simp only [Gdt.step, setEntry] at hstep
    split at hstep
    · cases hstep
      rfl
    · cases hstep
  | addEntry asked =>
    simp only [Gdt.step, addEntry, setEntry] at hstep
    split at hstep
    · cases hstep
      rfl
    · cases hstep
  | applyEntries =>
    cases hstep
    rfl

/-- It goes well where there is room. -/
theorem isSome_step : (g.step call).isSome ↔
    (0 < added [call] → g.count < 32) ∧ ∀ i asked, call = .setEntry i asked → i / 8 < 32 := by
  cases call with
  | setEntry i asked =>
    refine isSome_setEntry.trans ⟨fun h => ⟨fun hadd => absurd hadd (Nat.lt_irrefl _), ?_⟩,
      fun h => h.2 i asked rfl⟩
    rintro j asked' ⟨⟩
    exact h
  | addEntry asked =>
    refine isSome_addEntry.trans ⟨fun h => ⟨fun _ => h, ?_⟩, fun h => h.1 Nat.one_pos⟩
    rintro i asked' ⟨⟩
  | applyEntries =>
    refine iff_of_true rfl ⟨fun hadd => absurd hadd (Nat.lt_irrefl _), ?_⟩
    rintro i asked' ⟨⟩

/-- **Some calls, from a table that has an entry.** -/
theorem Follows.run (h : Follows g s) (hpos : 0 < s.segments.length) :
    ((calls.foldlM Gdt.step g).isSome ↔ g.count + added calls ≤ 32 ∧
        ∀ i asked, .setEntry i asked ∈ calls → i / 8 < 32) ∧
      ∀ g' ∈ calls.foldlM Gdt.step g, Follows g' (Library.run Segments.step s calls) := by
  induction calls generalizing g s with
  | nil =>
    refine ⟨iff_of_true rfl ⟨?_, fun _ _ hmem => absurd hmem List.not_mem_nil⟩, ?_⟩
    · exact h.count.le.trans h.length_le
    · rintro g' ⟨⟩
      exact h
  | cons call calls ih =>
    rw [List.foldlM_cons, added_cons]
    cases hstep : g.step call with
    | none =>
      have hnot := isSome_step.not.1 (by rw [hstep]; exact Bool.false_ne_true)
      refine ⟨iff_of_false Bool.false_ne_true fun ⟨hroom, hsets⟩ => hnot ⟨fun hadd => by omega, ?_⟩,
        fun g' hg' => by cases hg'⟩
      rintro i asked rfl
      exact hsets i asked List.mem_cons_self
    | some g₁ =>
      obtain ⟨hfollows, hpos⟩ := h.step hpos hstep
      obtain ⟨hsome, hrun⟩ := ih hfollows hpos
      have hcan := isSome_step.1 (by rw [hstep]; rfl)
      refine ⟨hsome.trans ?_, hrun⟩
      rw [count_step hstep, Nat.add_assoc]
      refine and_congr_right fun _ => ⟨fun hsets i asked hmem => ?_, fun hsets i asked hmem =>
        hsets i asked (List.mem_cons_of_mem _ hmem)⟩
      rcases List.mem_cons.1 hmem with heq | hmem
      · exact hcan.2 i asked heq.symm
      · exact hsets i asked hmem

/-- **The segments are those that were asked for**, with limits of twenty
bits, as far as they were applied; and the array is not overrun just where
no more than 32 are added, the first five of them by the start, and none
is set beyond. -/
theorem segments_run (calls : List Call) :
    (((onStart ++ calls).foldlM step initial).isSome ↔ Fits (onStart ++ calls)) ∧
      ∀ g ∈ (onStart ++ calls).foldlM step initial, ∀ selector,
        g.segment selector = (run Segments.step {} (onStart ++ calls)).segment selector := by
  obtain ⟨g₁, hfirst⟩ := Option.isSome_iff_exists.1
    (show (initial.step (.addEntry nullDescriptor)).isSome from isSome_addEntry.2 (by decide))
  have hfollows := follows_initial.addEntry hfirst
  have hcount : g₁.count = 1 := count_step hfirst
  have hcons : onStart ++ calls = .addEntry nullDescriptor :: (onStart.tail ++ calls) := rfl
  have hfold : (onStart ++ calls).foldlM step initial = (onStart.tail ++ calls).foldlM step g₁ := by
    rw [hcons, List.foldlM_cons, hfirst]
    rfl
  obtain ⟨hsome, hrun⟩ := @Follows.run _ _ (onStart.tail ++ calls) hfollows Nat.one_pos
  rw [hfold, hsome, hcount, Fits]
  refine ⟨?_, fun g hg selector => (hrun g hg).segment_eq selector⟩
  rw [hcons, added_cons]
  refine and_congr_right fun _ => ⟨fun hsets i asked hmem => ?_, fun hsets i asked hmem =>
    hsets i asked (List.mem_cons_of_mem _ hmem)⟩
  rcases List.mem_cons.1 hmem with heq | hmem
  · cases heq
  · exact hsets i asked hmem

end Gdt

namespace Idt

/-- `Entry`, of the build of 32 bits. -/
structure Entry32 where
  isrLow : UInt16 := 0
  kernelCs : UInt16 := 0
  attributes : UInt8 := 0
  isrHigh : UInt16 := 0
  deriving DecidableEq

/-- `Entry`, of the build of 64 bits. -/
structure Entry64 where
  isrLow : UInt16 := 0
  kernelCs : UInt16 := 0
  ist : UInt8 := 0
  attributes : UInt8 := 0
  isrMid : UInt16 := 0
  isrHigh : UInt32 := 0
  deriving DecidableEq

/-- What `_set_entry` makes an entry of 32 bits. -/
def entry32 (kernelCs : UInt16) (isr : UInt32) (flags : UInt8) : Entry32 where
  isrLow := (isr &&& 0xffff).toUInt16
  kernelCs := kernelCs
  attributes := flags
  isrHigh := (isr >>> 16).toUInt16

/-- What it makes one of 64 bits, with the low half of the address in
`isr_high` as well. -/
def entry64 (kernelCs : UInt16) (isr : UInt64) (flags : UInt8) : Entry64 where
  isrLow := (isr.toUInt32 &&& 0xffff).toUInt16
  kernelCs := kernelCs
  ist := 0
  attributes := flags
  isrMid := (isr.toUInt32 >>> 16 &&& 0xffff).toUInt16
  isrHigh := isr.toUInt32 >>> 16 &&& 0xffffffff

/-- What the processor reads out of an entry. -/
structure Gate where
  isr : ℕ := 0
  kernelCs : UInt16 := 0
  attributes : UInt8 := 0
  deriving DecidableEq

/-- It reads one of 32 bits. -/
def Entry32.gate (e : Entry32) : Gate :=
  ⟨e.isrLow.toNat + e.isrHigh.toNat * 2 ^ 16, e.kernelCs, e.attributes⟩

/-- It reads one of 64 bits. -/
def Entry64.gate (e : Entry64) : Gate :=
  ⟨e.isrLow.toNat + e.isrMid.toNat * 2 ^ 16 + e.isrHigh.toNat * 2 ^ 32, e.kernelCs, e.attributes⟩

/-- **An address of 32 bits is read as it was written.** -/
theorem gate_entry32 (kernelCs : UInt16) (isr : UInt32) (flags : UInt8) :
    (entry32 kernelCs isr flags).gate = ⟨isr.toNat, kernelCs, flags⟩ := by
  have hisr := isr.toNat_lt
  have hlow : (entry32 kernelCs isr flags).isrLow.toNat = isr.toNat % 65536 := by
    show ((isr &&& 0xffff).toUInt16).toNat = _
    rw [UInt32.toNat_toUInt16, Gdt.toNat_and_mask (k := 16) rfl]
    exact Nat.mod_mod _ _
  have hhigh : (entry32 kernelCs isr flags).isrHigh.toNat = isr.toNat / 65536 % 65536 := by
    show ((isr >>> 16).toUInt16).toNat = _
    rw [UInt32.toNat_toUInt16, Gdt.toNat_shiftRight (by decide)]
    rfl
  unfold Entry32.gate
  rw [hlow, hhigh]
  refine congrArg (Gate.mk · kernelCs flags) ?_
  omega

/-- **One of 64 bits is where its high half is what `isr_high` is given.** -/
theorem gate_entry64_iff (kernelCs : UInt16) (isr : UInt64) (flags : UInt8) :
    (entry64 kernelCs isr flags).gate = ⟨isr.toNat, kernelCs, flags⟩ ↔
      isr.toNat / 2 ^ 32 = isr.toNat % 2 ^ 32 / 2 ^ 16 := by
  have hisr := isr.toNat_lt
  have hlow : (entry64 kernelCs isr flags).isrLow.toNat = isr.toNat % 4294967296 % 65536 := by
    show ((isr.toUInt32 &&& 0xffff).toUInt16).toNat = _
    rw [UInt32.toNat_toUInt16, Gdt.toNat_and_mask (k := 16) rfl, UInt64.toNat_toUInt32]
    exact Nat.mod_mod _ _
  have hmid : (entry64 kernelCs isr flags).isrMid.toNat =
      isr.toNat % 4294967296 / 65536 % 65536 := by
    show ((isr.toUInt32 >>> 16 &&& 0xffff).toUInt16).toNat = _
    rw [UInt32.toNat_toUInt16, Gdt.toNat_and_mask (k := 16) rfl, Nat.mod_mod,
      Gdt.toNat_shiftRight (by decide), UInt64.toNat_toUInt32]
    rfl
  have hhigh : (entry64 kernelCs isr flags).isrHigh.toNat =
      isr.toNat % 4294967296 / 65536 % 4294967296 := by
    show (isr.toUInt32 >>> 16 &&& 0xffffffff).toNat = _
    rw [Gdt.toNat_and_mask (k := 32) rfl, Gdt.toNat_shiftRight (by decide), UInt64.toNat_toUInt32]
    rfl
  have hsame : (entry64 kernelCs isr flags).gate = ⟨isr.toNat, kernelCs, flags⟩ ↔
      isr.toNat % 4294967296 % 65536 + isr.toNat % 4294967296 / 65536 % 65536 * 65536 +
        isr.toNat % 4294967296 / 65536 % 4294967296 * 4294967296 = isr.toNat := by
    unfold Entry64.gate
    rw [hlow, hmid, hhigh, Gate.mk.injEq]
    exact and_iff_left ⟨rfl, rfl⟩
  rw [hsame]
  show _ ↔ isr.toNat / 4294967296 = isr.toNat % 4294967296 / 65536
  have hhalf : isr.toNat % 4294967296 / 65536 < 65536 := by omega
  rw [Nat.mod_eq_of_lt hhalf, Nat.mod_eq_of_lt (hhalf.trans (by decide))]
  omega

/-- What the builds differ in. -/
structure Build (Address Entry : Type) where
  /-- `sizeof(Entry)`. -/
  size : ℕ
  /-- What `_set_entry` makes an entry. -/
  entry : UInt16 → Address → UInt8 → Entry
  /-- An entry as it is at first. -/
  zero : Entry
  toNat : Address → ℕ
  gate : Entry → Gate
  /-- The addresses that are read as they were written. -/
  Reads : Address → Prop
  size_eq : size = 8 ∨ size = 16
  gate_zero : gate zero = {}
  gate_entry_iff : ∀ kernelCs isr flags,
    gate (entry kernelCs isr flags) = ⟨toNat isr, kernelCs, flags⟩ ↔ Reads isr

/-- The build of 32 bits. -/
def build32 : Build UInt32 Entry32 where
  size := 8
  entry := entry32
  zero := {}
  toNat := UInt32.toNat
  gate := Entry32.gate
  Reads _ := True
  size_eq := Or.inl rfl
  gate_zero := rfl
  gate_entry_iff kernelCs isr flags := iff_of_true (gate_entry32 kernelCs isr flags) trivial

/-- The build of 64 bits. -/
def build64 : Build UInt64 Entry64 where
  size := 16
  entry := entry64
  zero := {}
  toNat := UInt64.toNat
  gate := Entry64.gate
  Reads isr := isr.toNat / 2 ^ 32 = isr.toNat % 2 ^ 32 / 2 ^ 16
  size_eq := Or.inr rfl
  gate_zero := rfl
  gate_entry_iff := gate_entry64_iff

end Idt

/-- `entries` and `entryCount`, and the limit that was loaded last. -/
structure Idt (Entry : Type) where
  entries : UInt8 → Entry
  entryCount : ℕ
  loaded : Option UInt16

namespace Idt

variable {Address Entry : Type} (b : Build Address Entry) (kernelCs : UInt16)

/-- What the driver is asked for. -/
inductive Call (Address : Type)
  | setGateTrap (i : UInt8) (isr : Address)
  | setGateInterrupt (i : UInt8) (isr : Address)
  | applyGates
  deriving DecidableEq

/-- `_set_entry`. -/
def setEntry (t : Idt Entry) (i : UInt8) (isr : Address) (flags : UInt8) : Idt Entry :=
  { t with
    entries := Function.update t.entries i (b.entry kernelCs isr flags)
    entryCount := max t.entryCount (i.toNat + 1) }

/-- One call. -/
def step (t : Idt Entry) : Call Address → Idt Entry
  | .setGateTrap i isr => t.setEntry b kernelCs i isr 0x8f
  | .setGateInterrupt i isr => t.setEntry b kernelCs i isr 0x8e
  | .applyGates => { t with loaded := some (.ofNat (b.size * t.entryCount) - 1) }

/-- As it is at first. -/
def initial : Idt Entry := ⟨fun _ => b.zero, 0, none⟩

/-! ## What it is for -/

/-- The gate of an interrupt, where the processor finds an entry. -/
def gateOf (t : Idt Entry) (i : UInt8) : Option Gate :=
  if ∃ limit ∈ t.loaded, i.toNat * b.size + b.size - 1 ≤ limit.toNat then
    some (b.gate (t.entries i))
  else none

/-- The gates as they were last set, one more than the greatest number
that was, and what that was as they were last applied. -/
structure Gates where
  gates : UInt8 → Gate := fun _ => {}
  count : ℕ := 0
  applied : Option ℕ := none

namespace Gates

/-- A gate is set. -/
def set (s : Gates) (i : UInt8) (gate : Gate) : Gates :=
  { s with gates := Function.update s.gates i gate, count := max s.count (i.toNat + 1) }

/-- One call. -/
def step (s : Gates) : Call Address → Gates
  | .setGateTrap i isr => s.set i ⟨b.toNat isr, kernelCs, 0x8f⟩
  | .setGateInterrupt i isr => s.set i ⟨b.toNat isr, kernelCs, 0x8e⟩
  | .applyGates => { s with applied := some s.count }

/-- The gate of an interrupt: where none was set before the first were
applied, the processor finds all. -/
def gateOf (s : Gates) (i : UInt8) : Option Gate :=
  if ∃ count ∈ s.applied, count = 0 ∨ i.toNat < count then some (s.gates i) else none

end Gates

/-- What a call sets is read as it was written. -/
def Reads : Call Address → Prop
  | .setGateTrap _ isr => b.Reads isr
  | .setGateInterrupt _ isr => b.Reads isr
  | .applyGates => True

/-- The table, beside the gates. -/
def stepGates (s : Idt Entry × Gates) (call : Call Address) : Idt Entry × Gates :=
  (s.1.step b kernelCs call, s.2.step b kernelCs call)

/-- **The processor has the gates**: each entry says what was set, and is
found just where it is to be. -/
def Has (s : Idt Entry × Gates) : Prop :=
  (∀ i, b.gate (s.1.entries i) = s.2.gates i) ∧ ∀ i, s.1.gateOf b i = s.2.gateOf i

/-! ## The table -/

variable {b kernelCs} {s : Idt Entry × Gates} {i : UInt8} {isr : Address} {flags : UInt8}

/-- What the table follows the gates by. -/
structure Follows (b : Build Address Entry) (s : Idt Entry × Gates) : Prop where
  entries : ∀ i, b.gate (s.1.entries i) = s.2.gates i
  count : s.1.entryCount = s.2.count
  count_le : s.2.count ≤ 256
  loaded : s.1.loaded = s.2.applied.map fun count => .ofNat (b.size * count) - 1
  applied_le : ∀ count ∈ s.2.applied, count ≤ 256

/-- The limit that is loaded. -/
theorem toNat_limit (b : Build Address Entry) {count : ℕ} (h : count ≤ 256) :
    (UInt16.ofNat (b.size * count) - 1).toNat =
      if count = 0 then 65535 else b.size * count - 1 := by
  have hlt : b.size * count < UInt16.size := by
    show _ < 65536
    rcases b.size_eq with hsize | hsize <;> rw [hsize] <;> omega
  rw [UInt16.toNat_sub, UInt16.toNat_ofNat_of_lt' hlt]
  show (65536 - 1 + b.size * count) % 65536 = _
  have hlt : b.size * count < 65536 := hlt
  split
  · rename_i hzero
    rw [hzero, Nat.mul_zero]
  · rcases b.size_eq with hsize | hsize <;> rw [hsize] at hlt ⊢ <;> omega

/-- **The processor finds just the gates that there were as they were
applied.** -/
theorem Follows.gateOf_eq (h : Follows b s) (i : UInt8) : s.1.gateOf b i = s.2.gateOf i := by
  have hi := i.toNat_lt
  unfold Idt.gateOf Gates.gateOf
  rw [h.loaded, h.entries]
  refine if_congr ?_ rfl rfl
  cases happlied : s.2.applied with
  | none => simp
  | some count =>
    have hle := h.applied_le count happlied
    simp only [Option.map_some, Option.mem_some_iff, exists_eq_left', toNat_limit b hle]
    split
    · rename_i hzero
      refine iff_of_true ?_ (Or.inl hzero)
      rcases b.size_eq with hsize | hsize <;> rw [hsize] <;> omega
    · rename_i hpos
      rcases b.size_eq with hsize | hsize <;> rw [hsize] <;> omega

theorem Follows.has (h : Follows b s) : Has b s := ⟨h.entries, h.gateOf_eq⟩

theorem follows_initial : Follows b (initial b, {}) where
  entries _ := b.gate_zero
  count := rfl
  count_le := Nat.zero_le _
  loaded := rfl
  applied_le _ h := by cases h

/-- A gate is set. -/
theorem Follows.setEntry (h : Follows b s) (hreads : b.Reads isr) :
    Follows b (s.1.setEntry b kernelCs i isr flags, s.2.set i ⟨b.toNat isr, kernelCs, flags⟩) where
  entries j := by
    show b.gate (Function.update s.1.entries i _ j) = Function.update s.2.gates i _ j
    rcases eq_or_ne j i with rfl | hne
    · rw [Function.update_self, Function.update_self, (b.gate_entry_iff _ _ _).2 hreads]
    · rw [Function.update_of_ne hne, Function.update_of_ne hne, h.entries]
  count := congrArg (max · _) h.count
  count_le := max_le h.count_le i.toNat_lt
  loaded := h.loaded
  applied_le := h.applied_le

/-- It is read as it was set only if its address is. -/
theorem reads_of_has
    (h : Has b (s.1.setEntry b kernelCs i isr flags, s.2.set i ⟨b.toNat isr, kernelCs, flags⟩)) :
    b.Reads isr := by
  have hentry := h.1 i
  simp only [setEntry, Gates.set, Function.update_self] at hentry
  exact (b.gate_entry_iff _ _ _).1 hentry

/-- They are applied. -/
theorem Follows.applyGates (h : Follows b s) :
    Follows b (stepGates b kernelCs s .applyGates) where
  entries := h.entries
  count := h.count
  count_le := h.count_le
  loaded := by
    show some _ = some _
    rw [h.count]
  applied_le count hcount := by
    cases hcount
    exact h.count_le

/-- **One call.** -/
theorem Follows.step (h : Follows b s) {call : Call Address} (hreads : Reads b call) :
    Follows b (stepGates b kernelCs s call) := by
  cases call with
  | setGateTrap i isr => exact h.setEntry hreads
  | setGateInterrupt i isr => exact h.setEntry hreads
  | applyGates => exact h.applyGates

/-- **The processor has the gates throughout just where each address is
read as it was written.** -/
theorem has_run_iff (calls : List (Call Address)) :
    Throughout (stepGates b kernelCs) (Has b) (initial b, {}) calls ↔
      ∀ call ∈ calls, Reads b call := by
  rw [← along_iff_forall]
  refine throughout_iff_along_of_invariant follows_initial (fun _ h => h.has)
    (fun s call h => ⟨fun hhas => ?_, fun hreads => (h.step hreads).has⟩)
    (fun s call h hreads => h.step hreads) calls
  cases call with
  | setGateTrap i isr => exact reads_of_has hhas
  | setGateInterrupt i isr => exact reads_of_has hhas
  | applyGates => trivial

/-- **With entries of 32 bits the processor has the gates throughout.** -/
theorem gates_run (kernelCs : UInt16) (calls : List (Call UInt32)) :
    Throughout (stepGates build32 kernelCs) (Has build32) (initial build32, {}) calls := by
  refine (has_run_iff calls).2 fun call _ => ?_
  cases call <;> trivial

/-- **With entries of 64 bits it has them just where the high half of each
address is what its low half is shifted down by sixteen**, as no address
in the high half of memory is. -/
theorem gates_run_iff (kernelCs : UInt16) (calls : List (Call UInt64)) :
    Throughout (stepGates build64 kernelCs) (Has build64) (initial build64, {}) calls ↔
      ∀ i isr, .setGateTrap i isr ∈ calls ∨ .setGateInterrupt i isr ∈ calls →
        isr.toNat / 2 ^ 32 = isr.toNat % 2 ^ 32 / 2 ^ 16 := by
  refine (has_run_iff calls).trans ⟨fun h i isr hmem => ?_, fun h call hmem => ?_⟩
  · rcases hmem with hmem | hmem
    · exact h _ hmem
    · exact h _ hmem
  · cases call with
    | setGateTrap i isr => exact h i isr (Or.inl hmem)
    | setGateInterrupt i isr => exact h i isr (Or.inr hmem)
    | applyGates => trivial

end Idt

end Uberos
