import Uberos.Multiboot.Model
/-!
# The walks over what the boot loader hands over

What `init_multiboot1` and `init_multiboot2` read, and whether they end.
Neither loop over a memory map stops at the end of the map that the boot
loader gives: the one of `multiboot1` compares a pointer with itself plus
the length of the map, the one of `multiboot2` with what a tag says its
size is, and neither loop goes on from an entry that is no bytes long.
So the walks stay inside what is handed over for the maps below, and for
no others.
-/

namespace Uberos

open Library Library.Scan

namespace Multiboot

variable {T : Target} {image : Image} {P : Read → Prop} {m : Memory} {boot : Boot}

/-! ## The command line -/

/-- The characters at a pointer. -/
def textAt (T : Target) (m : Memory) (pointer i : ℕ) : UInt8 := m (advance T pointer i)

/-- Where a character of a text is read. -/
def characterAt (T : Target) (pointer i : ℕ) : Read := ⟨.commandLine, advance T pointer i, 1⟩

/-- What is searched for. -/
def safemodeAt (i : ℕ) : UInt8 := safemode.getD i 0

/-- **The search of a command line ends**, at its null or where it finds
`safemode`, and what it reads satisfies `P`. -/
def CommandLineEnds (T : Target) (P : Read → Prop) (m : Memory) (cmdline : ℕ) : Prop :=
  ∃ k, (∀ i < k, textAt T m cmdline i ≠ 0 ∧
      ¬Stdlib.FoundAt (textAt T m cmdline) safemodeAt 8 i) ∧
    (∀ i ≤ k, Stdlib.ComparedAt (textAt T m cmdline) safemodeAt
      (fun i => P (characterAt T cmdline i)) 8 i) ∧
    (textAt T m cmdline k = 0 ∨ (Stdlib.FoundAt (textAt T m cmdline) safemodeAt 8 k ∧
      (k = 0 ∨ textAt T m cmdline (k - 1) = 0x20 → P (characterAt T cmdline (k + 8)))))

theorem shows_text (cmdline : ℕ) : Stdlib.Shows P m (text T cmdline) (textAt T m cmdline)
    fun i => P (characterAt T cmdline i) :=
  fun _ => yields_read

theorem meets_strlen_safemode :
    Meets P m (Stdlib.strlen (Stdlib.literal safemode : Stdlib.Text Memory Read)) 8 := by
  refine (Stdlib.meets_strlen (Stdlib.shows_literal safemode)).2
    ⟨fun i hi => ?_, trivial, by decide⟩
  exact ⟨trivial, by decide +revert⟩

/-- What is read of a command line. -/
theorem exists_meets_initCommandlineParameter {cmdline : ℕ} :
    (∃ boot', Meets P m (initCommandlineParameter T cmdline boot) boot') ↔
      CommandLineEnds T P m cmdline := by
  have htext := shows_text (T := T) (P := P) (m := m) cmdline
  have hname := Stdlib.shows_literal (P := P) (m := m) safemode
  have hsearch : ∀ found,
      Meets P m (Stdlib.strstr (text T cmdline) (Stdlib.literal safemode)) found ↔ _ :=
    fun _ => Stdlib.meets_strstr htext hname meets_strlen_safemode (by decide)
  -- after the search, with the character before it read already
  have hafter : ∀ k, P (characterAt T cmdline (k - 1)) →
      ((∃ boot', Meets P m (checkWord T cmdline k boot) boot') ↔
        ((k = 0 ∨ textAt T m cmdline (k - 1) = 0x20) → P (characterAt T cmdline (k + 8)))) := by
    intro k hbefore
    have hbegins : Yields P m (beginsWord T cmdline k)
        (decide (k = 0 ∨ textAt T m cmdline (k - 1) = 0x20)) True := by
      intro b
      rw [beginsWord]
      split
      · rename_i hzero
        simp [hzero]
      · rename_i hzero
        rw [((htext (k - 1)).map _) b]
        simp [hzero, hbefore]
    rw [checkWord]
    simp only [hbegins.meets_bind, true_and, meets_ite, (htext _).meets_bind, meets_pure]
    grind
  constructor
  · rintro ⟨boot', h⟩
    obtain ⟨found, hfound, hrest⟩ := meets_bind.1 h
    obtain ⟨k, hall, hread, ⟨hnull, rfl⟩ | ⟨hfoundAt, rfl⟩⟩ := (hsearch found).1 hfound
    · exact ⟨k, hall, hread, Or.inl hnull⟩
    · have hbefore := Stdlib.inside_of_comparedAt (hread (k - 1) (Nat.sub_le k 1)) (by decide)
      exact ⟨k, hall, hread, Or.inr ⟨hfoundAt, (hafter k hbefore).1 ⟨boot', hrest⟩⟩⟩
  · rintro ⟨k, hall, hread, hnull | ⟨hfoundAt, hword⟩⟩
    · refine ⟨boot, meets_bind.2 ⟨none, (hsearch none).2 ?_, meets_pure.2 rfl⟩⟩
      exact ⟨k, hall, hread, Or.inl ⟨hnull, rfl⟩⟩
    · have hbefore := Stdlib.inside_of_comparedAt (hread (k - 1) (Nat.sub_le k 1)) (by decide)
      obtain ⟨boot', hrest⟩ := (hafter k hbefore).2 hword
      refine ⟨boot', meets_bind.2 ⟨some k, (hsearch (some k)).2 ?_, hrest⟩⟩
      exact ⟨k, hall, hread, Or.inr ⟨hfoundAt, rfl⟩⟩

/-! ## The maps -/

/-- An entry of a map is an available region that holds the kernel. -/
def Holds (image : Image) (m : Memory) (region entry : ℕ) : Prop :=
  m.number (entry + region + 16) 4 = 1 ∧
    image.In (m.number (entry + region) 8) (m.number (entry + region + 8) 8)

/-- What is read of the region of an entry satisfies `P`. -/
def RegionRead (P : Read → Prop) (m : Memory) (region entry : ℕ) : Prop :=
  P ⟨.map, entry + region + 16, 4⟩ ∧ (m.number (entry + region + 16) 4 = 1 →
    P ⟨.map, entry + region, 8⟩ ∧ P ⟨.map, entry + region + 8, 8⟩)

/-- **What is read of a map**: entries that do not hold the kernel, until
one does or the loop is out of bounds. -/
theorem exists_meets_mapLoop {region start : ℕ} {within : ℕ → Program Bool}
    {next : ℕ → Program ℕ} {bounded boundRead nextRead : ℕ → Prop} {after : ℕ → ℕ}
    [DecidablePred bounded]
    (hwithin : ∀ e, Yields P m (within e) (decide (bounded e)) (boundRead e))
    (hnext : ∀ e, Yields P m (next e) (after e) (nextRead e)) :
    (∃ boot', Meets P m (.loop (mapTurn T image region within next boot) (start, 0)) boot') ↔
      ∃ n, (∀ i < n, boundRead (after^[i] start) ∧ bounded (after^[i] start) ∧
          RegionRead P m region (after^[i] start) ∧ ¬Holds image m region (after^[i] start) ∧
          nextRead (after^[i] start)) ∧
        boundRead (after^[n] start) ∧ (bounded (after^[n] start) →
          RegionRead P m region (after^[n] start) ∧ Holds image m region (after^[n] start)) := by
  have hmore : ∀ s, (∃ s', Meets P m (mapTurn T image region within next boot s) (.inl s')) ↔
      boundRead s.1 ∧ bounded s.1 ∧ RegionRead P m region s.1 ∧ ¬Holds image m region s.1 ∧
        nextRead s.1 := by
    rintro ⟨e, maxAddress⟩
    simp only [mapTurn, (hwithin _).meets_bind, (hnext _).meets_bind, u32, u64,
      yields_read.meets_bind, meets_ite, meets_pure, decide_eq_true_eq, Holds, RegionRead]
    grind
  have hafter : ∀ s s', Meets P m (mapTurn T image region within next boot s) (.inl s') →
      s'.1 = after s.1 := by
    rintro ⟨e, maxAddress⟩ ⟨e', maxAddress'⟩ h
    simp only [mapTurn, (hwithin _).meets_bind, (hnext _).meets_bind, u32, u64,
      yields_read.meets_bind, meets_ite, meets_pure, decide_eq_true_eq] at h
    grind
  have hdone : ∀ s, (∃ boot', Meets P m (mapTurn T image region within next boot s) (.inr boot') ∧
      True) ↔ boundRead s.1 ∧
        (bounded s.1 → RegionRead P m region s.1 ∧ Holds image m region s.1) := by
    rintro ⟨e, maxAddress⟩
    simp only [mapTurn, (hwithin _).meets_bind, (hnext _).meets_bind, u32, u64,
      yields_read.meets_bind, meets_ite, meets_pure, decide_eq_true_eq, Holds, RegionRead]
    grind
  have hpath := exists_reaches_iff (s := (start, 0)) Prod.fst after
    (fun e => boundRead e ∧ bounded e ∧ RegionRead P m region e ∧ ¬Holds image m region e ∧
      nextRead e)
    (fun e => boundRead e ∧ (bounded e → RegionRead P m region e ∧ Holds image m region e))
    (fun _ => True) hmore hafter hdone
  simpa only [meets_loop, and_true] using hpath

/-! ## multiboot1 -/

/-- `multiboot->mmap_addr` -/
def mapAddr (m : Memory) (multiboot : ℕ) : ℕ := m.number (multiboot + 48) 4

/-- `multiboot->mmap_length` -/
def mapLength (m : Memory) (multiboot : ℕ) : ℕ := m.number (multiboot + 44) 4

/-- Bytes are inside the map of `multiboot1`. -/
def InMap (m : Memory) (multiboot address bytes : ℕ) : Prop :=
  mapAddr m multiboot ≤ address ∧
    address + bytes ≤ mapAddr m multiboot + mapLength m multiboot

/-- The loop goes on at an entry. -/
def Bounded1 (T : Target) (m : Memory) (multiboot mmap : ℕ) : Prop :=
  mmap < advance T mmap (map1Bytes * mapLength m multiboot)

instance (multiboot : ℕ) : DecidablePred (Bounded1 T m multiboot) := fun _ =>
  inferInstanceAs (Decidable (_ < _))

/-- The entry after one. -/
def after1 (T : Target) (m : Memory) (mmap : ℕ) : ℕ := advance T mmap (4 + m.number mmap 4)

/-- The entry after so many. -/
def entry1 (T : Target) (m : Memory) (multiboot i : ℕ) : ℕ :=
  (after1 T m)^[i] (mapAddr m multiboot)

/-- **A map of `multiboot1` that is walked inside**: the entries up to one
that holds the kernel, or to where the bound wraps, are in it. -/
def Map1Walked (T : Target) (image : Image) (m : Memory) (multiboot : ℕ) : Prop :=
  ∃ n, (∀ i < n, Bounded1 T m multiboot (entry1 T m multiboot i) ∧
      InMap m multiboot (entry1 T m multiboot i) map1Bytes ∧
      ¬Holds image m 4 (entry1 T m multiboot i)) ∧
    (Bounded1 T m multiboot (entry1 T m multiboot n) →
      InMap m multiboot (entry1 T m multiboot n + 4) 20 ∧
        Holds image m 4 (entry1 T m multiboot n))

/-- What is asked of the reads of `init_multiboot1`. -/
def Inside1 (m : Memory) (multiboot : ℕ) (read : Read) : Prop :=
  read.part = .map → InMap m multiboot read.address read.bytes

theorem inside1_map {multiboot address bytes : ℕ} :
    Inside1 m multiboot ⟨.map, address, bytes⟩ ↔ InMap m multiboot address bytes :=
  ⟨fun h => h rfl, fun h _ => h⟩

/-- An entry that is gone past is read from its first byte to its last. -/
theorem entryRead_iff {multiboot e : ℕ} : RegionRead (Inside1 m multiboot) m 4 e ∧
    Inside1 m multiboot ⟨.map, e, 4⟩ ↔ InMap m multiboot e map1Bytes := by
  simp only [RegionRead, inside1_map, InMap, map1Bytes]
  constructor
  · rintro ⟨⟨htype, -⟩, hsize⟩
    omega
  · intro h
    exact ⟨⟨by omega, fun _ => by omega⟩, by omega⟩

/-- One that holds the kernel is read but for its size. -/
theorem regionRead_iff_of_holds {multiboot e : ℕ} (h : Holds image m 4 e) :
    RegionRead (Inside1 m multiboot) m 4 e ↔ InMap m multiboot (e + 4) 20 := by
  simp only [RegionRead, inside1_map, InMap]
  constructor
  · rintro ⟨htype, hregion⟩
    have hboth := hregion h.1
    omega
  · intro h
    exact ⟨by omega, fun _ => by omega⟩

theorem exists_meets_map1Loop {multiboot : ℕ} :
    (∃ boot', Meets (Inside1 m multiboot) m
      (.loop (map1Turn T image multiboot boot) (mapAddr m multiboot, 0)) boot') ↔
      Map1Walked T image m multiboot := by
  have hinfo : ∀ address bytes, Inside1 m multiboot ⟨.info, address, bytes⟩ :=
    fun _ _ h => Part.noConfusion h
  have hwithin : ∀ e, Yields (Inside1 m multiboot) m (within1 T multiboot e)
      (decide (Bounded1 T m multiboot e)) (Inside1 m multiboot ⟨.info, multiboot + 44, 4⟩) :=
    fun e => yields_read.map _
  have hnext : ∀ e, Yields (Inside1 m multiboot) m (next1 T e) (after1 T m e)
      (Inside1 m multiboot ⟨.map, e, 4⟩) := fun e => yields_read.map _
  have hpast : ∀ e, (Bounded1 T m multiboot e ∧ RegionRead (Inside1 m multiboot) m 4 e ∧
      ¬Holds image m 4 e ∧ Inside1 m multiboot ⟨.map, e, 4⟩) ↔
      Bounded1 T m multiboot e ∧ InMap m multiboot e map1Bytes ∧ ¬Holds image m 4 e := by
    intro e
    rw [← entryRead_iff]
    constructor
    · rintro ⟨hbounded, hread, hnot, hsize⟩
      exact ⟨hbounded, ⟨hread, hsize⟩, hnot⟩
    · rintro ⟨hbounded, ⟨hread, hsize⟩, hnot⟩
      exact ⟨hbounded, hread, hnot, hsize⟩
  rw [map1Turn, exists_meets_mapLoop hwithin hnext, Map1Walked]
  simp only [hinfo, true_and, hpast]
  refine exists_congr fun n => and_congr_right fun _ => imp_congr_right fun _ => ?_
  exact and_congr_left regionRead_iff_of_holds

/-! ## multiboot2 -/

/-- Bytes are inside what `multiboot2` is handed over in. -/
def InBlock (m : Memory) (multiboot address bytes : ℕ) : Prop :=
  multiboot ≤ address ∧ address + bytes ≤ multiboot + m.number multiboot 4

/-- What is asked of the reads of `init_multiboot2`. -/
def Inside2 (m : Memory) (multiboot : ℕ) (read : Read) : Prop :=
  InBlock m multiboot read.address read.bytes

/-- The loop over the map of a tag goes on at an entry. -/
def Bounded2 (T : Target) (m : Memory) (info entry : ℕ) : Prop :=
  entry < advance T info (m.number (info + 4) 4)

instance (info : ℕ) : DecidablePred (Bounded2 T m info) := fun _ =>
  inferInstanceAs (Decidable (_ < _))

/-- The entry after so many. -/
def entry2 (T : Target) (m : Memory) (info i : ℕ) : ℕ :=
  (advance T · (m.number (info + 8) 4))^[i] (advance T info 16)

/-- **A map of `multiboot2` that is walked inside**: the entries up to one
that holds the kernel, or to the end of the tag, are in the block. -/
def Map2Walked (T : Target) (image : Image) (m : Memory) (multiboot info : ℕ) : Prop :=
  ∃ n, (∀ i < n, Bounded2 T m info (entry2 T m info i) ∧
      RegionRead (Inside2 m multiboot) m 0 (entry2 T m info i) ∧
      ¬Holds image m 0 (entry2 T m info i) ∧ InBlock m multiboot (info + 8) 4) ∧
    (Bounded2 T m info (entry2 T m info n) →
      RegionRead (Inside2 m multiboot) m 0 (entry2 T m info n) ∧
        Holds image m 0 (entry2 T m info n))

/-- A tag whose own walk stays inside the block. -/
def TagWalked (T : Target) (image : Image) (m : Memory) (multiboot tag : ℕ) : Prop :=
  InBlock m multiboot tag 8 ∧
    (m.number tag 4 = 1 → CommandLineEnds T (Inside2 m multiboot) m (advance T tag 8)) ∧
    (m.number tag 4 = 6 → Map2Walked T image m multiboot tag)

/-- The tag after one. -/
def afterTag (T : Target) (m : Memory) (tag : ℕ) : ℕ :=
  advance T tag (tagBytes (m.number (tag + 4) 4))

/-- The tag after so many. -/
def tagAt (T : Target) (m : Memory) (multiboot i : ℕ) : ℕ :=
  (afterTag T m)^[i] (advance T multiboot 8)

/-- **Tags that are walked inside**: each of them is, up to one that ends
them. -/
def TagsWalked (T : Target) (image : Image) (m : Memory) (multiboot : ℕ) : Prop :=
  ∃ n, (∀ i < n, m.number (tagAt T m multiboot i) 4 ≠ 0 ∧
      TagWalked T image m multiboot (tagAt T m multiboot i)) ∧
    m.number (tagAt T m multiboot n) 4 = 0 ∧ InBlock m multiboot (tagAt T m multiboot n) 4

theorem exists_meets_map2Loop {multiboot info : ℕ} (hinfo : InBlock m multiboot (info + 4) 4) :
    (∃ boot', Meets (Inside2 m multiboot) m
      (.loop (map2Turn T image info boot) (advance T info 16, 0)) boot') ↔
      Map2Walked T image m multiboot info := by
  have hwithin : ∀ e, Yields (Inside2 m multiboot) m (within2 T info e)
      (decide (Bounded2 T m info e)) (Inside2 m multiboot ⟨.info, info + 4, 4⟩) :=
    fun e => yields_read.map _
  have hnext : ∀ e, Yields (Inside2 m multiboot) m (next2 T info e)
      (advance T e (m.number (info + 8) 4)) (Inside2 m multiboot ⟨.info, info + 8, 4⟩) :=
    fun e => yields_read.map _
  have hsize : Inside2 m multiboot ⟨.info, info + 4, 4⟩ := hinfo
  rw [map2Turn, exists_meets_mapLoop hwithin hnext]
  simp only [hsize, true_and]
  rfl

/-- What is read in the body of the loop over the tags. -/
theorem exists_meets_tagBody {multiboot tag : ℕ} (htag : InBlock m multiboot tag 8) :
    (∃ boot', Meets (Inside2 m multiboot) m (tagBody T image tag (m.number tag 4) boot) boot') ↔
      (m.number tag 4 = 1 → CommandLineEnds T (Inside2 m multiboot) m (advance T tag 8)) ∧
      (m.number tag 4 = 6 → Map2Walked T image m multiboot tag) := by
  generalize m.number tag 4 = type
  have hsize : InBlock m multiboot (tag + 4) 4 := ⟨Nat.le_add_right_of_le htag.1, htag.2⟩
  unfold tagBody
  split
  · simp [exists_meets_initCommandlineParameter]
  · simp [exists_meets_map2Loop hsize]
  · simp
  · rename_i hcommand hmap hframebuffer
    exact iff_of_true ⟨boot, meets_pure.2 rfl⟩ ⟨fun h => (hcommand h).elim, fun h => (hmap h).elim⟩

theorem exists_meets_tagsLoop {multiboot : ℕ} :
    (∃ boot', Meets (Inside2 m multiboot) m
      (.loop (tagTurn T image) (advance T multiboot 8, boot)) boot') ↔
      TagsWalked T image m multiboot := by
  -- a turn goes on where the body ends, with what is set at boot by it
  have hturn : ∀ tag boot r, Meets (Inside2 m multiboot) m (tagTurn T image (tag, boot)) r ↔
      InBlock m multiboot tag 4 ∧ ((m.number tag 4 = 0 ∧ .inr boot = r) ∨ (m.number tag 4 ≠ 0 ∧
        ∃ boot', Meets (Inside2 m multiboot) m (tagBody T image tag (m.number tag 4) boot) boot' ∧
          InBlock m multiboot (tag + 4) 4 ∧ .inl (afterTag T m tag, boot') = r)) := by
    intro tag boot r
    simp only [tagTurn, u32, yields_read.meets_bind, meets_ite, meets_pure, meets_bind]
    rfl
  have hmore : ∀ s, (∃ s', Meets (Inside2 m multiboot) m (tagTurn T image s) (.inl s')) ↔
      m.number s.1 4 ≠ 0 ∧ TagWalked T image m multiboot s.1 := by
    rintro ⟨tag, boot⟩
    simp only [hturn, TagWalked]
    constructor
    · rintro ⟨s', hblock, ⟨-, hend⟩ | ⟨htype, boot', hbody, hsize, -⟩⟩
      · cases hend
      · have htag : InBlock m multiboot tag 8 := ⟨hblock.1, hsize.2⟩
        exact ⟨htype, htag, (exists_meets_tagBody htag).1 ⟨boot', hbody⟩⟩
    · rintro ⟨htype, htag, hwalked⟩
      obtain ⟨boot', hbody⟩ : ∃ boot', Meets (Inside2 m multiboot) m
          (tagBody T image tag (m.number tag 4) boot) boot' := (exists_meets_tagBody htag).2 hwalked
      refine ⟨(afterTag T m tag, boot'), ⟨htag.1, ?_⟩, Or.inr ⟨htype, boot', hbody, ?_, rfl⟩⟩
      · have hle := htag.2
        omega
      · exact ⟨Nat.le_add_right_of_le htag.1, htag.2⟩
  have hafter : ∀ s s', Meets (Inside2 m multiboot) m (tagTurn T image s) (.inl s') →
      s'.1 = afterTag T m s.1 := by
    rintro ⟨tag, boot⟩ s' h
    obtain ⟨-, ⟨-, hend⟩ | ⟨-, boot', -, -, hnext⟩⟩ := (hturn tag boot _).1 h
    · cases hend
    · rw [← Sum.inl.inj hnext]
  have hdone : ∀ s, (∃ boot', Meets (Inside2 m multiboot) m (tagTurn T image s) (.inr boot') ∧
      True) ↔ m.number s.1 4 = 0 ∧ InBlock m multiboot s.1 4 := by
    rintro ⟨tag, boot⟩
    simp only [hturn]
    grind
  have hpath := exists_reaches_iff (s := (advance T multiboot 8, boot)) Prod.fst (afterTag T m)
    (fun tag => m.number tag 4 ≠ 0 ∧ TagWalked T image m multiboot tag)
    (fun tag => m.number tag 4 = 0 ∧ InBlock m multiboot tag 4)
    (fun _ => True) hmore hafter hdone
  simp only [and_true] at hpath
  simp only [meets_loop]
  exact hpath

/-! ## Both -/

/-- What both are to do: end, and read inside what is handed over. -/
def WalksInside (T : Target) (image : Image) (m : Memory) (magic multiboot : ℕ) (boot : Boot) :
    Prop :=
  (∃ boot', Meets (Inside1 m multiboot) m (initMultiboot1 T image magic multiboot boot) boot') ∧
    ∃ boot', Meets (Inside2 m multiboot) m (initMultiboot2 T image magic multiboot boot) boot'

theorem commandLineEnds_inside1 (multiboot : ℕ) {cmdline : ℕ} :
    CommandLineEnds T (Inside1 m multiboot) m cmdline ↔
      CommandLineEnds T (fun _ => True) m cmdline := by
  have hread : ∀ i, Inside1 m multiboot (characterAt T cmdline i) ↔ True :=
    fun i => iff_true_intro fun h => Part.noConfusion h
  simp only [CommandLineEnds, hread]

theorem exists_meets_initMultiboot1 {multiboot : ℕ} :
    (∃ boot', Meets (Inside1 m multiboot) m
      (initMultiboot1 T image 0x2BADB002 multiboot boot) boot') ↔
      (m.number multiboot 4 &&& 4 ≠ 0 →
        CommandLineEnds T (fun _ => True) m (m.number (multiboot + 16) 4)) ∧
      Map1Walked T image m multiboot := by
  have hinfo : ∀ address bytes, Inside1 m multiboot ⟨.info, address, bytes⟩ ↔ True :=
    fun _ _ => iff_true_intro fun h => Part.noConfusion h
  have hmap : ∀ {boot}, (∃ boot', Meets (Inside1 m multiboot) m (u32 .info (multiboot + 48) >>=
      fun mmap_addr => .loop (map1Turn T image multiboot boot) (mmap_addr, 0)) boot') ↔
      Map1Walked T image m multiboot := by
    intro boot
    simp only [u32, yields_read.meets_bind, hinfo, true_and]
    exact exists_meets_map1Loop
  rw [initMultiboot1, if_neg (not_not.2 rfl), u32]
  simp only [yields_read.meets_bind, hinfo, true_and]
  split
  · rename_i hflags
    simp only [u32, yields_read.meets_bind, hinfo, true_and]
    rw [forall_prop_of_true hflags, ← commandLineEnds_inside1 multiboot]
    constructor
    · rintro ⟨boot', h⟩
      obtain ⟨boot'', hcommand, hrest⟩ := meets_bind.1 h
      exact ⟨exists_meets_initCommandlineParameter.1 ⟨boot'', hcommand⟩, hmap.1 ⟨boot', hrest⟩⟩
    · rintro ⟨hcommand, hwalked⟩
      obtain ⟨boot'', hcommand⟩ := exists_meets_initCommandlineParameter.2 hcommand
      obtain ⟨boot', hrest⟩ := hmap.2 hwalked
      exact ⟨boot', meets_bind.2 ⟨boot'', hcommand, hrest⟩⟩
  · rename_i hflags
    rw [and_iff_right fun h => absurd h hflags]
    simp only [yields_pure.meets_bind, true_and]
    exact hmap

/-- **Exactly these maps are walked inside.** -/
theorem walksInside_iff (T : Target) (image : Image) (m : Memory) (magic multiboot : ℕ)
    (boot : Boot) : WalksInside T image m magic multiboot boot ↔
      (magic = 0x2BADB002 → (m.number multiboot 4 &&& 4 ≠ 0 →
          CommandLineEnds T (fun _ => True) m (m.number (multiboot + 16) 4)) ∧
        Map1Walked T image m multiboot) ∧
      (magic = 0x36D76289 → multiboot % 8 = 0 → TagsWalked T image m multiboot) := by
  refine and_congr ?_ ?_
  · by_cases hmagic : magic = 0x2BADB002
    · subst hmagic
      rw [exists_meets_initMultiboot1, forall_prop_of_true rfl]
    · refine iff_of_true ⟨boot, ?_⟩ fun h => absurd h hmagic
      rw [initMultiboot1, if_pos hmagic]
      exact meets_pure.2 rfl
  · by_cases hmagic : magic = 0x36D76289
    · subst hmagic
      by_cases haligned : multiboot % 8 = 0
      · rw [initMultiboot2, if_neg (not_not.2 rfl), if_neg (not_not.2 haligned),
          exists_meets_tagsLoop]
        exact ⟨fun h _ _ => h, fun h => h rfl haligned⟩
      · refine iff_of_true ⟨boot, ?_⟩ fun _ h => absurd h haligned
        rw [initMultiboot2, if_neg (not_not.2 rfl), if_pos haligned]
        exact meets_pure.2 rfl
    · refine iff_of_true ⟨boot, ?_⟩ fun h => absurd h hmagic
      rw [initMultiboot2, if_pos hmagic]
      exact meets_pure.2 rfl

/-- **A tag of no size is never left.** -/
theorem not_tagsWalked_of_stuck {multiboot i : ℕ}
    (hstuck : afterTag T m (tagAt T m multiboot i) = tagAt T m multiboot i)
    (htypes : ∀ j ≤ i, m.number (tagAt T m multiboot j) 4 ≠ 0) :
    ¬TagsWalked T image m multiboot := by
  rintro ⟨n, -, hend, -⟩
  rcases Nat.le_total n i with hle | hle
  · exact htypes n hle hend
  · have hsame : tagAt T m multiboot n = tagAt T m multiboot i := by
      obtain ⟨k, rfl⟩ := Nat.exists_eq_add_of_le' hle
      rw [tagAt, Function.iterate_add_apply]
      exact Function.iterate_fixed hstuck k
    rw [hsame] at hend
    exact htypes i (Nat.le_refl i) hend

/-- **An entry of no size is never left**, where it does not hold the
kernel. -/
theorem not_map2Walked_of_stuck {multiboot info : ℕ}
    (hstuck : advance T (advance T info 16) (m.number (info + 8) 4) = advance T info 16)
    (hbounded : Bounded2 T m info (advance T info 16))
    (hnot : ¬Holds image m 0 (advance T info 16)) : ¬Map2Walked T image m multiboot info := by
  rintro ⟨n, -, hend⟩
  have hsame : entry2 T m info n = advance T info 16 := Function.iterate_fixed hstuck n
  rw [hsame] at hend
  exact hnot (hend hbounded).2

/-! ## What is handed over to no end -/

/-- A kernel at 1MB. -/
def atOneMegabyte : Image := ⟨0x100000, 0x200000, 0x210000⟩

/-- A map of the conventional memory only. -/
def conventional : Memory := fun address =>
  if address = 0x102C then 24
  else if address = 0x1031 then 0x20
  else if address = 0x2000 then 20
  else if address = 0x200D then 0xFC
  else if address = 0x200E then 0x09
  else if address = 0x2014 then 1
  else 0

/-- A tag of no size. -/
def sizeless : Memory := fun address =>
  if address = 0x1000 then 24 else if address = 0x1008 then 4 else 0

/-- **A map in which no region holds the kernel is read past its end, and
a tag of no size is never left.** -/
theorem not_walksInside : ¬WalksInside .x86_32 atOneMegabyte conventional 0x2BADB002 0x1000 {} ∧
    ¬WalksInside .x86_32 atOneMegabyte sizeless 0x36D76289 0x1000 {} := by
  constructor
  · rintro ⟨hwalk, -⟩
    obtain ⟨-, n, hall, hend⟩ := exists_meets_initMultiboot1.1 hwalk
    rcases n with - | n
    · have hholds := (hend (by decide +kernel)).2.2.2
      exact absurd hholds (by decide +kernel)
    rcases n with - | n
    · have hholds := (hend (by decide +kernel)).2.1
      exact absurd hholds (by decide +kernel)
    · have hinside := (hall 1 (by omega)).2.1.2
      exact absurd hinside (by decide +kernel)
  · rintro ⟨-, hwalk⟩
    rw [initMultiboot2, if_neg (by decide), if_neg (by decide), exists_meets_tagsLoop] at hwalk
    refine not_tagsWalked_of_stuck (i := 0) (by decide +kernel) (fun j hj => ?_) hwalk
    rw [Nat.le_zero.1 hj]
    decide +kernel

end Multiboot

end Uberos
