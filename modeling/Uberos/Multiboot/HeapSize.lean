import Uberos.Multiboot.Walks
/-!
# The size of the heap

`memory::heapSize` as `init_multiboot1` and `init_multiboot2` set it, from
the first region of a memory map that holds the kernel. That is looked for
by the end of the kernel, while the heap starts after the stack behind it;
and the end of the region is cut to a word before the heap is taken off.
-/

namespace Uberos

open Library Library.Scan

namespace Multiboot

variable {T : Target} {image : Image} {m : Memory} {boot boot' : Boot}

/-! ## What it is for -/

/-- `KERNEL_STACK_SIZE` -/
def kernelStackSize : ℕ := 4096 * 4

/-- **The heap is after the kernel and its stack**, all within a word. -/
def Image.Linked (T : Target) (image : Image) : Prop :=
  image.heap = image.stop + kernelStackSize ∧ image.heap < T.wordSize

instance : Decidable (image.Linked T) := inferInstanceAs (Decidable (_ ∧ _))

/-- A region of a memory map. -/
structure Region where
  addr : ℕ
  len : ℕ
  deriving DecidableEq, Repr

/-- The region of an entry. -/
def regionOf (m : Memory) (region entry : ℕ) : Region :=
  ⟨m.number (entry + region) 8, m.number (entry + region + 8) 8⟩

/-- What the loop over a map finds from an entry on: the first region that
holds the kernel, or none within bounds. -/
inductive MapFinds (image : Image) (m : Memory) (region : ℕ) (bounded : ℕ → Prop)
    (after : ℕ → ℕ) : ℕ → Option Region → Prop
  | found {e : ℕ} : bounded e → Holds image m region e →
      MapFinds image m region bounded after e (some (regionOf m region e))
  | ended {e : ℕ} : ¬ bounded e → MapFinds image m region bounded after e none
  | past {e : ℕ} {r : Option Region} : bounded e → ¬ Holds image m region e →
      MapFinds image m region bounded after (after e) r →
      MapFinds image m region bounded after e r

/-- What is found in the map of `multiboot1`. -/
def Map1Finds (T : Target) (image : Image) (m : Memory) (multiboot : ℕ) : Option Region → Prop :=
  MapFinds image m 4 (Bounded1 T m multiboot) (after1 T m) (mapAddr m multiboot)

/-- What is found in a tag of `multiboot2`, if it is a map. -/
def TagFinds (T : Target) (image : Image) (m : Memory) (tag : ℕ) (r : Option Region) : Prop :=
  if m.number tag 4 = 6 then
    MapFinds image m 0 (Bounded2 T m tag) (advance T · (m.number (tag + 8) 4)) (advance T tag 16) r
  else r = none

/-- The tags of `multiboot2` that were gone through, with what is set by
then and the region that was found last. -/
inductive TagsFind (T : Target) (image : Image) (m : Memory) (multiboot : ℕ) (boot : Boot) :
    ℕ → Boot → Option Region → Prop
  | start : TagsFind T image m multiboot boot (advance T multiboot 8) boot none
  | next {tag tag' : ℕ} {b b' : Boot} {last r : Option Region} :
      TagsFind T image m multiboot boot tag b last →
      Meets (fun _ => True) m (tagTurn T image (tag, b)) (.inl (tag', b')) →
      TagFinds T image m tag r → TagsFind T image m multiboot boot tag' b' (r.or last)

/-- **`heapSize` is set from a region**, by `init_multiboot1` at its end or
by `init_multiboot2` after any of its tags. -/
inductive Sets (T : Target) (image : Image) (m : Memory) (magic multiboot : ℕ) (boot : Boot) :
    Boot → Region → Prop
  | multiboot1 {boot' : Boot} {region : Region} : magic = 0x2BADB002 →
      Meets (fun _ => True) m (initMultiboot1 T image magic multiboot boot) boot' →
      Map1Finds T image m multiboot (some region) →
      Sets T image m magic multiboot boot boot' region
  | multiboot2 {tag : ℕ} {boot' : Boot} {region : Region} : magic = 0x36D76289 →
      multiboot % 8 = 0 → TagsFind T image m multiboot boot tag boot' (some region) →
      Sets T image m magic multiboot boot boot' region

/-- **The heap ends where the region does**, or with the addresses there
are if that is before. -/
def Filled (T : Target) (image : Image) (boot : Boot) (region : Region) : Prop :=
  image.heap + boot.heapSize = min (region.addr + region.len) T.wordSize

/-- **The region goes on to the heap and ends within a word**, or where a
number of words ends. -/
def Region.Fits (T : Target) (image : Image) (region : Region) : Prop :=
  image.heap ≤ region.addr + region.len ∧
    (region.addr + region.len < T.wordSize ∨ T.wordSize ∣ region.addr + region.len)

instance (region : Region) : Decidable (region.Fits T image) := inferInstanceAs (Decidable (_ ∧ _))

/-! ## What is set -/

/-- `heapSize`, of what was found. -/
def heapSizeFrom (T : Target) (image : Image) (heapSize : ℕ) : Option Region → ℕ
  | some region => heapSizeOf T image region.addr region.len
  | none => heapSize

/-- A map is looked through as far as the loop over it goes, which sets
what it finds. -/
theorem heapSize_mapLoop {region start maxAddress : ℕ} {within : ℕ → Program Bool}
    {next : ℕ → Program ℕ} {bounded boundRead nextRead : ℕ → Prop} {after : ℕ → ℕ}
    [DecidablePred bounded]
    (hwithin : ∀ e, Yields (fun _ => True) m (within e) (decide (bounded e)) (boundRead e))
    (hnext : ∀ e, Yields (fun _ => True) m (next e) (after e) (nextRead e))
    (h : Meets (fun _ => True) m
      (.loop (mapTurn T image region within next boot) (start, maxAddress)) boot') :
    ∃ r, MapFinds image m region bounded after start r ∧
      boot'.heapSize = heapSizeFrom T image boot.heapSize r := by
  have hpath := meets_loop.1 h
  clear h
  generalize hs : (start, maxAddress) = s at hpath
  induction hpath generalizing start maxAddress with
  | @done s b hturn =>
    subst hs
    simp only [mapTurn, (hwithin _).meets_bind, (hnext _).meets_bind, u32, u64,
      yields_read.meets_bind, meets_ite, meets_pure, decide_eq_true_eq, true_and, not_not] at hturn
    obtain ⟨-, ⟨hbounded, ⟨-, -, heq⟩ | ⟨htype, ⟨hin, heq⟩ | ⟨-, -, heq⟩⟩⟩ | ⟨hended, heq⟩⟩ := hturn
    · cases heq
    · cases heq
      exact ⟨_, .found hbounded ⟨htype, hin⟩, rfl⟩
    · cases heq
    · cases heq
      exact ⟨none, .ended hended, rfl⟩
  | @more s s' b hturn hrest ih =>
    subst hs
    simp only [mapTurn, (hwithin _).meets_bind, (hnext _).meets_bind, u32, u64,
      yields_read.meets_bind, meets_ite, meets_pure, decide_eq_true_eq, true_and, not_not] at hturn
    obtain ⟨-, ⟨hbounded, ⟨htype, -, heq⟩ | ⟨-, ⟨-, heq⟩ | ⟨hin, -, heq⟩⟩⟩ | ⟨-, heq⟩⟩ := hturn
    · obtain ⟨r, hfinds, hsize⟩ := ih (Sum.inl.inj heq)
      exact ⟨r, .past hbounded (fun hholds => htype hholds.1) hfinds, hsize⟩
    · cases heq
    · obtain ⟨r, hfinds, hsize⟩ := ih (Sum.inl.inj heq)
      exact ⟨r, .past hbounded (fun hholds => hin hholds.2) hfinds, hsize⟩
    · cases heq

/-- A map finds one thing. -/
theorem MapFinds.unique {region e : ℕ} {bounded : ℕ → Prop} {after : ℕ → ℕ}
    {r r' : Option Region} (h : MapFinds image m region bounded after e r)
    (h' : MapFinds image m region bounded after e r') : r = r' := by
  induction h with
  | found hbounded hholds =>
    cases h' with
    | found => rfl
    | ended hended => exact absurd hbounded hended
    | past _ hnot => exact absurd hholds hnot
  | ended hended =>
    cases h' with
    | found hbounded => exact absurd hbounded hended
    | ended => rfl
    | past hbounded => exact absurd hbounded hended
  | past hbounded hnot _ ih =>
    cases h' with
    | found _ hholds => exact absurd hholds hnot
    | ended hended => exact absurd hbounded hended
    | past _ _ hrest => exact ih hrest

/-- What is done with a command line leaves the heap alone. -/
theorem heapSize_initCommandlineParameter {cmdline : ℕ}
    (h : Meets (fun _ => True) m (initCommandlineParameter T cmdline boot) boot') :
    boot'.heapSize = boot.heapSize := by
  obtain ⟨found, -, hrest⟩ := meets_bind.1 h
  cases found with
  | none => rw [← meets_pure.1 hrest]
  | some param =>
    obtain ⟨begins, -, hrest⟩ := meets_bind.1 hrest
    rcases meets_ite.1 hrest with ⟨-, hrest⟩ | ⟨-, hrest⟩
    · obtain ⟨next, -, hrest⟩ := meets_bind.1 hrest
      rcases meets_ite.1 hrest with ⟨-, hrest⟩ | ⟨-, hrest⟩
      · rw [← meets_pure.1 hrest]
      · rw [← meets_pure.1 hrest]
    · rw [← meets_pure.1 hrest]

/-- **What `init_multiboot1` leaves** is what its map is found to have. -/
theorem heapSize_initMultiboot1 {multiboot : ℕ}
    (h : Meets (fun _ => True) m (initMultiboot1 T image 0x2BADB002 multiboot boot) boot') :
    ∃ r, Map1Finds T image m multiboot r ∧
      boot'.heapSize = heapSizeFrom T image boot.heapSize r := by
  have hwithin : ∀ e, Yields (fun _ => True) m (within1 T multiboot e)
      (decide (Bounded1 T m multiboot e)) True := fun e => yields_read.map _
  have hnext : ∀ e, Yields (fun _ => True) m (next1 T e) (after1 T m e) True :=
    fun e => yields_read.map _
  -- with a command line or without one, the map comes after it
  have hmap : ∀ {middle : Boot}, middle.heapSize = boot.heapSize →
      Meets (fun _ => True) m (u32 .info (multiboot + 48) >>= fun mmapAddr =>
        .loop (map1Turn T image multiboot middle) (mmapAddr, 0)) boot' →
      ∃ r, Map1Finds T image m multiboot r ∧
        boot'.heapSize = heapSizeFrom T image boot.heapSize r := by
    intro middle hmiddle hrun
    obtain ⟨mmapAddr, hread, hloop⟩ := meets_bind.1 hrun
    obtain ⟨rfl, -⟩ := meets_read.1 hread
    obtain ⟨r, hfinds, hsize⟩ := heapSize_mapLoop hwithin hnext hloop
    rw [hmiddle] at hsize
    exact ⟨r, hfinds, hsize⟩
  rw [initMultiboot1, if_neg (not_not.2 rfl)] at h
  obtain ⟨flags, -, h⟩ := meets_bind.1 h
  rcases meets_ite.1 h with ⟨-, h⟩ | ⟨-, h⟩
  · obtain ⟨cmdline, -, h⟩ := meets_bind.1 h
    obtain ⟨middle, hcommand, h⟩ := meets_bind.1 h
    have hmiddle := heapSize_initCommandlineParameter hcommand
    exact hmap hmiddle h
  · obtain ⟨middle, hnone, h⟩ := meets_bind.1 h
    have hmiddle : middle.heapSize = boot.heapSize := by rw [← meets_pure.1 hnone]
    exact hmap hmiddle h

/-- What a tag leaves. -/
theorem heapSize_tagTurn {tag tag' : ℕ}
    (h : Meets (fun _ => True) m (tagTurn T image (tag, boot)) (.inl (tag', boot'))) :
    ∃ r, TagFinds T image m tag r ∧ boot'.heapSize = heapSizeFrom T image boot.heapSize r := by
  have hwithin : ∀ e, Yields (fun _ => True) m (within2 T tag e)
      (decide (Bounded2 T m tag e)) True := fun e => yields_read.map _
  have hnext : ∀ e, Yields (fun _ => True) m (next2 T tag e)
      (advance T e (m.number (tag + 8) 4)) True := fun e => yields_read.map _
  obtain ⟨type, htype, h⟩ := meets_bind.1 h
  obtain ⟨rfl, -⟩ := meets_read.1 htype
  rcases meets_ite.1 h with ⟨-, hend⟩ | ⟨-, h⟩
  · cases meets_pure.1 hend
  · obtain ⟨middle, hbody, h⟩ := meets_bind.1 h
    obtain ⟨size, -, hturn⟩ := meets_bind.1 h
    obtain ⟨-, rfl⟩ := Prod.mk.inj (Sum.inl.inj (meets_pure.1 hturn))
    unfold TagFinds
    generalize m.number tag 4 = type at hbody ⊢
    unfold tagBody at hbody
    split at hbody
    · exact ⟨none, rfl, heapSize_initCommandlineParameter hbody⟩
    · obtain ⟨r, hfinds, hsize⟩ := heapSize_mapLoop hwithin hnext hbody
      exact ⟨r, hfinds, hsize⟩
    · refine ⟨none, rfl, ?_⟩
      rw [← meets_pure.1 hbody]
      rfl
    · rename_i hmap _
      refine ⟨none, ?_, ?_⟩
      · rw [if_neg hmap]
      · rw [← meets_pure.1 hbody]
        rfl

/-- A tag finds one thing. -/
theorem TagFinds.unique {tag : ℕ} {r r' : Option Region} (h : TagFinds T image m tag r)
    (h' : TagFinds T image m tag r') : r = r' := by
  rw [TagFinds] at h h'
  split at h
  · rename_i htype
    rw [if_pos htype] at h'
    exact h.unique h'
  · rename_i htype
    rw [if_neg htype] at h'
    rw [h, h']

/-- **What the tags leave** is what was found last. -/
theorem TagsFind.heapSize {multiboot tag : ℕ} {r : Option Region}
    (h : TagsFind T image m multiboot boot tag boot' r) :
    boot'.heapSize = heapSizeFrom T image boot.heapSize r := by
  induction h with
  | start => rfl
  | @next tag tag' b b' last r _ hturn hfinds ih =>
    obtain ⟨r', hfinds', hsize⟩ := heapSize_tagTurn hturn
    obtain rfl := hfinds.unique hfinds'
    rw [hsize]
    cases r with
    | none => exact ih
    | some region => rfl

/-- **What is set from a region** is what the code makes of it. -/
theorem Sets.heapSize {magic multiboot : ℕ} {region : Region}
    (h : Sets T image m magic multiboot boot boot' region) :
    boot'.heapSize = heapSizeOf T image region.addr region.len := by
  cases h with
  | multiboot1 hmagic hrun hfinds =>
    subst hmagic
    obtain ⟨r, hfinds', hsize⟩ := heapSize_initMultiboot1 hrun
    obtain rfl := hfinds.unique hfinds'
    exact hsize
  | multiboot2 _ _ hfinds => exact hfinds.heapSize

/-- The tags are gone through to where the loop over them ends. -/
theorem exists_tagsFind {multiboot tag : ℕ} {sofar : Boot} {last : Option Region}
    (hsofar : TagsFind T image m multiboot boot tag sofar last)
    (h : Meets (fun _ => True) m (.loop (tagTurn T image) (tag, sofar)) boot') :
    ∃ tag' last', TagsFind T image m multiboot boot tag' boot' last' := by
  have hpath := meets_loop.1 h
  clear h
  generalize hs : (tag, sofar) = s at hpath
  induction hpath generalizing tag sofar last with
  | done hturn =>
    subst hs
    obtain ⟨type, -, hturn⟩ := meets_bind.1 hturn
    rcases meets_ite.1 hturn with ⟨-, hend⟩ | ⟨-, hgoes⟩
    · obtain rfl := Sum.inr.inj (meets_pure.1 hend)
      exact ⟨tag, last, hsofar⟩
    · obtain ⟨middle, -, hgoes⟩ := meets_bind.1 hgoes
      obtain ⟨size, -, hgoes⟩ := meets_bind.1 hgoes
      cases meets_pure.1 hgoes
  | @more s s' b hturn hrest ih =>
    subst hs
    obtain ⟨r, hfinds, -⟩ := heapSize_tagTurn hturn
    exact ih (.next hsofar hturn hfinds) rfl

/-- **Nothing else sets it**: where either ends with another `heapSize`
than it began with, it has set it from a region. -/
theorem exists_sets {magic multiboot : ℕ}
    (h : Meets (fun _ => True) m (initMultiboot1 T image magic multiboot boot) boot' ∨
      Meets (fun _ => True) m (initMultiboot2 T image magic multiboot boot) boot')
    (hne : boot'.heapSize ≠ boot.heapSize) :
    ∃ region, Sets T image m magic multiboot boot boot' region := by
  rcases h with h | h
  · by_cases hmagic : magic = 0x2BADB002
    · subst hmagic
      obtain ⟨r, hfinds, hsize⟩ := heapSize_initMultiboot1 h
      cases r with
      | none => exact absurd hsize hne
      | some region => exact ⟨region, .multiboot1 rfl h hfinds⟩
    · rw [initMultiboot1, if_pos hmagic] at h
      rw [← meets_pure.1 h] at hne
      exact absurd rfl hne
  · rw [initMultiboot2] at h
    rcases meets_ite.1 h with ⟨-, hother⟩ | ⟨hmagic, h⟩
    · rw [← meets_pure.1 hother] at hne
      exact absurd rfl hne
    rcases meets_ite.1 h with ⟨-, hodd⟩ | ⟨haligned, h⟩
    · rw [← meets_pure.1 hodd] at hne
      exact absurd rfl hne
    obtain ⟨tag, last, hfinds⟩ := exists_tagsFind .start h
    cases last with
    | none => exact absurd hfinds.heapSize hne
    | some region =>
      exact ⟨region, .multiboot2 (not_not.1 hmagic) (not_not.1 haligned) hfinds⟩

/-! ## Where the heap ends -/

/-- A word is a divisor of 64 bits. -/
theorem wordSize_dvd (T : Target) : T.wordSize ∣ 2 ^ 64 := by
  have hbytes := T.wordBytes_eq
  exact Nat.pow_dvd_pow 2 (by omega)

/-- **The heap ends with its region just where that reaches it and fits a
word**, whatever the region. -/
theorem heapSizeOf_eq_iff (hlinked : image.Linked T) (region : Region) :
    image.heap + heapSizeOf T image region.addr region.len =
        min (region.addr + region.len) T.wordSize ↔ region.Fits T image := by
  have hpos : 0 < image.heap := by
    rw [hlinked.1, kernelStackSize]
    omega
  have hlt := hlinked.2
  have hcut : regionEnd region.addr region.len % T.wordSize =
      (region.addr + region.len) % T.wordSize := Nat.mod_mod_of_dvd _ (wordSize_dvd T)
  rw [heapSizeOf, hcut, Region.Fits]
  generalize region.addr + region.len = e
  generalize image.heap = heap at hpos hlt ⊢
  generalize T.wordSize = w at hlt ⊢
  rcases lt_or_ge e w with hin | hout
  · rw [Nat.mod_eq_of_lt hin, min_eq_left hin.le]
    rcases lt_or_ge e heap with hshort | hreach
    · rw [Nat.mod_eq_of_lt (by omega)]
      omega
    · rw [show e + w - heap = e - heap + w by omega, Nat.add_mod_right,
        Nat.mod_eq_of_lt (by omega)]
      omega
  · have hrest : e % w < w := Nat.mod_lt _ (by omega)
    rw [min_eq_right hout, Nat.dvd_iff_mod_eq_zero]
    rcases lt_or_ge (e % w) heap with hshort | hreach
    · rw [Nat.mod_eq_of_lt (by omega)]
      omega
    · rw [show e % w + w - heap = e % w - heap + w by omega, Nat.add_mod_right,
        Nat.mod_eq_of_lt (by omega)]
      omega

/-- **Heap sizing at boot.** The heap is set to end where the region that
was found does, or the addresses there are, just where the region goes on
to the heap and ends within a word or with one. -/
theorem filled_iff {magic multiboot : ℕ} {region : Region} (hlinked : image.Linked T)
    (hsets : Sets T image m magic multiboot boot boot' region) :
    Filled T image boot' region ↔ region.Fits T image := by
  rw [Filled, hsets.heapSize]
  exact heapSizeOf_eq_iff hlinked region

/-! ## Regions that do not fit -/

/-- A map whose first entry holds the kernel sets its region. -/
theorem exists_sets_of_first {multiboot : ℕ} (hflags : m.number multiboot 4 &&& 4 = 0)
    (hbounded : Bounded1 T m multiboot (mapAddr m multiboot))
    (hinside : InMap m multiboot (mapAddr m multiboot + 4) 20)
    (hholds : Holds image m 4 (mapAddr m multiboot)) :
    ∃ boot', Sets T image m 0x2BADB002 multiboot boot boot'
      (regionOf m 4 (mapAddr m multiboot)) := by
  have hwalked : Map1Walked T image m multiboot := by
    refine ⟨0, fun i hi => absurd hi (Nat.not_lt_zero i), fun _ => ⟨hinside, hholds⟩⟩
  obtain ⟨boot', hrun⟩ := exists_meets_initMultiboot1.2
    ⟨fun hcommand => absurd hflags hcommand, hwalked⟩
  exact ⟨boot', .multiboot1 rfl (hrun.imp fun _ _ => trivial) (.found hbounded hholds)⟩

instance (region entry : ℕ) : Decidable (Holds image m region entry) :=
  inferInstanceAs (Decidable (_ ∧ _))

instance (multiboot address bytes : ℕ) : Decidable (InMap m multiboot address bytes) :=
  inferInstanceAs (Decidable (_ ∧ _))

/-- A kernel at 1MB, with its stack behind it. -/
def withStack : Image := ⟨0x100000, 0x200000, 0x204000⟩

/-- A map of one region from 0 on. -/
def mapTo (len : ℕ) : Memory := fun address =>
  if address = 0x102C then 24
  else if address = 0x1031 then 0x20
  else if address = 0x2000 then 20
  else if 0x200C ≤ address ∧ address < 0x2014 then .ofNat (len / 256 ^ (address - 0x200C))
  else if address = 0x2014 then 1
  else 0

/-- With 3MB there is a heap up to their end. -/
theorem filled_megabytes :
    ∃ boot', Filled .x86_32 withStack boot' (regionOf (mapTo 0x300000) 4 0x2000) := by
  obtain ⟨boot', hsets⟩ : ∃ boot', Sets .x86_32 withStack (mapTo 0x300000) 0x2BADB002 0x1000 {}
      boot' (regionOf (mapTo 0x300000) 4 0x2000) :=
    exists_sets_of_first (by decide +kernel) (by decide +kernel) (by decide +kernel)
      (by decide +kernel)
  exact ⟨boot', (filled_iff (by decide +kernel) hsets).2 (by decide +kernel)⟩

/-- **A region that ends with the kernel's stack, or beyond 4GB**, is set,
and the heap does not end with it. -/
theorem not_filled :
    (∃ boot', Sets .x86_32 withStack (mapTo 0x201000) 0x2BADB002 0x1000 {} boot' ⟨0, 0x201000⟩ ∧
      ¬Filled .x86_32 withStack boot' ⟨0, 0x201000⟩) ∧
    ∃ boot', Sets .x86_32 withStack (mapTo 0x180000000) 0x2BADB002 0x1000 {} boot'
        ⟨0, 0x180000000⟩ ∧ ¬Filled .x86_32 withStack boot' ⟨0, 0x180000000⟩ := by
  constructor
  · obtain ⟨boot', hsets⟩ : ∃ boot', Sets .x86_32 withStack (mapTo 0x201000) 0x2BADB002 0x1000
        {} boot' (regionOf (mapTo 0x201000) 4 0x2000) :=
      exists_sets_of_first (by decide +kernel) (by decide +kernel) (by decide +kernel)
        (by decide +kernel)
    have hregion : regionOf (mapTo 0x201000) 4 0x2000 = ⟨0, 0x201000⟩ := by decide +kernel
    rw [hregion] at hsets
    refine ⟨boot', hsets, ?_⟩
    rw [Filled, hsets.heapSize]
    decide +kernel
  · obtain ⟨boot', hsets⟩ : ∃ boot', Sets .x86_32 withStack (mapTo 0x180000000) 0x2BADB002 0x1000
        {} boot' (regionOf (mapTo 0x180000000) 4 0x2000) :=
      exists_sets_of_first (by decide +kernel) (by decide +kernel) (by decide +kernel)
        (by decide +kernel)
    have hregion : regionOf (mapTo 0x180000000) 4 0x2000 = ⟨0, 0x180000000⟩ := by decide +kernel
    rw [hregion] at hsets
    refine ⟨boot', hsets, ?_⟩
    rw [Filled, hsets.heapSize]
    decide +kernel

end Multiboot

end Uberos
