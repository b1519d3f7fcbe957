import Mathlib.Data.List.GetD
import Uberos.FileStash.Model
/-!
# What the readers of a file stash read

The entries of a directory as they lie in a buffer, cut off where it
ends, and what each reader gives and reads of them.
-/

namespace Uberos

open Library Library.Scan

namespace FileStash

/-- A read that is inside the buffer. -/
def Inside (buffer : Buffer) (read : Read) : Prop := read.index + read.bytes ≤ buffer.size

/-- An entry of a directory: where its name starts, and what stands behind it. -/
structure Listed where
  start : ℕ
  length : ℕ
  target : ℕ

namespace Buffer

variable (buffer : Buffer)

/-- A number, zero where it is not all inside. -/
def numberWithin (index bytes : ℕ) : ℕ :=
  if index + bytes ≤ buffer.size then buffer.number index bytes else 0

/-- So many bytes, zero where they are not inside. -/
def padded (index bytes : ℕ) : List UInt8 :=
  buffer.slice index (min bytes (buffer.size - index)) ++
    List.replicate (bytes - (buffer.size - index)) 0

/-- The entries from a position on. -/
def listing (position : ℕ) : List Listed :=
  if position < buffer.size then
    let length := (buffer.data position).toNat
    if length = 0 then []
    else ⟨position + 1, length, buffer.numberWithin (position + 1 + length) 8⟩ ::
      listing (min (position + 1 + length + 8) buffer.size)
  else []
termination_by buffer.size - position
decreasing_by omega

/-- A record that begins as a directory does. -/
def IsDirectory (position : ℕ) : Prop := buffer.numberWithin position 4 = directoryMagic

instance (position : ℕ) : Decidable (buffer.IsDirectory position) :=
  inferInstanceAs (Decidable (_ = _))

/-- The entries of the record at a position. -/
def entries (position : ℕ) : List Listed :=
  if buffer.IsDirectory position then buffer.listing (position + 4) else []

/-- The name of an entry. -/
def nameOf (entry : Listed) : List UInt8 := buffer.slice entry.start entry.length

/-- The target of the first entry that has a name. -/
def found (name : List UInt8) (entries : List Listed) : Option ℕ :=
  (entries.find? fun entry => buffer.nameOf entry = name).map Listed.target

/-- What `read` gives of an entry. -/
def shown (entry : Listed) : DirectoryEntry :=
  ⟨buffer.padded entry.start entry.length, typeOf (buffer.numberWithin entry.target 4)⟩

/-- What is compared of an entry's name is inside. -/
def Compared (name : List UInt8) (entry : Listed) : Prop :=
  entry.length = name.length →
    Stdlib.BytesCompared (fun i => name.getD i 0) (fun i => buffer.data (entry.start + i))
      (fun i => entry.start + i < buffer.size) name.length

/-- What is compared up to the first entry that has the name is inside. -/
def ComparedUpTo (name : List UInt8) : List Listed → Prop
  | [] => True
  | entry :: entries =>
    buffer.Compared name entry ∧ (buffer.nameOf entry ≠ name → ComparedUpTo name entries)

/-- A `U32` at a position is not taken for inside when it only wraps round. -/
def Unwrapped (position : ℕ) : Prop :=
  skip position 4 ≤ buffer.size → position + 4 ≤ buffer.size

end Buffer

variable {buffer : Buffer} {position bytes : ℕ}

@[simp] theorem length_slice (index bytes : ℕ) : (buffer.slice index bytes).length = bytes := by
  rw [Buffer.slice, List.length_map, List.length_range]

theorem slice_eq_iff {index : ℕ} {name : List UInt8} :
    buffer.slice index name.length = name ↔
      ∀ i < name.length, name.getD i 0 = buffer.data (index + i) := by
  constructor
  · intro h i hi
    conv_lhs => rw [← h]
    rw [List.getD_eq_getElem _ _ (by rwa [length_slice])]
    simp [Buffer.slice]
  · intro h
    refine List.ext_getElem (length_slice _ _) fun i hi hi' => ?_
    rw [← List.getD_eq_getElem _ 0 hi', h i hi']
    simp [Buffer.slice]

/-! ## The reader -/

theorem skip_of_lt (h : position + bytes < 2 ^ 64) : skip position bytes = position + bytes :=
  Nat.mod_eq_of_lt h

/-- **A number that is inside is read**, and nothing of one that sticks out. -/
theorem yields_readNumber (h : position + bytes < 2 ^ 64) :
    Yields (Inside buffer) buffer (readNumber bytes position)
      (buffer.numberWithin position bytes, min (position + bytes) buffer.size) True := by
  intro result
  rw [readNumber, yields_ask.meets_bind, Buffer.numberWithin, skip_of_lt h]
  by_cases hinside : position + bytes ≤ buffer.size
  · rw [if_neg (Nat.not_lt.mpr hinside), yields_read.meets_bind, meets_pure, if_pos hinside,
      Nat.min_eq_left hinside]
    simp [Inside, hinside]
  · rw [if_pos (Nat.not_le.mp hinside), meets_pure, if_neg hinside,
      Nat.min_eq_right (Nat.le_of_not_le hinside)]
    simp

/-- At any position, a `U32` that wraps round aside. -/
theorem yields_readU32 (h : position < 2 ^ 64) :
    Yields (Inside buffer) buffer (readU32 position)
      (buffer.numberWithin position 4, min (position + 4) buffer.size)
      (buffer.Unwrapped position) := by
  by_cases hwrap : position + 4 < 2 ^ 64
  · have hunwrapped : buffer.Unwrapped position := by
      rw [Buffer.Unwrapped, skip_of_lt hwrap]
      exact id
    exact (yields_readNumber hwrap).congr (iff_of_true trivial hunwrapped) fun _ => rfl
  have hpast : ¬position + 4 ≤ buffer.size := by
    have hsize := buffer.size_lt
    omega
  intro result
  rw [readU32, readNumber, yields_ask.meets_bind, Buffer.numberWithin, if_neg hpast,
    Nat.min_eq_right (Nat.le_of_not_le hpast), Buffer.Unwrapped]
  by_cases hinside : skip position 4 ≤ buffer.size
  · rw [if_neg (Nat.not_lt.mpr hinside), yields_read.meets_bind, Inside]
    simp [hinside, hpast]
  · rw [if_pos (Nat.not_le.mp hinside), meets_pure]
    simp [hinside]

/-- **Bytes that are inside are copied**, and zeros put for those that are not. -/
theorem yields_readBytes (h : position ≤ buffer.size) :
    Yields (Inside buffer) buffer (readBytes bytes position)
      (buffer.padded position bytes, min (position + bytes) buffer.size) True := by
  have hsize := buffer.size_lt
  have hremaining : (buffer.size + (2 ^ 64 - position)) % 2 ^ 64 = buffer.size - position := by
    omega
  intro result
  simp only [readBytes, yields_ask.meets_bind, hremaining, Buffer.padded]
  by_cases hpast : buffer.size - position < bytes
  · have hinside : position + (buffer.size - position) ≤ buffer.size := by omega
    rw [if_pos hpast, yields_read.meets_bind, meets_pure, Nat.min_eq_right (by omega),
      Nat.min_eq_right (by omega)]
    simp [Inside, hinside]
  · have hinside : position + bytes ≤ buffer.size := by omega
    have hzeros : bytes - (buffer.size - position) = 0 := by omega
    rw [if_neg hpast, yields_read.meets_bind, meets_pure, Nat.min_eq_left (by omega),
      Nat.min_eq_left (by omega), hzeros, skip_of_lt (by omega)]
    simp [Inside, hinside]

/-- What is read past the end is zero. -/
theorem numberWithin_of_past (h : buffer.size < position + bytes) :
    buffer.numberWithin position bytes = 0 := if_neg (Nat.not_le.mpr h)

theorem numberWithin_one (h : position < buffer.size) :
    buffer.numberWithin position 1 = (buffer.data position).toNat := by
  have hinside : position + 1 ≤ buffer.size := h
  rw [Buffer.numberWithin, if_pos hinside]
  rfl

theorem lt_size_of_ne_zero (h : buffer.numberWithin position 1 ≠ 0) : position < buffer.size := by
  by_contra hpast
  exact h (numberWithin_of_past (by omega))

theorem numberWithin_one_lt (buffer : Buffer) (position : ℕ) :
    buffer.numberWithin position 1 < 256 := by
  by_cases hpast : position < buffer.size
  · rw [numberWithin_one hpast]
    exact UInt8.toNat_lt _
  · rw [numberWithin_of_past (by omega)]
    omega

/-- Past the end, nothing depends on how far. -/
theorem numberWithin_min (h : 0 < bytes) :
    buffer.numberWithin (min position buffer.size) bytes = buffer.numberWithin position bytes := by
  obtain hlt | hle := Nat.lt_or_ge buffer.size position
  · rw [numberWithin_of_past (by omega), numberWithin_of_past (by omega)]
  · rw [Nat.min_eq_left hle]

/-! ## The entries -/

theorem listing_of_zero (h : buffer.numberWithin position 1 = 0) :
    buffer.listing position = [] := by
  rw [Buffer.listing]
  split
  · rename_i hpast
    rw [numberWithin_one hpast] at h
    rw [if_pos h]
  · rfl

/-- The entry at a position, whose name is so long. -/
def Buffer.entryAt (buffer : Buffer) (position : ℕ) : Listed :=
  ⟨position + 1, buffer.numberWithin position 1,
    buffer.numberWithin (position + 1 + buffer.numberWithin position 1) 8⟩

/-- Where the next entry is. -/
def Buffer.next (buffer : Buffer) (position : ℕ) : ℕ :=
  min (position + 1 + buffer.numberWithin position 1 + 8) buffer.size

/-- The first entry and those after it. -/
theorem listing_of_ne_zero (h : buffer.numberWithin position 1 ≠ 0) :
    buffer.listing position = buffer.entryAt position :: buffer.listing (buffer.next position) := by
  have hpast := lt_size_of_ne_zero h
  have hone := numberWithin_one hpast
  rw [Buffer.listing, if_pos hpast, if_neg (hone ▸ h), Buffer.entryAt, Buffer.next, hone]

theorem next_le (buffer : Buffer) (position : ℕ) : buffer.next position ≤ buffer.size :=
  Nat.min_le_right _ _

/-- **An induction over the entries**, as all the readers go over them. -/
theorem listing_induction {motive : (position : ℕ) → position ≤ buffer.size → Prop}
    (stop : ∀ position hle, buffer.numberWithin position 1 = 0 → motive position hle)
    (entry : ∀ position hle, buffer.numberWithin position 1 ≠ 0 →
      motive (buffer.next position) (next_le buffer position) → motive position hle)
    (position : ℕ) (h : position ≤ buffer.size) : motive position h := by
  induction hleft : buffer.size - position using Nat.strong_induction_on generalizing position with
  | _ left ih =>
    by_cases hzero : buffer.numberWithin position 1 = 0
    · exact stop position h hzero
    · have hpast := lt_size_of_ne_zero hzero
      refine entry position h hzero (ih _ ?_ _ (next_le _ _) rfl)
      rw [Buffer.next]
      omega

/-! ## Iterating -/

variable {directory : Directory}

/-- `read()` at the end of the entries. -/
theorem yields_read_of_zero (heof : directory.isEof = false)
    (hreader : directory.reader ≤ buffer.size)
    (h : buffer.numberWithin directory.reader 1 = 0) :
    Yields (Inside buffer) buffer directory.read
      ({}, { directory with reader := min (directory.reader + 1) buffer.size, isEof := true })
      True := by
  have hsize := buffer.size_lt
  intro result
  rw [Directory.read, if_neg (by simp [heof]), readU8,
    (yields_readNumber (by omega)).meets_bind, true_and]
  dsimp only
  rw [if_pos h, meets_pure, and_true]

/-- **`read()` of an entry**, which reads the target's type wherever that is. -/
theorem yields_read_of_ne_zero (heof : directory.isEof = false)
    (h : buffer.numberWithin directory.reader 1 ≠ 0) :
    Yields (Inside buffer) buffer directory.read
      (buffer.shown (buffer.entryAt directory.reader),
        { directory with reader := buffer.next directory.reader })
      ((buffer.entryAt directory.reader).target + 4 ≤ buffer.size) := by
  have hsize := buffer.size_lt
  have hpast : directory.reader + 1 ≤ buffer.size := lt_size_of_ne_zero h
  have hlength := numberWithin_one_lt buffer directory.reader
  have hnext : min (min (directory.reader + 1 + buffer.numberWithin directory.reader 1) buffer.size
      + 8) buffer.size = buffer.next directory.reader := by
    rw [Buffer.next]
    omega
  intro result
  rw [Directory.read, if_neg (by simp [heof]), readU8,
    (yields_readNumber (by omega)).meets_bind, true_and]
  dsimp only
  rw [if_neg h, Nat.min_eq_left hpast, (yields_readBytes hpast).meets_bind, true_and]
  dsimp only
  rw [readU64, (yields_readNumber (by omega)).meets_bind, true_and]
  dsimp only
  rw [yields_read.meets_bind, meets_pure, numberWithin_min (by omega), hnext, and_comm]
  refine and_congr_left fun hinside => ?_
  have htype : buffer.numberWithin (buffer.entryAt directory.reader).target 4 =
      buffer.number (buffer.entryAt directory.reader).target 4 := if_pos hinside
  rw [Buffer.shown, htype, Buffer.entryAt]

/-- The loop over `read()`, and the blank entry it ends with. -/
theorem yields_iterateLoop (position : ℕ) (h : position ≤ buffer.size) :
    ∀ (entries : List DirectoryEntry) (directory : Directory), directory.isEof = false →
      directory.reader = position →
      Yields (Inside buffer) buffer (.loop Directory.iterateTurn (entries, directory))
        (entries ++ (buffer.listing position).map buffer.shown ++ [⟨[], .unknown⟩])
        (∀ entry ∈ buffer.listing position, entry.target + 4 ≤ buffer.size) := by
  induction position, h using listing_induction with
  | stop position hle hzero =>
    rintro entries directory heof rfl
    rw [listing_of_zero hzero, List.map_nil, List.append_nil]
    let last : Directory :=
      { directory with reader := min (directory.reader + 1) buffer.size, isEof := true }
    have hturn : Yields (Inside buffer) buffer (Directory.iterateTurn (entries, directory))
        (.inl (entries ++ [⟨[], .unknown⟩], last)) True := by
      intro result
      rw [Directory.iterateTurn, if_neg (by simp [heof]),
        (yields_read_of_zero heof hle hzero).meets_bind, true_and, meets_pure, and_true]
    have hdone : Yields (Inside buffer) buffer
        (Directory.iterateTurn (entries ++ [⟨[], .unknown⟩], last))
        (.inr (entries ++ [⟨[], .unknown⟩])) True := by
      rw [Directory.iterateTurn, if_pos rfl]
      exact yields_pure
    exact (Yields.loop_more hturn (Yields.loop_done hdone)).congr (by simp) fun _ => rfl
  | entry position hle hne ih =>
    rintro entries directory heof rfl
    have hturn : Yields (Inside buffer) buffer (Directory.iterateTurn (entries, directory))
        (.inl (entries ++ [buffer.shown (buffer.entryAt directory.reader)],
          { directory with reader := buffer.next directory.reader }))
        ((buffer.entryAt directory.reader).target + 4 ≤ buffer.size) := by
      intro result
      rw [Directory.iterateTurn, if_neg (by simp [heof]),
        (yields_read_of_ne_zero heof hne).meets_bind, meets_pure, and_comm]
    have hrest := ih (entries ++ [buffer.shown (buffer.entryAt directory.reader)])
      { directory with reader := buffer.next directory.reader } heof rfl
    refine (Yields.loop_more hturn hrest).congr ?_ fun _ => ?_
    · rw [listing_of_ne_zero hne, List.forall_mem_cons]
    · rw [listing_of_ne_zero hne, List.map_cons, List.append_assoc entries, List.singleton_append]

/-! ## Looking a name up -/

theorem shows_entryName (buffer : Buffer) (position : ℕ) :
    Stdlib.Shows (Inside buffer) buffer (Directory.entryName position)
      (fun i => buffer.data (position + i)) fun i => position + i < buffer.size :=
  fun _ => yields_read

/-- A turn past the last entry. -/
theorem yields_lookupTurn_of_zero (name : List UInt8) (nameLength : ℕ)
    (hle : position ≤ buffer.size) (h : buffer.numberWithin position 1 = 0) :
    Yields (Inside buffer) buffer (Directory.lookupTurn name nameLength position) (.inr none)
      True := by
  have hsize := buffer.size_lt
  intro result
  rw [Directory.lookupTurn, readU8, (yields_readNumber (by omega)).meets_bind, true_and]
  dsimp only
  rw [if_pos h, meets_pure, and_true]

/-- **A turn at an entry**, which compares its name where the lengths agree. -/
theorem yields_lookupTurn_of_ne_zero (name : List UInt8)
    (h : buffer.numberWithin position 1 ≠ 0) :
    Yields (Inside buffer) buffer (Directory.lookupTurn name name.length position)
      (if buffer.nameOf (buffer.entryAt position) = name then
        .inr (some (buffer.entryAt position).target) else .inl (buffer.next position))
      (buffer.Compared name (buffer.entryAt position)) := by
  have hsize := buffer.size_lt
  have hpast : position + 1 ≤ buffer.size := lt_size_of_ne_zero h
  have hlength := numberWithin_one_lt buffer position
  have hcompare := Stdlib.yields_memcmp (Stdlib.shows_literal name)
    (shows_entryName buffer (position + 1)) (n := name.length) fun _ _ => trivial
  intro result
  rw [Directory.lookupTurn, readU8, (yields_readNumber (by omega)).meets_bind, true_and]
  dsimp only
  rw [if_neg h, Nat.min_eq_left hpast, readU64, skip_of_lt (by omega),
    (yields_readNumber (by omega)).meets_bind, true_and]
  dsimp only
  have hentry : (buffer.entryAt position).length = buffer.numberWithin position 1 := rfl
  by_cases hequal : buffer.numberWithin position 1 = name.length
  · have hname : Stdlib.byteComparison (fun i => name.getD i 0)
        (fun i => buffer.data (position + 1 + i)) name.length = 0 ↔
        buffer.nameOf (buffer.entryAt position) = name := by
      rw [Stdlib.byteComparison_eq_zero, Buffer.nameOf, hentry, hequal, slice_eq_iff]
      rfl
    rw [if_pos hequal, hcompare.meets_bind, ← Buffer.next, and_comm]
    refine and_congr ?_ ?_
    · by_cases hfound : buffer.nameOf (buffer.entryAt position) = name
      · rw [if_pos (hname.mpr hfound), if_pos hfound, meets_pure]
        rfl
      · rw [if_neg (mt hname.mp hfound), if_neg hfound, meets_pure]
    · rw [Buffer.Compared, hentry]
      exact ⟨fun h _ => h, fun h => h hequal⟩
  · have hfound : buffer.nameOf (buffer.entryAt position) ≠ name := by
      rintro rfl
      exact hequal (by rw [Buffer.nameOf, length_slice, hentry])
    rw [if_neg hequal, if_neg hfound, meets_pure, ← Buffer.next, Buffer.Compared, hentry]
    exact (and_iff_left fun h => absurd h hequal).symm

/-- **The loop of `get_file` and of `get_directory`.** -/
theorem yields_lookupLoop (name : List UInt8) (position : ℕ) (h : position ≤ buffer.size) :
    Yields (Inside buffer) buffer (.loop (Directory.lookupTurn name name.length) position)
      (buffer.found name (buffer.listing position))
      (buffer.ComparedUpTo name (buffer.listing position)) := by
  induction position, h using listing_induction with
  | stop position hle hzero =>
    rw [listing_of_zero hzero]
    exact (yields_lookupTurn_of_zero name name.length hle hzero).loop_done
  | entry position hle hne ih =>
    have hturn := yields_lookupTurn_of_ne_zero name hne
    rw [listing_of_ne_zero hne, Buffer.ComparedUpTo, Buffer.found]
    by_cases hfound : buffer.nameOf (buffer.entryAt position) = name
    · rw [if_pos hfound] at hturn
      rw [List.find?_cons_of_pos (by simpa using hfound)]
      refine hturn.loop_done.congr ?_ fun _ => rfl
      exact (and_iff_left fun h => absurd hfound h).symm
    · rw [if_neg hfound] at hturn
      rw [List.find?_cons_of_neg (by simpa using hfound)]
      refine (hturn.loop_more ih).congr ?_ fun _ => rfl
      exact and_congr_right fun _ => (imp_iff_right hfound).symm

/-! ## The operations -/

theorem isDirectory_iff :
    buffer.IsDirectory position ↔ buffer.numberWithin position 4 = directoryMagic := Iff.rfl

/-- A record that begins as a directory does is inside that far. -/
theorem Buffer.IsDirectory.le (h : buffer.IsDirectory position) : position + 4 ≤ buffer.size := by
  by_contra hpast
  rw [isDirectory_iff, numberWithin_of_past (by omega)] at h
  exact absurd h (by decide)

/-- What `Directory(buffer, position)` is. -/
def Buffer.opened (buffer : Buffer) (position : ℕ) : Directory :=
  ⟨min (position + 4) buffer.size, position, decide ¬buffer.IsDirectory position⟩

theorem yields_new (h : position < 2 ^ 64) :
    Yields (Inside buffer) buffer (Directory.new position) (buffer.opened position)
      (buffer.Unwrapped position) := by
  intro result
  rw [Directory.new, Directory.reset, (yields_readU32 h).meets_bind, meets_pure, and_comm]
  exact Iff.rfl

/-- **Iterating over a directory**, once it is opened. -/
theorem yields_iterate (position : ℕ) :
    Yields (Inside buffer) buffer (buffer.opened position).iterate
      ((buffer.entries position).map buffer.shown ++
        if buffer.IsDirectory position then [⟨[], .unknown⟩] else [])
      (∀ entry ∈ buffer.entries position, entry.target + 4 ≤ buffer.size) := by
  rw [Buffer.entries]
  by_cases hdir : buffer.IsDirectory position
  · rw [if_pos hdir, if_pos hdir, ← Nat.min_eq_left hdir.le]
    exact yields_iterateLoop _ (Nat.min_le_right _ _) [] (buffer.opened position)
      (by simp [Buffer.opened, hdir]) rfl
  · rw [if_neg hdir, if_neg hdir]
    have hdone : Yields (Inside buffer) buffer (Directory.iterateTurn ([], buffer.opened position))
        (.inr []) True := by
      rw [Directory.iterateTurn, if_pos (by simp [Buffer.opened, hdir])]
      exact yields_pure
    exact hdone.loop_done.congr (by simp) fun _ => rfl

theorem yields_strlen (name : Name) :
    Yields (Inside buffer) buffer (Stdlib.strlen (Stdlib.literal name.characters))
      name.characters.length True := by
  intro n
  rw [Stdlib.meets_strlen (Stdlib.shows_literal _), and_true]
  have hin : ∀ i < name.characters.length, name.characters.getD i 0 ≠ 0 := by
    intro i hi hzero
    rw [List.getD_eq_getElem _ _ hi] at hzero
    exact name.notMem_zero (hzero ▸ List.getElem_mem hi)
  have hend : name.characters.getD name.characters.length 0 = 0 := by
    rw [List.getD_eq_default _ _ (Nat.le_refl _)]
  constructor
  · rintro ⟨hbefore, -, hzero⟩
    obtain hlt | heq | hgt := Nat.lt_trichotomy n name.characters.length
    · exact absurd hzero (hin n hlt)
    · exact heq.symm
    · exact absurd hend (hbefore _ hgt).2
  · rintro rfl
    exact ⟨fun i hi => ⟨trivial, hin i hi⟩, trivial, hend⟩

/-- **`get_file` and `get_directory`**: what they make of the target of the
name, or of the end of the buffer. -/
theorem yields_lookup {α : Type} {make : ℕ → Program α} {value : α} {allowed : Prop}
    (directory : Directory) (h : directory.position < 2 ^ 64) (name : Name)
    (hmake : Yields (Inside buffer) buffer
      (make ((buffer.found name.characters (buffer.entries directory.position)).getD buffer.size))
      value allowed) :
    Yields (Inside buffer) buffer (directory.lookup make name) value
      (buffer.Unwrapped directory.position ∧
        buffer.ComparedUpTo name.characters (buffer.entries directory.position) ∧ allowed) := by
  have hsize : Yields (Inside buffer) buffer (.ask Buffer.size) buffer.size True := yields_ask
  refine ((yields_strlen name).bind (hsize.bind ((yields_readU32 h).bind (?_ :
    Yields (Inside buffer) buffer _ value (buffer.ComparedUpTo name.characters
      (buffer.entries directory.position) ∧ allowed))))).congr (by simp) fun _ => rfl
  rw [Buffer.entries] at hmake ⊢
  dsimp only
  by_cases hdir : buffer.IsDirectory directory.position
  · have hmagic : buffer.numberWithin directory.position 4 = directoryMagic := hdir
    rw [if_pos hdir] at hmake ⊢
    rw [if_neg (not_not.mpr hmagic), Nat.min_eq_left hdir.le]
    exact (yields_lookupLoop name.characters _ hdir.le).bind hmake
  · have hmagic : buffer.numberWithin directory.position 4 ≠ directoryMagic := hdir
    rw [if_neg hdir] at hmake ⊢
    rw [if_pos hmagic]
    exact hmake.congr (and_iff_right trivial).symm fun _ => rfl

/-- The size that every `File` is given. -/
def Buffer.firstSize (buffer : Buffer) : ℕ :=
  if buffer.numberWithin 0 4 = fileMagic then buffer.numberWithin 4 8 else 0

/-- **A `File` is read from the start of the buffer**, whatever its position. -/
theorem yields_fileNew (buffer : Buffer) (position : ℕ) :
    Yields (Inside buffer) buffer (File.new position) ⟨position, buffer.firstSize⟩ True := by
  have hsize := buffer.size_lt
  intro result
  rw [File.new, (yields_readU32 (by omega)).meets_bind, Buffer.firstSize]
  have hunwrapped : buffer.Unwrapped 0 := id
  dsimp only
  by_cases hmagic : buffer.numberWithin 0 4 = fileMagic
  · rw [if_neg (not_not.mpr hmagic), if_pos hmagic, readU64,
      (yields_readNumber (by omega)).meets_bind, meets_pure, numberWithin_min (by omega)]
    simp [hunwrapped]
  · rw [if_pos hmagic, if_neg hmagic, meets_pure]
    simp [hunwrapped]

/-! ## Reading inside -/

/-- A name is found at the target of an entry. -/
theorem exists_of_found {name : List UInt8} {entries : List Listed} {target : ℕ}
    (h : buffer.found name entries = some target) :
    ∃ entry ∈ entries, buffer.nameOf entry = name ∧ entry.target = target := by
  obtain ⟨entry, hfind, htarget⟩ := Option.map_eq_some_iff.mp h
  exact ⟨entry, List.mem_of_find?_eq_some hfind, by simpa using List.find?_some hfind, htarget⟩

/-- **The readers of a record stay inside**: they end, read only bytes of
the buffer, and give zeros, unknown types and empty results for what is
not there. -/
structure ReadsInside (buffer : Buffer) (position : ℕ) (name : Name) (directory : Directory) :
    Prop where
  opened : Meets (Inside buffer) buffer (Directory.new position) directory
  iterated : Meets (Inside buffer) buffer directory.iterate
    ((buffer.entries position).map buffer.shown ++
      if buffer.IsDirectory position then [⟨[], .unknown⟩] else [])
  file : ∃ file, Meets (Inside buffer) buffer (directory.getFile name) file ∧
    ∀ target, buffer.found name.characters (buffer.entries position) = some target →
      buffer.size < target + 4 → file.size = 0
  subdirectory : ∃ sub, Meets (Inside buffer) buffer (directory.getDirectory name) sub ∧
    ∀ target, buffer.found name.characters (buffer.entries position) = some target →
      buffer.size < target + 4 → sub.isEof = true

theorem ReadsInside.targets {name : Name} {directory : Directory}
    (h : ReadsInside buffer position name directory) (hposition : position < 2 ^ 64) :
    ∀ entry ∈ buffer.entries position, entry.target + 4 ≤ buffer.size := by
  obtain ⟨rfl, -⟩ := (yields_new hposition _).mp h.opened
  exact ((yields_iterate position _).mp h.iterated).2

/-- **The readers stay inside exactly where** the position does not wrap
round, every target's type lies inside, and so does every name up to
where it is told from the one that is looked up. -/
theorem readsInside_iff (hposition : position < 2 ^ 64) (name : Name) :
    (∃ directory, ReadsInside buffer position name directory) ↔
      buffer.Unwrapped position ∧
        (∀ entry ∈ buffer.entries position, entry.target + 4 ≤ buffer.size) ∧
        buffer.ComparedUpTo name.characters (buffer.entries position) := by
  have hsize := buffer.size_lt
  have hfile := yields_lookup (buffer.opened position) hposition name
    (yields_fileNew buffer _)
  constructor
  · rintro ⟨directory, h⟩
    have htargets := h.targets hposition
    obtain ⟨rfl, hunwrapped⟩ := (yields_new hposition _).mp h.opened
    obtain ⟨file, hmeets, -⟩ := h.file
    exact ⟨hunwrapped, htargets, ((hfile file).mp hmeets).2.2.1⟩
  · rintro ⟨hunwrapped, htargets, hcompared⟩
    have hinside : ∀ target, buffer.found name.characters (buffer.entries position) = some target →
        target + 4 ≤ buffer.size := by
      intro target hfound
      obtain ⟨entry, hmem, -, rfl⟩ := exists_of_found hfound
      exact htargets entry hmem
    -- where the name is not found, the directory made is past the end
    have hmade : ((buffer.found name.characters (buffer.entries position)).getD buffer.size) <
          2 ^ 64 ∧ buffer.Unwrapped
        ((buffer.found name.characters (buffer.entries position)).getD buffer.size) := by
      cases hfound : buffer.found name.characters (buffer.entries position) with
      | some target =>
        have hle := hinside target hfound
        exact ⟨by rw [Option.getD_some]; omega, fun _ => hle⟩
      | none =>
        refine ⟨by rw [Option.getD_none]; omega, fun h => ?_⟩
        rw [Option.getD_none, skip_of_lt (by omega)] at h
        omega
    have hsub := yields_lookup (buffer.opened position) hposition name
      (yields_new hmade.1)
    refine ⟨buffer.opened position, (yields_new hposition _).mpr ⟨rfl, hunwrapped⟩,
      (yields_iterate position _).mpr ⟨rfl, htargets⟩,
      ⟨_, (hfile _).mpr ⟨rfl, hunwrapped, hcompared, trivial⟩, ?_⟩,
      ⟨_, (hsub _).mpr ⟨rfl, hunwrapped, hcompared, hmade.2⟩, ?_⟩⟩
    · intro target hfound hpast
      exact absurd (hinside target hfound) (Nat.not_le.mpr hpast)
    · intro target hfound hpast
      exact absurd (hinside target hfound) (Nat.not_le.mpr hpast)

/-- A directory with one entry, `a`, whose target is past the end. -/
def strayImage : Buffer where
  data i := [0x52, 0x49, 0x44, 0, 1, 0x61, 100].getD i 0
  size := 15
  size_lt := by decide

/-- A name of one letter. -/
def nameA : Name := ⟨[0x61], by decide⟩

theorem readsInside_strayImage :
    (∃ directory, ReadsInside strayImage 0 nameA directory) ↔
      strayImage.Unwrapped 0 ∧
        (∀ entry ∈ strayImage.entries 0, entry.target + 4 ≤ strayImage.size) ∧
        strayImage.ComparedUpTo nameA.characters (strayImage.entries 0) :=
  readsInside_iff (by decide) nameA

/-- `read()` looks for a type 100 bytes into a buffer of 15. -/
theorem not_readsInside_strayImage :
    ¬∃ directory, ReadsInside strayImage 0 nameA directory := by
  rintro ⟨directory, h⟩
  have htargets := h.targets (by decide)
  have hentries : strayImage.entries 0 =
      strayImage.entryAt 4 :: strayImage.listing (strayImage.next 4) := by
    rw [Buffer.entries, if_pos (by decide), listing_of_ne_zero (by decide)]
  rw [hentries] at htargets
  exact absurd (htargets _ List.mem_cons_self) (by decide)

end FileStash

end Uberos
