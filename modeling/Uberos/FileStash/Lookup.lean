import Uberos.FileStash.Listing
/-!
# Looking names up in a file stash

Buffers that hold directories and files within one another, and what
their readers give. The position of a `File` is never read at.
-/

namespace Uberos

open Library Library.Scan

namespace FileStash

/-- What a file stash holds. -/
inductive Node
  | file (size : ℕ)
  | directory (entries : List (List UInt8 × Node))

/-- The type of a record. -/
def Node.type : Node → FileType
  | .file _ => .file
  | .directory _ => .directory

/-- An entry of a directory, with the position it lists. -/
structure Placed where
  name : List UInt8
  target : ℕ
  node : Node

/-- An entry without its position. -/
def Placed.entry (placed : Placed) : List UInt8 × Node := (placed.name, placed.node)

/-- Entries that are laid out from a position on. -/
def Laid (buffer : Buffer) : (position : ℕ) → List Placed → Prop
  | position, [] => position + 1 ≤ buffer.size ∧ buffer.number position 1 = 0
  | position, entry :: entries =>
    1 ≤ entry.name.length ∧ entry.name.length ≤ 255 ∧
      position + 1 + entry.name.length + 8 ≤ buffer.size ∧
      buffer.number position 1 = entry.name.length ∧
      buffer.slice (position + 1) entry.name.length = entry.name ∧
      buffer.number (position + 1 + entry.name.length) 8 = entry.target ∧
      Laid buffer (position + 1 + entry.name.length + 8) entries

/-- **A well-formed record**, and those that it lists. -/
inductive Record (buffer : Buffer) : ℕ → Node → Prop
  | file {position : ℕ} (inside : position + 12 ≤ buffer.size)
      (magic : buffer.number position 4 = fileMagic) :
      Record buffer position (.file (buffer.number (position + 4) 8))
  | directory {position : ℕ} (placed : List Placed) (inside : position + 4 ≤ buffer.size)
      (magic : buffer.number position 4 = directoryMagic) (laid : Laid buffer (position + 4) placed)
      (distinct : (placed.map Placed.name).Nodup)
      (records : ∀ entry ∈ placed, Record buffer entry.target entry.node) :
      Record buffer position (.directory (placed.map Placed.entry))

/-- What `read` should give of an entry. -/
def listed (entry : List UInt8 × Node) : DirectoryEntry := ⟨entry.1, entry.2.type⟩

/-- What `read` gives until `is_eof`: each entry, and a blank one. -/
def enumerated (entries : List (List UInt8 × Node)) : List DirectoryEntry :=
  entries.map listed ++ [⟨[], .unknown⟩]

/-- **The readers find what a directory lists.** -/
structure LooksUp (buffer : Buffer) (position : ℕ) (entries : List (List UInt8 × Node))
    (directory : Directory) : Prop where
  opened : Meets (Inside buffer) buffer (Directory.new position) directory
  iterated : Meets (Inside buffer) buffer directory.iterate (enumerated entries)
  file : ∀ (name : Name) (size : ℕ), (name.characters, Node.file size) ∈ entries →
    ∃ file, Meets (Inside buffer) buffer (directory.getFile name) file ∧
      file.sizeCall.toNat = size
  subdirectory : ∀ (name : Name) (inner : List (List UInt8 × Node)),
    (name.characters, Node.directory inner) ∈ entries →
    ∃ sub, Meets (Inside buffer) buffer (directory.getDirectory name) sub ∧
      Meets (Inside buffer) buffer sub.iterate (enumerated inner)
  missing : ∀ name : Name, name.characters ∉ entries.map Prod.fst →
    (∃ file, Meets (Inside buffer) buffer (directory.getFile name) file ∧
      file.sizeCall.toNat = 0) ∧
    ∃ sub, Meets (Inside buffer) buffer (directory.getDirectory name) sub ∧ sub.isEof = true

variable {buffer : Buffer} {position : ℕ} {placed : List Placed} {node : Node}
  {entries : List (List UInt8 × Node)}

theorem numberWithin_of_inside {bytes : ℕ} (h : position + bytes ≤ buffer.size) :
    buffer.numberWithin position bytes = buffer.number position bytes := if_pos h

/-! ## Entries that are laid out -/

/-- **The listing of entries that are laid out**: their names, all inside,
and their targets. -/
theorem Laid.listing (h : Laid buffer position placed) :
    (buffer.listing position).map (fun entry => (buffer.nameOf entry, entry.target)) =
        placed.map (fun entry => (entry.name, entry.target)) ∧
      ∀ entry ∈ buffer.listing position, entry.start + entry.length ≤ buffer.size := by
  induction placed generalizing position with
  | nil =>
    obtain ⟨hinside, hzero⟩ := h
    rw [listing_of_zero (by rw [numberWithin_of_inside hinside, hzero])]
    exact ⟨rfl, fun _ hmem => absurd hmem List.not_mem_nil⟩
  | cons entry placed ih =>
    obtain ⟨hpos, -, hinside, hlength, hname, htarget, hrest⟩ := h
    have hone : buffer.numberWithin position 1 = entry.name.length := by
      rw [numberWithin_of_inside (by omega), hlength]
    have hnext : buffer.next position = position + 1 + entry.name.length + 8 := by
      rw [Buffer.next, hone]
      omega
    have hentry : buffer.entryAt position = ⟨position + 1, entry.name.length, entry.target⟩ := by
      rw [Buffer.entryAt, hone, numberWithin_of_inside (by omega), htarget]
    obtain ⟨hnames, hall⟩ := ih hrest
    rw [listing_of_ne_zero (by omega), hnext, hentry]
    refine ⟨?_, List.forall_mem_cons.mpr ⟨by dsimp only; omega, hall⟩⟩
    rw [List.map_cons, List.map_cons, hnames, Buffer.nameOf, hname]

/-- Bytes that are inside are not padded. -/
theorem padded_of_inside {bytes : ℕ} (h : position + bytes ≤ buffer.size) :
    buffer.padded position bytes = buffer.slice position bytes := by
  have hzeros : bytes - (buffer.size - position) = 0 := by omega
  rw [Buffer.padded, Nat.min_eq_left (by omega), hzeros, List.replicate_zero, List.append_nil]

/-- A name that is inside may be compared. -/
theorem comparedUpTo_of_inside (name : List UInt8) {listing : List Listed}
    (h : ∀ entry ∈ listing, entry.start + entry.length ≤ buffer.size) :
    buffer.ComparedUpTo name listing := by
  induction listing with
  | nil => trivial
  | cons entry listing ih =>
    obtain ⟨hentry, hrest⟩ := List.forall_mem_cons.mp h
    refine ⟨fun hlength j hj _ => ?_, fun _ => ih hrest⟩
    dsimp only
    omega

/-- The name that is looked up is found where it is listed. -/
theorem found_eq (name : List UInt8) {listing : List Listed}
    (h : listing.map (fun entry => (buffer.nameOf entry, entry.target)) =
      placed.map (fun entry => (entry.name, entry.target))) :
    buffer.found name listing =
      (placed.find? fun entry => entry.name = name).map Placed.target := by
  induction placed generalizing listing with
  | nil =>
    rw [List.map_nil, List.map_eq_nil_iff] at h
    rw [h]
    rfl
  | cons entry placed ih =>
    obtain ⟨first, rest, rfl, hfirst, hrest⟩ := List.map_eq_cons_iff.mp h
    obtain ⟨hname, htarget⟩ := Prod.mk.inj hfirst
    rw [Buffer.found]
    by_cases heq : entry.name = name
    · rw [List.find?_cons_of_pos (by simpa [hname] using heq),
        List.find?_cons_of_pos (by simpa using heq), Option.map_some, Option.map_some, htarget]
    · rw [List.find?_cons_of_neg (by simpa [hname] using heq),
        List.find?_cons_of_neg (by simpa using heq)]
      exact ih hrest

/-- Names that differ are found each where they are. -/
theorem find?_of_distinct (h : (placed.map Placed.name).Nodup) :
    ∀ entry ∈ placed, placed.find? (fun other => other.name = entry.name) = some entry := by
  induction placed with
  | nil => exact fun _ hmem => absurd hmem List.not_mem_nil
  | cons first placed ih =>
    obtain ⟨hfirst, hrest⟩ := List.nodup_cons.mp h
    intro entry hmem
    obtain rfl | hmem := List.mem_cons.mp hmem
    · exact List.find?_cons_of_pos (by simp)
    · have hne : first.name ≠ entry.name :=
        fun heq => hfirst (heq ▸ List.mem_map_of_mem hmem)
      rw [List.find?_cons_of_neg (by simpa using hne)]
      exact ih hrest entry hmem

theorem Laid.length_le (h : Laid buffer position placed) :
    ∀ entry ∈ placed, entry.name.length ≤ 255 := by
  induction placed generalizing position with
  | nil => exact fun _ hmem => absurd hmem List.not_mem_nil
  | cons first placed ih =>
    obtain ⟨-, hlength, -, -, -, -, hrest⟩ := h
    exact List.forall_mem_cons.mpr ⟨hlength, ih hrest⟩

/-! ## Records -/

/-- A record's type is inside, and is the node's. -/
theorem Record.type_eq (h : Record buffer position node) :
    position + 4 ≤ buffer.size ∧ typeOf (buffer.numberWithin position 4) = node.type := by
  cases h with
  | file inside magic =>
    rw [numberWithin_of_inside (by omega), magic]
    exact ⟨by omega, rfl⟩
  | directory placed inside magic laid distinct records =>
    rw [numberWithin_of_inside inside, magic]
    exact ⟨inside, rfl⟩

/-- What is known of the entries of a well-formed directory. -/
structure Holds (buffer : Buffer) (position : ℕ) (placed : List Placed) : Prop where
  inside : position + 4 ≤ buffer.size
  isDirectory : buffer.IsDirectory position
  listing : (buffer.entries position).map (fun entry => (buffer.nameOf entry, entry.target)) =
    placed.map fun entry => (entry.name, entry.target)
  names_inside : ∀ entry ∈ buffer.entries position, entry.start + entry.length ≤ buffer.size
  distinct : (placed.map Placed.name).Nodup
  length_le : ∀ entry ∈ placed, entry.name.length ≤ 255
  records : ∀ entry ∈ placed, Record buffer entry.target entry.node

theorem Record.holds (h : Record buffer position (.directory entries)) :
    ∃ placed, entries = placed.map Placed.entry ∧ Holds buffer position placed := by
  cases h with
  | directory placed inside magic laid distinct records =>
    have hdir : buffer.IsDirectory position := (numberWithin_of_inside inside).trans magic
    have hentries : buffer.entries position = buffer.listing (position + 4) := if_pos hdir
    refine ⟨placed, rfl, inside, hdir, ?_, ?_, distinct, laid.length_le, records⟩
    · rw [hentries]
      exact laid.listing.1
    · rw [hentries]
      exact laid.listing.2

variable {directory : Directory}

theorem Holds.unwrapped (h : Holds buffer position placed) : buffer.Unwrapped position :=
  fun _ => h.inside

theorem Holds.lt (h : Holds buffer position placed) : position < 2 ^ 64 := by
  have hsize := buffer.size_lt
  have hinside := h.inside
  omega

/-- A target is that of an entry whose record is well formed. -/
theorem Holds.targets (h : Holds buffer position placed) :
    ∀ entry ∈ buffer.entries position, entry.target + 4 ≤ buffer.size := by
  intro entry hmem
  have hpair : (buffer.nameOf entry, entry.target) ∈
      placed.map fun entry => (entry.name, entry.target) := by
    rw [← h.listing]
    exact List.mem_map_of_mem hmem
  obtain ⟨other, hother, heq⟩ := List.mem_map.mp hpair
  rw [← (Prod.mk.inj heq).2]
  exact (h.records other hother).type_eq.1

/-- **Iterating gives each entry of the directory once**, with its type. -/
theorem Holds.yields_iterate (h : Holds buffer position placed) :
    Yields (Inside buffer) buffer (buffer.opened position).iterate
      (enumerated (placed.map Placed.entry)) True := by
  refine (FileStash.yields_iterate position).congr (iff_of_true h.targets trivial) fun _ => ?_
  rw [if_pos h.isDirectory, enumerated]
  congr 1
  have hshown : ∀ entry ∈ buffer.entries position, buffer.shown entry =
      ⟨buffer.nameOf entry, typeOf (buffer.numberWithin entry.target 4)⟩ := by
    intro entry hmem
    rw [Buffer.shown, padded_of_inside (h.names_inside entry hmem), Buffer.nameOf]
  have hlisted : ∀ entry ∈ placed, (listed ∘ Placed.entry) entry =
      ⟨entry.name, typeOf (buffer.numberWithin entry.target 4)⟩ := by
    intro entry hmem
    rw [(h.records entry hmem).type_eq.2]
    rfl
  -- both are read off the names and the targets
  have hpairs := congrArg (List.map fun pair : List UInt8 × ℕ =>
    (⟨pair.1, typeOf (buffer.numberWithin pair.2 4)⟩ : DirectoryEntry)) h.listing
  rw [List.map_map, List.map_map] at hpairs
  rw [List.map_congr_left hshown, List.map_map, List.map_congr_left hlisted]
  exact hpairs

/-- Looking a name up in a well-formed directory. -/
theorem Holds.yields_lookup {α : Type} {make : ℕ → Program α} {value : α}
    (h : Holds buffer position placed) (name : Name) (target : Option ℕ)
    (htarget : (placed.find? fun entry => entry.name = name.characters).map Placed.target = target)
    (hmake : Yields (Inside buffer) buffer (make (target.getD buffer.size)) value True) :
    Yields (Inside buffer) buffer ((buffer.opened position).lookup make name) value True := by
  rw [← htarget, ← found_eq name.characters h.listing] at hmake
  refine (FileStash.yields_lookup (buffer.opened position) h.lt name hmake).congr
    (iff_of_true ⟨h.unwrapped, ?_, trivial⟩ trivial) fun _ => rfl
  exact comparedUpTo_of_inside _ h.names_inside

/-- **What `get_file` gives**, listed or not, is the size at the start. -/
theorem Holds.yields_getFile (h : Holds buffer position placed) (name : Name) :
    ∃ target, Yields (Inside buffer) buffer ((buffer.opened position).getFile name)
      ⟨target, buffer.firstSize⟩ True :=
  ⟨_, h.yields_lookup name _ rfl (yields_fileNew buffer _)⟩

/-- Of no file is another size given. -/
theorem Holds.size_of_getFile {file : File} (h : Holds buffer position placed) (name : Name)
    (hfile : Meets (Inside buffer) buffer ((buffer.opened position).getFile name) file) :
    file.size = buffer.firstSize := by
  obtain ⟨target, hyields⟩ := h.yields_getFile name
  obtain ⟨rfl, -⟩ := (hyields file).mp hfile
  rfl

/-- `get_directory` opens the record that is listed. -/
theorem Holds.yields_getDirectory {inner : List Placed} {entry : Placed}
    (h : Holds buffer position placed) (name : Name) (hmem : entry ∈ placed)
    (hname : entry.name = name.characters) (hinner : Holds buffer entry.target inner) :
    Yields (Inside buffer) buffer ((buffer.opened position).getDirectory name)
      (buffer.opened entry.target) True := by
  refine h.yields_lookup name (some entry.target) ?_
    ((yields_new hinner.lt).congr (iff_of_true hinner.unwrapped trivial) fun _ => rfl)
  rw [← hname, find?_of_distinct h.distinct entry hmem, Option.map_some]

/-- `get_directory` of a name that is not listed opens nothing. -/
theorem Holds.yields_getDirectory_missing (h : Holds buffer position placed) (name : Name)
    (hname : name.characters ∉ placed.map Placed.name) :
    Yields (Inside buffer) buffer ((buffer.opened position).getDirectory name)
      (buffer.opened buffer.size) True := by
  have hsize := buffer.size_lt
  have hunwrapped : buffer.Unwrapped buffer.size := by
    rw [Buffer.Unwrapped, skip_of_lt (by omega)]
    exact id
  refine h.yields_lookup name none ?_
    ((yields_new (by rw [Option.getD_none]; omega)).congr (iff_of_true hunwrapped trivial)
      fun _ => rfl)
  rw [Option.map_eq_none_iff, List.find?_eq_none]
  intro entry hmem heq
  refine hname (List.mem_map.mpr ⟨entry, hmem, ?_⟩)
  simpa using heq

/-! ## The result -/

/-- A name that is too long to be listed. -/
def longName : Name := ⟨List.replicate 256 1, by
  intro hmem
  exact absurd (List.eq_of_mem_replicate hmem) (by decide)⟩

theorem length_longName : longName.characters.length = 256 := List.length_replicate

theorem Holds.longName_notMem (h : Holds buffer position placed) :
    longName.characters ∉ (placed.map Placed.entry).map Prod.fst := by
  rw [List.map_map]
  intro hmem
  obtain ⟨entry, hentry, heq⟩ := List.mem_map.mp hmem
  have hname : entry.name = longName.characters := heq
  have hle := h.length_le entry hentry
  rw [hname, length_longName] at hle
  omega

/-- **Names are looked up right exactly where** the buffer does not start
with a file that is not empty, and no file that is listed has a size. -/
theorem looksUp_iff (h : Record buffer position (.directory entries)) :
    (∃ directory, LooksUp buffer position entries directory) ↔
      buffer.firstSize = 0 ∧
        ∀ name size, 0 ∉ name → (name, Node.file size) ∈ entries → size = 0 := by
  obtain ⟨placed, rfl, hholds⟩ := h.holds
  constructor
  · rintro ⟨directory, hlooks⟩
    obtain ⟨rfl, -⟩ := (yields_new hholds.lt _).mp hlooks.opened
    have hfirst : buffer.firstSize = 0 := by
      obtain ⟨⟨file, hfile, hsize⟩, -⟩ := hlooks.missing longName hholds.longName_notMem
      simpa [File.sizeCall, hholds.size_of_getFile longName hfile] using hsize
    refine ⟨hfirst, fun name size hzero hmem => ?_⟩
    obtain ⟨file, hfile, hsize⟩ := hlooks.file ⟨name, hzero⟩ size hmem
    rw [← hsize, File.sizeCall, hholds.size_of_getFile ⟨name, hzero⟩ hfile, hfirst]
    rfl
  · rintro ⟨hfirst, hsizes⟩
    have hfile : ∀ name, ∃ file, Meets (Inside buffer) buffer
        ((buffer.opened position).getFile name) file ∧ file.sizeCall.toNat = 0 := by
      intro name
      obtain ⟨target, hyields⟩ := hholds.yields_getFile name
      refine ⟨_, (hyields _).mpr ⟨rfl, trivial⟩, ?_⟩
      rw [File.sizeCall, hfirst]
      rfl
    refine ⟨buffer.opened position, (yields_new hholds.lt _).mpr ⟨rfl, hholds.unwrapped⟩,
      (hholds.yields_iterate _).mpr ⟨rfl, trivial⟩, fun name size hmem => ?_,
      fun name inner hmem => ?_, fun name hname => ⟨hfile name, ?_⟩⟩
    · rw [hsizes name.characters size name.notMem_zero hmem]
      exact hfile name
    · obtain ⟨entry, hentry, heq⟩ := List.mem_map.mp hmem
      obtain ⟨hcharacters, hnode⟩ := Prod.mk.inj heq
      have hrecord := hholds.records entry hentry
      rw [hnode] at hrecord
      obtain ⟨inside, rfl, hinner⟩ := hrecord.holds
      exact ⟨_, (hholds.yields_getDirectory name hentry hcharacters hinner _).mpr ⟨rfl, trivial⟩,
        (hinner.yields_iterate _).mpr ⟨rfl, trivial⟩⟩
    · rw [List.map_map] at hname
      refine ⟨_, (hholds.yields_getDirectory_missing name hname _).mpr ⟨rfl, trivial⟩, ?_⟩
      have hpast : ¬buffer.IsDirectory buffer.size := by
        rw [isDirectory_iff, numberWithin_of_past (by omega)]
        decide
      simpa [Buffer.opened] using hpast

/-- A directory with one entry, `a`, a file of seven bytes. -/
def stashImage : Buffer where
  data i := [0x52, 0x49, 0x44, 0, 1, 0x61, 15, 0, 0, 0, 0, 0, 0, 0, 0,
    0x45, 0x4c, 0x49, 0x46, 7].getD i 0
  size := 27
  size_lt := by decide

theorem record_stashImage : Record stashImage 0 (.directory [([0x61], .file 7)]) := by
  refine .directory [⟨[0x61], 15, .file 7⟩] (by decide) (by decide) ?_ (by decide) ?_
  · exact ⟨by decide, by decide, by decide, by decide, by decide, by decide, by decide, by decide⟩
  · intro entry hmem
    obtain rfl := List.mem_singleton.mp hmem
    exact .file (by decide) (by decide)

theorem looksUp_stashImage :
    (∃ directory, LooksUp stashImage 0 [([0x61], .file 7)] directory) ↔
      stashImage.firstSize = 0 ∧
        ∀ (name : List UInt8) size, 0 ∉ name → (name, Node.file size) ∈ [([0x61], .file 7)] →
          size = 0 :=
  looksUp_iff record_stashImage

/-- `get_file("a").size()` is false. -/
theorem not_looksUp_stashImage :
    Record stashImage 0 (.directory [([0x61], .file 7)]) ∧
      ¬∃ directory, LooksUp stashImage 0 [([0x61], .file 7)] directory := by
  refine ⟨record_stashImage, ?_⟩
  rintro ⟨directory, hlooks⟩
  obtain ⟨placed, -, hholds⟩ := record_stashImage.holds
  obtain ⟨rfl, -⟩ := (yields_new hholds.lt _).mp hlooks.opened
  obtain ⟨file, hfile, hsize⟩ := hlooks.file nameA 7 List.mem_cons_self
  have hfirst : stashImage.firstSize = 0 := by decide
  rw [File.sizeCall, hholds.size_of_getFile nameA hfile, hfirst] at hsize
  simp at hsize

end FileStash

end Uberos
