import Mathlib.Algebra.Group.Nat.Defs
import Uberos.Stdlib
/-!
# File stashes

`BufferReader` of `common/BufferReader.hpp`, and the readers of
`common/fileStash` over it. A position is a `U64`; `data[i]` is what
stands `i` bytes from `data`, also where that is not in the buffer, and
what is read is logged. A name is compared by the `memcmp` of
`common/stdlib.cpp`.
-/

namespace Uberos

open Library Library.Scan

namespace FileStash

/-- `Buffer`, with what memory holds from `data` on. -/
structure Buffer where
  data : ℕ → UInt8
  size : ℕ
  /-- No object is larger than `PTRDIFF_MAX`. -/
  size_lt : size < 2 ^ 63

namespace Buffer

variable (buffer : Buffer)

/-- The number in so many bytes, the lowest first. -/
def number (index : ℕ) : ℕ → ℕ
  | 0 => 0
  | bytes + 1 => (buffer.data index).toNat + 256 * number (index + 1) bytes

/-- So many bytes. -/
def slice (index bytes : ℕ) : List UInt8 := (List.range bytes).map fun i => buffer.data (index + i)

end Buffer

/-- A read of `data[index]` and the bytes after it. -/
structure Read where
  index : ℕ
  bytes : ℕ
  deriving DecidableEq, Repr

/-- A program that reads a buffer. -/
abbrev Program := Scan Buffer Read

/-! ## `BufferReader` -/

/-- `position + bytes` -/
def skip (position bytes : ℕ) : ℕ := (position + bytes) % 2 ^ 64

/-- What `read_u8` to `read_u64` do: the number, and where the reader is then. -/
def readNumber (bytes position : ℕ) : Program (ℕ × ℕ) := do
  let size ← .ask Buffer.size
  if skip position bytes > size then pure (0, size)
  else do
    let value ← .read (·.number position bytes) ⟨position, bytes⟩
    pure (value, skip position bytes)

/-- `read_u8` -/
def readU8 : (position : ℕ) → Program (ℕ × ℕ) := readNumber 1

/-- `read_u32` -/
def readU32 : (position : ℕ) → Program (ℕ × ℕ) := readNumber 4

/-- `read_u64` -/
def readU64 : (position : ℕ) → Program (ℕ × ℕ) := readNumber 8

/-- `read_bytes`: what is put at the target, and where the reader is then. -/
def readBytes (bytes position : ℕ) : Program (List UInt8 × ℕ) := do
  let size ← .ask Buffer.size
  let remaining := (size + (2 ^ 64 - position)) % 2 ^ 64
  if remaining < bytes then do
    let copied ← .read (·.slice position remaining) ⟨position, remaining⟩
    pure (copied ++ List.replicate (bytes - remaining) 0, size)
  else do
    let copied ← .read (·.slice position bytes) ⟨position, bytes⟩
    pure (copied, skip position bytes)

/-! ## Records -/

/-- `'F'<<24|'I'<<16|'L'<<8|'E'` -/
def fileMagic : ℕ := 0x46494c45

/-- `'D'<<16|'I'<<8|'R'` -/
def directoryMagic : ℕ := 0x444952

inductive FileType
  | unknown
  | file
  | directory
  deriving DecidableEq, Repr

/-- The `switch` over the type. -/
def typeOf (type : ℕ) : FileType :=
  if type = fileMagic then .file else if type = directoryMagic then .directory else .unknown

/-- `File`. Its `_is_eof` is never read. -/
structure File where
  position : ℕ
  size : ℕ
  deriving DecidableEq, Repr

/-- `File(buffer, position)`: its reader is never moved to the position. -/
def File.new (position : ℕ) : Program File := do
  let (magic, reader) ← readU32 0
  if magic ≠ fileMagic then pure ⟨position, 0⟩
  else do
    let (size, _) ← readU64 reader
    pure ⟨position, size⟩

/-- `size()`, which returns a `bool`. -/
def File.sizeCall (file : File) : Bool := file.size ≠ 0

/-- `DirectoryEntry`, with the name up to the null that is put behind it. -/
structure DirectoryEntry where
  name : List UInt8 := []
  type : FileType := .unknown
  deriving DecidableEq, Repr

/-- `Directory`, with the position of its reader. -/
structure Directory where
  reader : ℕ
  position : ℕ
  isEof : Bool
  deriving DecidableEq, Repr

/-- A name that is passed: a `const C8*`. -/
structure Name where
  characters : List UInt8
  notMem_zero : 0 ∉ characters

namespace Directory

/-- `reset()` -/
def reset (directory : Directory) : Program Directory := do
  let (magic, reader) ← readU32 directory.position
  pure { directory with reader := reader, isEof := magic ≠ directoryMagic }

/-- `Directory(buffer, position)` -/
def new (position : ℕ) : Program Directory := reset ⟨0, position, true⟩

/-- `read()` -/
def read (directory : Directory) : Program (DirectoryEntry × Directory) := do
  if directory.isEof then pure ({}, directory)
  else do
    let (nameLength, reader) ← readU8 directory.reader
    if nameLength = 0 then pure ({}, { directory with reader := reader, isEof := true })
    else do
      let (name, reader) ← readBytes nameLength reader
      let (target, reader) ← readU64 reader
      let type ← Scan.read (·.number target 4) ⟨target, 4⟩
      pure (⟨name, typeOf type⟩, { directory with reader := reader })

/-- A turn of `while(!is_eof()) read()`, with what has been read. -/
def iterateTurn (entries : List DirectoryEntry × Directory) :
    Program ((List DirectoryEntry × Directory) ⊕ List DirectoryEntry) := do
  if entries.2.isEof then pure (.inr entries.1)
  else do
    let (entry, directory) ← entries.2.read
    pure (.inl (entries.1 ++ [entry], directory))

/-- All that `read()` gives until `is_eof()`. -/
def iterate (directory : Directory) : Program (List DirectoryEntry) :=
  .loop iterateTurn ([], directory)

/-- `entryName` -/
def entryName (position : ℕ) : Stdlib.Text Buffer Read := fun i =>
  .read (·.data (position + i)) ⟨position + i, 1⟩

/-- A turn of the loop of `get_file` and of `get_directory`, which ends with
the `target` of the entry that has the name. -/
def lookupTurn (name : List UInt8) (nameLength position : ℕ) : Program (ℕ ⊕ Option ℕ) := do
  let (entryLength, position) ← readU8 position
  if entryLength = 0 then pure (.inr none)
  else do
    let (target, next) ← readU64 (skip position entryLength)
    if entryLength = nameLength then do
      let diff ← Stdlib.memcmp (Stdlib.literal name) (entryName position) nameLength
      if diff = 0 then pure (.inr (some target)) else pure (.inl next)
    else pure (.inl next)

/-- What `get_file` and `get_directory` do, which differ in what they make of
a position. -/
def lookup {α : Type} (make : ℕ → Program α) (directory : Directory) (name : Name) :
    Program α := do
  let nameLength ← Stdlib.strlen (Stdlib.literal name.characters)
  let size ← .ask Buffer.size
  let (magic, position) ← readU32 directory.position
  if magic ≠ directoryMagic then make size
  else do
    let target ← .loop (lookupTurn name.characters nameLength) position
    make (target.getD size)

/-- `get_file` -/
def getFile : Directory → Name → Program File := lookup File.new

/-- `get_directory` -/
def getDirectory : Directory → Name → Program Directory := lookup new

end Directory

end FileStash

end Uberos
