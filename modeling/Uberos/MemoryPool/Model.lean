import Uberos.Target
import Uberos.Library.Run
import Uberos.Library.Coverage
import Mathlib.Data.List.Sort
/-!
# The kernel heap

`MemoryPool` of `common/MemoryPool.hpp` and `PagedPool` of
`kernel/memory/PagedPool.hpp`, at the alignment of `kernelHeap`, the size
of a word. A block is the address of its header and the size in it; the
free list is the list of its blocks, from head to tail. Sizes, addresses
and counters are words and wrap; `requiredSize` and `remainingSize` are
`unsigned` in the source and so 32 bits wide on every target.

The headers of the blocks in use are memory that only `free` reads back;
they stand in `Heap.live`. The page allocator is what a call is granted:
the addresses of its successive runs of pages, and failure after them.
-/

namespace Uberos

open Library

/-- A `MemoryPoolBlock`: where it is and the size it records. -/
structure Block where
  addr : ℕ
  size : ℕ
  deriving DecidableEq, Repr

/-- The fields of a `MemoryPool`. -/
structure MemoryPool where
  available : ℕ
  used : ℕ
  needsCompacting : Bool
  availableBlocks : List Block
  deriving DecidableEq, Repr

namespace Target

/-- `MemoryPoolBlock::headerSize`: two links and a size. -/
def headerSize (T : Target) : ℕ := 3 * T.wordBytes

/-- The alignment the pool is instantiated at, `sizeof(size_t)`. -/
def alignment (T : Target) : ℕ := T.wordBytes

/-- `align(x, alignment)` of a `size_t`. -/
def align (T : Target) (x : ℕ) : ℕ :=
  (x + if x % T.alignment ≠ 0 then T.alignment - x % T.alignment else 0) % T.wordSize

/-- `unsigned requiredSize = align(size, alignment)`. -/
def requiredSize (T : Target) (size : ℕ) : ℕ := T.align size % 2 ^ 32

end Target

namespace Block

variable (T : Target)

/-- `&block->_data`. -/
def data (b : Block) : ℕ := (b.addr + T.headerSize) % T.wordSize

/-- `&block->_data + block->size`, where a block that follows starts. -/
def next (b : Block) : ℕ := (b.data T + b.size) % T.wordSize

/-- The constructor, `MemoryPoolBlock(size)` placed at `addr`. -/
def place (addr size : ℕ) : Block := ⟨addr, (size + T.wordSize - T.headerSize) % T.wordSize⟩

/-- What a block becomes when the block after it is merged into it. -/
def merge (b other : Block) : Block :=
  { b with size := (b.size + (T.headerSize + other.size)) % T.wordSize }

/-- The bytes of the block, header and data. -/
def extent (b : Block) : Extent := ⟨b.addr, T.headerSize + b.size⟩

end Block

namespace MemoryPool

variable (T : Target)

/-- A pool constructed on no memory. -/
def empty : MemoryPool := ⟨0, 0, false, []⟩

/-! ## Claiming a block -/

/-- Forwards to the first block at least as large, and before it. -/
def insertForwards (reclaim : Block) (blocks : List Block) : List Block :=
  blocks.orderedInsert (fun a b => a.size ≤ b.size) reclaim

/-- Backwards to the last block no larger, and after it. -/
def insertBackwards (reclaim : Block) (blocks : List Block) : List Block :=
  (blocks.reverse.orderedInsert (fun a b => b.size ≤ a.size) reclaim).reverse

/-- `claim_block`. An empty list takes the block either way. -/
def claimBlock (pool : MemoryPool) (reclaim : Block) : MemoryPool :=
  { pool with
    available := (pool.available + reclaim.size) % T.wordSize
    availableBlocks :=
      if reclaim.size ≥ T.pageSize then insertBackwards reclaim pool.availableBlocks
      else insertForwards reclaim pool.availableBlocks }

/-! ## Compacting -/

/-- The first block that passes the test, and the others. -/
def popFirst (test : Block → Bool) : List Block → Option (Block × List Block)
  | [] => none
  | b :: blocks =>
    if test b then some (b, blocks)
    else (popFirst test blocks).map fun (found, others) => (found, b :: others)

/-- `searchForNext`: a block merges the blocks that start where it ends
until there is none, each search starting at the head of the list and
leaving the block itself out. It stands between `before` and `after`. -/
def searchForNext : ℕ → List Block → Block → List Block → List Block × Block × List Block
  | 0, before, block, after => (before, block, after)
  | fuel + 1, before, block, after =>
    match popFirst (fun other => other.addr = block.next T) before with
    | some (other, before) => searchForNext fuel before (block.merge T other) after
    | none =>
      match popFirst (fun other => other.addr = block.next T) after with
      | some (other, after) => searchForNext fuel before (block.merge T other) after
      | none => (before, block, after)

/-- The outer loop of the merge, over the blocks from head to tail. -/
def mergeAdjacent : ℕ → List Block → List Block → List Block
  | 0, before, after => before ++ after
  | _ + 1, before, [] => before
  | fuel + 1, before, block :: after =>
    let (before, block, after) := searchForNext T (before.length + after.length) before block after
    mergeAdjacent fuel (before ++ [block]) after

/-- The insertion sort of `compact`. -/
def sortBySize (blocks : List Block) : List Block :=
  blocks.foldl (fun sorted block => insertForwards block sorted) []

/-- `compact()`, which answers `false` whatever it did. -/
def compact (pool : MemoryPool) : Bool × MemoryPool :=
  (false,
    { pool with
      availableBlocks :=
        sortBySize (mergeAdjacent T pool.availableBlocks.length [] pool.availableBlocks)
      needsCompacting := false })

/-! ## Allocating -/

/-- The backward search: from the tail, the first block that holds the
request and whose `prev` does not or is missing. The list is the free
list reversed. -/
def popBackwards (requiredSize : ℕ) : List Block → Option (Block × List Block)
  | [] => none
  | b :: blocks =>
    if b.size ≥ requiredSize ∧ ∀ prev ∈ blocks.head?, prev.size < requiredSize then some (b, blocks)
    else (popBackwards requiredSize blocks).map fun (found, others) => (found, b :: others)

/-- The block `malloc` takes and the free list without it. -/
def search (requiredSize : ℕ) (blocks : List Block) : Option (Block × List Block) :=
  if requiredSize ≥ T.pageSize then
    (popBackwards requiredSize blocks.reverse).map fun (found, others) => (found, others.reverse)
  else popFirst (fun b => b.size ≥ requiredSize) blocks

/-- `const unsigned remainingSize = block->size-requiredSize`. -/
def remainingSize (requiredSize : ℕ) (block : Block) : ℕ := (block.size - requiredSize) % 2 ^ 32

/-- Whether the tail of the block is large enough to be a block. -/
def Splits (requiredSize : ℕ) (block : Block) : Prop :=
  remainingSize requiredSize block > T.headerSize ∧ remainingSize requiredSize block ≥ T.alignment

instance (requiredSize : ℕ) (block : Block) : Decidable (Splits T requiredSize block) :=
  inferInstanceAs (Decidable (_ ∧ _))

/-- The block constructed in the tail. -/
def remainingSlot (requiredSize : ℕ) (block : Block) : Block :=
  Block.place T ((block.data T + requiredSize) % T.wordSize) (remainingSize requiredSize block)

/-- What `malloc` does with the block it found, the same in both of its
loops. The whole block leaves `available` first. -/
def takeBlock (pool : MemoryPool) (requiredSize : ℕ) (block : Block) (others : List Block) :
    Block × MemoryPool :=
  let pool :=
    { pool with
      available := (pool.available + T.wordSize - block.size) % T.wordSize
      availableBlocks := others }
  if Splits T requiredSize block then
    let pool := claimBlock T pool (remainingSlot T requiredSize block)
    (⟨block.addr, requiredSize⟩, { pool with used := (pool.used + requiredSize) % T.wordSize })
  else (block, { pool with used := (pool.used + block.size) % T.wordSize })

/-- `malloc(size)`, to a depth of calls of itself. -/
def mallocDepth : ℕ → MemoryPool → ℕ → Option Block × MemoryPool
  | 0, pool, _ => (none, pool)
  | depth + 1, pool, size =>
    let requiredSize := T.requiredSize size
    match search T requiredSize pool.availableBlocks with
    | some (block, others) =>
      let (block, pool) := takeBlock T pool requiredSize block others
      (some block, pool)
    | none =>
      if pool.needsCompacting = true ∧ pool.available ≥ requiredSize then
        match compact T pool with
        | (true, pool) => mallocDepth depth pool size
        | (false, pool) => (none, pool)
      else (none, pool)

/-- `malloc(size)`. `compact` clears `needsCompacting`, so the call it
makes of itself would make none. -/
def malloc (pool : MemoryPool) (size : ℕ) : Option Block × MemoryPool := mallocDepth T 2 pool size

/-- `free(address)`, of the block whose header stands before it. -/
def free (pool : MemoryPool) (block : Block) : MemoryPool :=
  let pool := claimBlock T pool block
  { pool with used := (pool.used + T.wordSize - block.size) % T.wordSize, needsCompacting := true }

end MemoryPool

/-! ## The paged pool -/

/-- A `PagedPool`, the blocks its users hold and the runs of pages added
to it. -/
structure Heap where
  pool : MemoryPool
  live : List Block
  pages : List Extent
  deriving DecidableEq, Repr

namespace Heap

variable (T : Target)

/-- `PagedPool()`. -/
def empty : Heap := ⟨MemoryPool.empty, [], []⟩

/-- `MemoryPool::malloc`, of which the caller keeps what it is given. -/
def superMalloc (s : Heap) (size : ℕ) : Option Block × Heap :=
  match s.pool.malloc T size with
  | (some block, pool) => (some block, { s with pool := pool, live := block :: s.live })
  | (none, pool) => (none, { s with pool := pool })

/-- `add_pages(count)` of a run at `address`; the allocator has none of
no pages. -/
def addPages (s : Heap) (count address : ℕ) : Option Heap :=
  if count % 2 ^ 32 < 1 then none
  else
    let size := (T.pageSize * (count % 2 ^ 32)) % T.wordSize
    some { s with
      pool := s.pool.claimBlock T (Block.place T address size)
      pages := ⟨address, T.pageSize * (count % 2 ^ 32)⟩ :: s.pages }

/-- The pages a failed request adds. -/
def pageCount (requiredSize : ℕ) : ℕ :=
  if (T.headerSize + requiredSize) % T.wordSize ≥ T.pageSize then
    ((T.headerSize + requiredSize + T.pageSize - 1) % T.wordSize) / T.pageSize
  else 1

/-- The loop of `PagedPool::malloc`. -/
def mallocLoop (requiredSize : ℕ) : List ℕ → Heap → Option Block × Heap
  | [], s => superMalloc T s requiredSize
  | address :: grants, s =>
    match superMalloc T s requiredSize with
    | (some block, s) => (some block, s)
    | (none, s) =>
      match addPages T s (pageCount T requiredSize) address with
      | some s => mallocLoop requiredSize grants s
      | none => (none, s)

/-- `PagedPool::malloc(size)`. -/
def malloc (s : Heap) (size : ℕ) (grants : List ℕ) : Option Block × Heap :=
  let requiredSize := T.requiredSize size
  if requiredSize > s.pool.available then
    match grants with
    | [] => (none, s)
    | address :: grants =>
      match addPages T s (pageCount T requiredSize) address with
      | some s => mallocLoop T requiredSize grants s
      | none => (none, s)
  else mallocLoop T requiredSize grants s

/-- `free(address)`: the header before the address is that of a block in
use. -/
def free (s : Heap) (address : ℕ) : Heap :=
  match s.live.find? (fun b => b.data T = address) with
  | some block => { s with pool := s.pool.free T block, live := s.live.erase block }
  | none => s

/-- `compact()`. -/
def compact (s : Heap) : Heap := { s with pool := (s.pool.compact T).2 }

/-- What the kernel asks of its heap. -/
inductive Op
  | malloc (size : ℕ) (grants : List ℕ)
  | free (address : ℕ)
  | compact
  deriving DecidableEq, Repr

/-- One operation. -/
def step (s : Heap) : Op → Heap
  | .malloc size grants => (malloc T s size grants).2
  | .free address => free T s address
  | .compact => compact T s

end Heap

end Uberos
