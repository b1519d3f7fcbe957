import Uberos.LList.Calls
import Uberos.Library.Coverage
import Uberos.Library.Run
import Uberos.Target
/-!
# The page allocator without an MMU

`_allocate_pages`, `_free_pages` and the part of `init` of
`kernel/memory.cpp` as they are built without `KERNEL_MMU`: a list of runs
of pages, each described by a `Page` written at its start. What is
written at an address is a field of that address here, and what the
callers write to the runs they hold may be anything. A walk of the list
takes so many turns at most, and a call calls itself so often.
-/

namespace Uberos

open Library

/-- The fields of the pages, by address, and the list of those that start
a free run. -/
structure PageRuns where
  links : Links ℕ
  physical : ℕ → ℕ
  count : ℕ → ℕ
  freePages : LList ℕ
  needsCompacting : Bool

namespace PageRuns

variable (T : Target)

/-- `heap` and `heapSize`: memory after the kernel's image, in the
address space. -/
structure Region where
  heap : ℕ
  heapSize : ℕ
  positive : 0 < heap
  fits : heap + heapSize ≤ T.wordSize

/-- `page.count` of the page that `init` makes of the heap. -/
def Region.pageCount {T : Target} (r : Region T) : ℕ := r.heapSize / T.pageSize % 2 ^ 32

variable {T} in
/-- What `init` makes of memory it finds anything in. -/
def init (r : Region T) (links : Links ℕ) (physical count : ℕ → ℕ) : PageRuns :=
  let s : PageRuns :=
    { links := links
      physical := Function.update physical r.heap r.heap
      count := Function.update count r.heap r.pageCount
      freePages := LList.empty
      needsCompacting := false }
  if r.pageCount > 0 then
    let (links, freePages) := LList.pushBack s.links s.freePages r.heap
    { s with links := links, freePages := freePages }
  else s

/-- `get_offset_page_physical(ahead)`. -/
def offsetPagePhysical (s : PageRuns) (page ahead : ℕ) : ℕ :=
  (s.physical page + T.pageSize * ahead) % T.wordSize

/-- The loop of `_allocate_pages`: the first page of enough pages. -/
def search (s : PageRuns) (count : ℕ) : ℕ → Option ℕ → Option (Option ℕ)
  | _, none => some none
  | 0, some _ => none
  | turns + 1, some page =>
    if s.count page ≥ count then some (some page) else search s count turns (s.links.next page)

/-- The pages that remain of a run are one of their own, after it. -/
def splitRun (s : PageRuns) (page count : ℕ) : PageRuns :=
  let nextPages := s.offsetPagePhysical T page count
  let (links, freePages) := LList.insertAfter s.links s.freePages page nextPages
  { s with
    links := links
    physical := Function.update s.physical nextPages nextPages
    count := Function.update s.count nextPages (s.count page - count)
    freePages := freePages }

/-- The body of the loop for the page it finds. -/
def takeRun (s : PageRuns) (page count : ℕ) : PageRuns :=
  let s := if s.count page - count > 0 then s.splitRun T page count else s
  let (links, freePages) := LList.pop s.links s.freePages page
  { s with
    links := links
    count := Function.update s.count page count
    freePages := freePages }

/-- `_compact`, all of which is commented out. -/
def compact (s : PageRuns) : PageRuns := s

/-- `_allocate_pages`: a page, or `nullptr`. -/
def allocatePages (s : PageRuns) (count turns : ℕ) : ℕ → Option (Option ℕ × PageRuns)
  | 0 => none
  | calls + 1 =>
    if count < 1 then some (none, s)
    else
      match s.search count turns s.freePages.head with
      | none => none
      | some (some page) => some (some page, s.takeRun T page count)
      | some none =>
        if s.needsCompacting then allocatePages s.compact count turns calls else some (none, s)

/-- `_free_pages`. -/
def freeRun (s : PageRuns) (page count : ℕ) : PageRuns :=
  let (links, freePages) := LList.pushBack s.links s.freePages page
  { links := links
    physical := Function.update s.physical page page
    count := Function.update s.count page count
    freePages := freePages
    needsCompacting := true }

/-! ## Runs of calls -/

/-- So many pages from an address on. -/
structure Run where
  page : ℕ
  count : ℕ
  deriving DecidableEq, Repr

/-- The addresses of a run. -/
def Run.extent (run : Run) : Extent := ⟨run.page, T.pageSize * run.count⟩

/-- The allocator, and what was allocated and not freed since. -/
structure Usage where
  runs : PageRuns
  outstanding : List Run

/-- What is asked of the allocator, and what the holders of runs do to
what is written in them. -/
inductive Op
  | allocate (count turns calls : ℕ)
  | free (run : Run)
  | write (links : Links ℕ) (physical count : ℕ → ℕ)

/-- One call, unless it does not return. -/
def step (u : Usage) : Op → Usage
  | .allocate count turns calls =>
    match u.runs.allocatePages T count turns calls with
    | some (some page, s) => ⟨s, ⟨page, count⟩ :: u.outstanding⟩
    | some (none, s) => ⟨s, u.outstanding⟩
    | none => u
  | .free run => ⟨u.runs.freeRun run.page run.count, u.outstanding.erase run⟩
  | .write links physical count =>
    ⟨{ u.runs with links := links, physical := physical, count := count }, u.outstanding⟩

/-- **What is freed is outstanding**, with its own count, and only what is
outstanding is written to. -/
def Legal (u : Usage) : Op → Prop
  | .allocate _ _ _ => True
  | .free run => run ∈ u.outstanding
  | .write links physical count =>
    ∀ x, (∀ run ∈ u.outstanding, x ∉ run.extent T) →
      links.next x = u.runs.links.next x ∧ links.prev x = u.runs.links.prev x ∧
        physical x = u.runs.physical x ∧ count x = u.runs.count x

end PageRuns

end Uberos
