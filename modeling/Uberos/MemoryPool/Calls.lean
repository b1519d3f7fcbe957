import Uberos.MemoryPool.Blocks
/-!
# The calls an operation makes

`PagedPool::malloc` is a loop of `Super::malloc` and `add_pages`. What an
operation does to the heap is what its calls do one after the other, so
an invariant of the four kinds of call is one of the operations, and a
condition on calls is met by an operation when each of its calls meets
it.
-/

namespace Uberos

namespace Heap

open Library MemoryPool

variable (T : Target) {s : Heap} {op : Op}

/-- A call of one of the functions below `PagedPool::malloc`. -/
inductive Call
  | addPages (count address : ℕ)
  | superMalloc (size : ℕ)
  | free (address : ℕ)
  | compact
  deriving DecidableEq, Repr

/-- What a call does. -/
def call (s : Heap) : Call → Heap
  | .addPages count address => (addPages T s count address).getD s
  | .superMalloc size => (superMalloc T s size).2
  | .free address => free T s address
  | .compact => compact T s

/-- The calls of the loop of `PagedPool::malloc`. -/
def loopCalls (requiredSize : ℕ) : List ℕ → Heap → List Call
  | [], _ => [.superMalloc requiredSize]
  | address :: grants, s =>
    .superMalloc requiredSize ::
      match superMalloc T s requiredSize with
      | (some _, _) => []
      | (none, s) =>
        .addPages (pageCount T requiredSize) address ::
          match addPages T s (pageCount T requiredSize) address with
          | some s => loopCalls requiredSize grants s
          | none => []

/-- The calls of an operation. -/
def calls (s : Heap) : Op → List Call
  | .malloc size grants =>
    if T.requiredSize size > s.pool.available then
      match grants with
      | [] => []
      | address :: grants =>
        .addPages (pageCount T (T.requiredSize size)) address ::
          match addPages T s (pageCount T (T.requiredSize size)) address with
          | some s => loopCalls T (T.requiredSize size) grants s
          | none => []
    else loopCalls T (T.requiredSize size) grants s
  | .free address => [.free address]
  | .compact => [.compact]

/-- Every call of the operation satisfies `P` where it is made. -/
def Each (P : Heap → Call → Prop) (s : Heap) (op : Op) : Prop := Along (call T) P s (calls T s op)

instance (P : Heap → Call → Prop) [∀ s c, Decidable (P s c)] (s : Heap) (op : Op) :
    Decidable (Each T P s op) :=
  inferInstanceAs (Decidable (Along (call T) P s _))

variable {T}

/-- **The loop is its calls.** -/
theorem loopCalls_run (requiredSize : ℕ) (grants : List ℕ) (s : Heap) :
    run (call T) s (loopCalls T requiredSize grants s) = (mallocLoop T requiredSize grants s).2 := by
  induction grants generalizing s with
  | nil => rfl
  | cons address grants ih =>
    rw [loopCalls, mallocLoop, run_cons]
    rcases hres : superMalloc T s requiredSize with ⟨_ | block, s'⟩
    · simp only [run_cons, call, hres]
      rcases hadd : addPages T s' (pageCount T requiredSize) address with _ | s''
      · simp
      · simp only [Option.getD_some]
        exact ih s''
    · simp only [run_nil, call, hres]

/-- **An operation is its calls.** -/
theorem step_eq_run (s : Heap) (op : Op) : step T s op = run (call T) s (calls T s op) := by
  cases op with
  | malloc size grants =>
    simp only [step, malloc, calls]
    split
    · cases grants with
      | nil => rfl
      | cons address grants =>
        simp only [run_cons, call]
        rcases addPages T s (pageCount T (T.requiredSize size)) address with _ | s'
        · rfl
        · exact (loopCalls_run _ grants s').symm
    · exact (loopCalls_run _ grants s).symm
  | free address => rfl
  | compact => rfl

/-- What every call keeps, an operation keeps. -/
theorem step_invariant {P : Heap → Call → Prop} {I : Heap → Prop} (hs : I s)
    (heach : Each T P s op) (hcall : ∀ s c, I s → P s c → I (call T s c)) :
    I (step T s op) := by
  rw [step_eq_run]
  exact run_invariant heach hs hcall

/-! ## What a call may assume -/

/-- **What the page allocator promises of a run**: a page-aligned address
that is not null, with all of the run in the address space and apart from
the runs before it. -/
def Granted (T : Target) (s : Heap) (pages : Extent) : Prop :=
  0 < pages.start ∧ pages.start % T.pageSize = 0 ∧ pages.stop ≤ T.wordSize ∧
    ∀ before ∈ s.pages, Extent.Apart before pages

/-- A call the users and the page allocator may make: what is freed is
live, what is added was promised. -/
def Legal (T : Target) (s : Heap) : Call → Prop
  | .addPages count address =>
    1 ≤ count % 2 ^ 32 → Granted T s ⟨address, T.pageSize * (count % 2 ^ 32)⟩
  | .free address => ∃ block ∈ s.live, block.data T = address
  | .superMalloc _ | .compact => True

instance (s : Heap) (c : Call) : Decidable (Legal T s c) := by
  cases c <;> simp only [Legal, Granted] <;> infer_instance

/-! ## What a call does -/

/-- The blocks in use and free. -/
def blocks (s : Heap) : List Block := s.live ++ s.pool.availableBlocks

theorem addPages_eq {count address : ℕ} (h : 1 ≤ count % 2 ^ 32) :
    call T s (.addPages count address) =
      { s with
        pool := s.pool.claimBlock T (Block.place T address
          ((T.pageSize * (count % 2 ^ 32)) % T.wordSize))
        pages := ⟨address, T.pageSize * (count % 2 ^ 32)⟩ :: s.pages } := by
  rw [call, addPages, if_neg (by omega)]
  rfl

theorem addPages_none {count address : ℕ} (h : ¬ 1 ≤ count % 2 ^ 32) :
    call T s (.addPages count address) = s := by
  rw [call, addPages, if_pos (by omega)]
  rfl

/-- A live block is the one found at its address. -/
theorem free_eq {address : ℕ} (h : ∃ block ∈ s.live, block.data T = address) :
    ∃ block ∈ s.live, block.data T = address ∧ call T s (.free address) =
      { s with pool := s.pool.free T block, live := s.live.erase block } := by
  rcases hfind : s.live.find? (fun b => b.data T = address) with _ | block
  · obtain ⟨block, hmem, hdata⟩ := h
    have := List.find?_eq_none.1 hfind block hmem
    exact absurd hdata (by simpa using this)
  · refine ⟨block, List.mem_of_find?_eq_some hfind, ?_, ?_⟩
    · simpa using List.find?_some hfind
    · rw [call, free, hfind]

/-- **The ways of `Super::malloc`**: a block is taken whole, or split, or
none holds the request. -/
theorem superMalloc_cases (s : Heap) (size : ℕ) :
    (∃ block others, T.requiredSize size ≤ block.size ∧
      search T (T.requiredSize size) s.pool.availableBlocks = some (block, others) ∧
      s.pool.availableBlocks.Perm (block :: others) ∧
      call T s (.superMalloc size) =
        { s with
          pool := (takeBlock T s.pool (T.requiredSize size) block others).2
          live := (takeBlock T s.pool (T.requiredSize size) block others).1 :: s.live }) ∨
    ((∀ b ∈ s.pool.availableBlocks, b.size < T.requiredSize size) ∧
      call T s (.superMalloc size) =
        if s.pool.needsCompacting = true ∧ s.pool.available ≥ T.requiredSize size then
          compact T s else s) := by
  rcases MemoryPool.malloc_cases (T := T) s.pool size with
    ⟨block, others, hsearch, hres⟩ | ⟨hsearch, hres⟩
  · obtain ⟨hle, hperm⟩ := search_some hsearch
    exact Or.inl ⟨block, others, hle, hsearch, hperm, by rw [call, superMalloc, hres]⟩
  · refine Or.inr ⟨search_none hsearch, ?_⟩
    rw [call, superMalloc, hres]
    simp only
    split <;> rfl

end Heap

end Uberos
