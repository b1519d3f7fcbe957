import Mathlib.Algebra.Group.Nat.Defs
/-!
# The targets a kernel is built for

`kernel/tasks.boop` names the targets, `common/config.h` their word size
and `kernel/memory.hpp` their page size. `size_t`, `UPtr` and `Reg` are
one word wide on each of them, and `unsigned` is 32 bits on all of them.
-/

namespace Uberos

/-- A build target. -/
inductive Target
  | x86_32
  | x86_64
  | arm32
  | arm64
  deriving DecidableEq, Repr

namespace Target

/-- `sizeof(size_t)`, which is also `sizeof(UPtr)` and `sizeof(Reg)`. -/
def wordBytes : Target → ℕ
  | x86_32 | arm32 => 4
  | x86_64 | arm64 => 8

/-- The number of values a word has. -/
def wordSize (T : Target) : ℕ := 2 ^ (8 * T.wordBytes)

/-- `memory::pageSize`. -/
def pageSize : Target → ℕ
  | x86_32 | x86_64 | arm32 => 4 * 1024
  | arm64 => 16 * 1024

theorem wordBytes_eq (T : Target) : T.wordBytes = 4 ∨ T.wordBytes = 8 := by
  cases T <;> simp [wordBytes]

end Target

end Uberos
