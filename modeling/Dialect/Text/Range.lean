import Dialect.Fault

/-!
# Text ranges

A range of the source text, in bytes.  Offsets are below `2 ^ 32` and a range
never ends before it starts; a range that would is a fault.
-/

set_option autoImplicit false

namespace Dialect

/-- The bytes from `start` up to but not including `stop`. -/
structure TextRange where
  start : Nat
  stop : Nat
  ordered : start ≤ stop
deriving DecidableEq, Repr

namespace TextRange

/-- The first offset that no source text reaches. -/
def offsetLimit : Nat := UInt32.size

/-- The range between two offsets. -/
def between (start stop : Nat) : Except Fault TextRange :=
  if ordered : start ≤ stop then .ok ⟨start, stop, ordered⟩ else .error .textRange

/-- The range of `length` bytes from `offset` on. -/
def sized (offset length : Nat) : Except Fault TextRange :=
  if offset + length < offsetLimit then
    .ok ⟨offset, offset + length, Nat.le_add_right ..⟩
  else .error .textRange

/-- The empty range at `offset`. -/
def emptyAt (offset : Nat) : TextRange := ⟨offset, offset, Nat.le_refl _⟩

/-- A range is determined by its two offsets. -/
@[ext] theorem ext {r s : TextRange} (start : r.start = s.start) (stop : r.stop = s.stop) :
    r = s := by
  cases r; cases s; cases start; cases stop; rfl

end TextRange

end Dialect
