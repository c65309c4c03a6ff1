import Lc3.Register

/-!
# Events

Everything that happens to the machine's state is announced: each event says what changed and what
it is now, so that a view of the machine can follow without looking at it.
-/

namespace Lc3

/-- A change of the machine's state. -/
inductive Event where
  /-- A memory cell was written. -/
  | memory (addr value : Word)
  /-- A register was written. -/
  | register (reg : Register) (value : Word)
  /-- A label was bound to an address. -/
  | labelSet (addr : Word) (name : String)
  /-- The binding of a label was removed. -/
  | labelUnset (addr : Word) (name : String)
  /-- A character came in. -/
  | input (ch : Byte)
  /-- A character went out. -/
  | output (ch : Byte)
  deriving DecidableEq, Repr

end Lc3
