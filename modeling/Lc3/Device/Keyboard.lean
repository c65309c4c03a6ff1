import Lc3.Device

/-!
# The keyboard

When its status register is not ready and a character waits in the input, the keyboard puts the
character into its data register and becomes ready. Reading the data register makes it not ready.
-/

namespace Lc3

/-- The keyboard knows how many characters it has delivered. -/
structure Keyboard where
  delivered : Nat
  deriving DecidableEq, Repr

namespace Keyboard

/-- A keyboard that has not delivered anything. -/
def new : Keyboard := ⟨0⟩

/-- Reads a register of the keyboard; `none` for other addresses. -/
def read (s : Store) (addr : Word) : Option (Word × Store) :=
  if addr = DeviceReg.kbsr then some (s.read DeviceReg.kbsr, s)
  else if addr = DeviceReg.kbdr then some (s.read DeviceReg.kbdr, s.setReady DeviceReg.kbsr false)
  else none

/-- The effect of writing a register, which holds its new value already: none of its own. At other
addresses there is no answer. -/
def written (s : Store) (addr : Word) : Option Store :=
  if addr = DeviceReg.kbsr ∨ addr = DeviceReg.kbdr then some s else none

/-- Delivers the next character, if there is one and the last one was read. -/
def update (k : Keyboard) (s : Store) : Keyboard × Store :=
  if s.isReady DeviceReg.kbsr then (k, s)
  else
    match s.input with
    | [] => (k, s)
    | ch :: _ =>
      let s := s.dropInput.write DeviceReg.kbdr (ch.setWidth 16)
      (⟨k.delivered + 1⟩, s.setReady DeviceReg.kbsr true)

/-- Drops the input and clears the registers and the count. -/
def reset (k : Keyboard) (s : Store) : Keyboard × Store :=
  ({ k with delivered := 0 },
    ({ s with input := [] }.write DeviceReg.kbsr 0).write DeviceReg.kbdr 0)

end Keyboard

end Lc3
