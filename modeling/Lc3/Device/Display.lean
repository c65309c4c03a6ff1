import Lc3.Device

/-!
# The display

Writing the data register makes the display not ready. When it is not ready it takes the low byte of
the data register, appends it to what it has shown, and becomes ready again.
-/

namespace Lc3

/-- The display knows everything that it has shown. -/
structure Display where
  shown : Array Byte
  deriving DecidableEq, Repr

namespace Display

/-- A display that has not shown anything. -/
def new : Display := ⟨#[]⟩

/-- Reads a register of the display; `none` for other addresses. -/
def read (s : Store) (addr : Word) : Option (Word × Store) :=
  if addr = DeviceReg.dsr ∨ addr = DeviceReg.ddr then some (s.read addr, s) else none

/-- The effect of writing a register, which holds its new value already; `none` for other
addresses. -/
def written (s : Store) (addr : Word) : Option Store :=
  if addr = DeviceReg.ddr then some (s.setReady DeviceReg.dsr false)
  else if addr = DeviceReg.dsr then some s
  else none

/-- Shows the character in the data register, if the display is not ready. -/
def update (d : Display) (s : Store) : Display × Store :=
  if s.isReady DeviceReg.dsr then (d, s)
  else
    let ch : Byte := (s.read DeviceReg.ddr).setWidth 8
    (⟨d.shown.push ch⟩, (s.output ch).setReady DeviceReg.dsr true)

/-- Clears the registers and what was shown. -/
def reset (d : Display) (s : Store) : Display × Store :=
  ({ d with shown := #[] }, (s.write DeviceReg.dsr DeviceReg.readyBit).write DeviceReg.ddr 0)

end Display

end Lc3
