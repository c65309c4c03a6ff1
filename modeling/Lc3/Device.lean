import Lc3.Store

/-!
# Device registers

The keyboard, the display and the clock are reached through memory cells. A device keeps its
registers in memory like everything else; it adds effects to reading and writing them, and between
instructions it moves characters between them and the outside.
-/

namespace Lc3

namespace DeviceReg

/-- Keyboard status: bit 15 says that a character waits in the data register. -/
def kbsr : Word := 0xFE00

/-- Keyboard data. -/
def kbdr : Word := 0xFE02

/-- Display status: bit 15 says that the display can take a character. -/
def dsr : Word := 0xFE04

/-- Display data. -/
def ddr : Word := 0xFE06

/-- Machine control: bit 15 says that the clock runs. -/
def mcr : Word := 0xFFFE

/-- Bit 15. -/
def readyBit : Word := 0x8000

end DeviceReg

namespace Store

/-- Whether bit 15 of a cell is set. -/
def isReady (s : Store) (addr : Word) : Bool := (s.read addr).msb

/-- A word with bit 15 as given. -/
def withReady (w : Word) (ready : Bool) : Word :=
  BitVec.ofBool ready ++ w.setWidth 15

/-- Sets or clears bit 15 of a cell. -/
def setReady (s : Store) (addr : Word) (ready : Bool) : Store :=
  s.write addr (withReady (s.read addr) ready)

end Store

end Lc3
