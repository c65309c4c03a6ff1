import Lc3.Text.Digits

/-!
# Words

The LC-3 is a 16-bit machine: its registers, memory cells and addresses are all words.
A word is unsigned as an address and two's complement as a number, and arithmetic is modulo 2^16.
-/

namespace Lc3

/-- A machine word. -/
abbrev Word := BitVec 16

/-- A character as the keyboard and the display carry it. -/
abbrev Byte := BitVec 8

/-- The number of words in memory. -/
def memorySize : Nat := 0x10000

/-- A word as the assembler writes it: `x` and four hexadecimal digits. -/
def Word.hex (w : Word) : String := "x" ++ Text.hex 4 w.toNat

end Lc3
