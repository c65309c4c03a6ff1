import Lc3.Word

/-!
# Registers

Eight general registers, of which `R6` is the stack pointer and `R7` the return address by
convention, and three special ones: the program counter, the instruction register and the
processor status register.
-/

namespace Lc3

/-- The number of a general register. -/
abbrev Reg := BitVec 3

namespace Reg

/-- The stack pointer. -/
def stack : Reg := 6

/-- The register that holds the return address of a call. -/
def link : Reg := 7

/-- `R0` to `R7`. -/
def name (r : Reg) : String := s!"R{r.toNat}"

/-- The register of a number below eight. -/
def ofNumber? (n : Nat) : Option Reg := if n < 8 then some (BitVec.ofNat 3 n) else none

/-- What is said of a register number that is too large. -/
def missingMessage (n : Nat) : String := s!"there is no register R{n}"

end Reg

/-- Any register of the machine. -/
inductive Register where
  | general (r : Reg)
  | pc
  | ir
  | psr
  deriving DecidableEq, Repr

namespace Register

/-- The register's name in a listing. -/
def name : Register → String
  | .general r => r.name
  | .pc => "PC"
  | .ir => "IR"
  | .psr => "PSR"

/-- Every register: `R0` to `R7`, then the special ones. -/
def all : List Register :=
  (List.range 8).map (fun n => .general (BitVec.ofNat 3 n)) ++ [.pc, .ir, .psr]

end Register

end Lc3
