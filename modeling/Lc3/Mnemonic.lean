import Lc3.Condition
import Lc3.Text.Upper

/-!
# Mnemonics

The names of instructions, in upper case. Branches come in seven spellings and one short form, and
six names stand for a `TRAP` into a service routine of the operating system.
-/

namespace Lc3

/-- The spellings of a branch, by the conditions that take it. -/
inductive Branch where
  | always
  | n
  | z
  | p
  | nz
  | np
  | zp
  | nzp
  deriving DecidableEq, Repr

namespace Branch

/-- The mnemonic of a branch. -/
def name : Branch → String
  | .always => "BR"
  | .n => "BRN"
  | .z => "BRZ"
  | .p => "BRP"
  | .nz => "BRNZ"
  | .np => "BRNP"
  | .zp => "BRZP"
  | .nzp => "BRNZP"

/-- The conditions that take a branch, one bit each for N, Z and P. -/
def mask : Branch → BitVec 8
  | .always => 0b111
  | .n => 0b100
  | .z => 0b010
  | .p => 0b001
  | .nz => 0b110
  | .np => 0b101
  | .zp => 0b011
  | .nzp => 0b111

/-- How a listing names the branch of a mask: only the low three bits have a letter. -/
def listed (mask : BitVec 8) : String :=
  "BR" ++ (if mask.getLsbD 2 then "n" else "") ++ (if mask.getLsbD 1 then "z" else "")
    ++ (if mask.getLsbD 0 then "p" else "")

end Branch

/-- The service routines of the operating system. -/
inductive Service where
  | getc
  | out
  | puts
  | input
  | putsp
  | halt
  deriving DecidableEq, Repr

namespace Service

/-- The mnemonic that calls a routine. -/
def name : Service → String
  | .getc => "GETC"
  | .out => "OUT"
  | .puts => "PUTS"
  | .input => "IN"
  | .putsp => "PUTSP"
  | .halt => "HALT"

/-- The trap vector of a routine. -/
def vector : Service → BitVec 8
  | .getc => 0x20
  | .out => 0x21
  | .puts => 0x22
  | .input => 0x23
  | .putsp => 0x24
  | .halt => 0x25

/-- Every routine, in the order of the vectors. -/
def all : List Service := [.getc, .out, .puts, .input, .putsp, .halt]

/-- The routine of a trap vector, if it has one. -/
def ofVector? (v : BitVec 8) : Option Service := all.find? fun s => s.vector = v

end Service

/-- The names of instructions. -/
inductive Mnemonic where
  | add
  | and
  | not
  | branch (b : Branch)
  | jmp
  | jsr
  | jsrr
  | ld
  | ldi
  | ldr
  | lea
  | st
  | sti
  | str
  | trap
  | nop
  | ret
  | rti
  | service (s : Service)
  deriving DecidableEq, Repr

namespace Mnemonic

/-- The spelling of a mnemonic. -/
def name : Mnemonic → String
  | .add => "ADD"
  | .and => "AND"
  | .not => "NOT"
  | .branch b => b.name
  | .jmp => "JMP"
  | .jsr => "JSR"
  | .jsrr => "JSRR"
  | .ld => "LD"
  | .ldi => "LDI"
  | .ldr => "LDR"
  | .lea => "LEA"
  | .st => "ST"
  | .sti => "STI"
  | .str => "STR"
  | .trap => "TRAP"
  | .nop => "NOP"
  | .ret => "RET"
  | .rti => "RTI"
  | .service s => s.name

/-- How many operands the instruction takes. -/
def arity : Mnemonic → Nat
  | .add | .and | .ldr | .str => 3
  | .not | .ld | .ldi | .lea | .st | .sti => 2
  | .branch _ | .jmp | .jsr | .jsrr | .trap => 1
  | .nop | .ret | .rti | .service _ => 0

/-- Every mnemonic. -/
def all : List Mnemonic :=
  [.add, .and, .not, .branch .always, .branch .n, .branch .z, .branch .p, .branch .nz, .branch .np,
   .branch .zp, .branch .nzp, .jmp, .jsr, .jsrr, .ld, .ldi, .ldr, .lea, .st, .sti, .str, .trap,
   .nop, .ret, .rti] ++ Service.all.map .service

/-- The mnemonic that a name spells, in either case. -/
def ofName? (s : String) : Option Mnemonic :=
  let key := Text.upper s
  all.find? fun m => m.name = key

end Mnemonic

end Lc3
