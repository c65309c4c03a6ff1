import Lc3.Stmt

/-!
# Machine instructions

What a machine word can mean. Operands are fields; a label has become an offset and every alias the
instruction that it stands for.
-/

namespace Lc3

/-- An instruction of the machine. -/
inductive Instr where
  /-- A branch, taken if the condition is among those of the mask. Only the low three bits of a
  mask name conditions. -/
  | br (mask : BitVec 8) (off : BitVec 9)
  | add (dr sr : Reg) (src : Operand 5)
  | ld (dr : Reg) (off : BitVec 9)
  | st (sr : Reg) (off : BitVec 9)
  /-- A call, through an offset or through a register. -/
  | jsr (target : Operand 11)
  | and (dr sr : Reg) (src : Operand 5)
  | ldr (dr base : Reg) (off : BitVec 6)
  | str (sr base : Reg) (off : BitVec 6)
  | rti
  | not (dr sr : Reg)
  | ldi (dr : Reg) (off : BitVec 9)
  | sti (sr : Reg) (off : BitVec 9)
  /-- A jump, which is a return if it goes through the link register. -/
  | jmp (base : Reg)
  /-- The opcode without a meaning. -/
  | reserved
  | lea (dr : Reg) (off : BitVec 9)
  | trap (vector : BitVec 8)
  deriving DecidableEq, Repr

/-- How an instruction finds the address that it works on. -/
inductive AddrMode where
  /-- It has none. -/
  | none
  /-- An offset from the incremented program counter. -/
  | pc (off : Word)
  /-- An offset from a base register. -/
  | base (r : Reg) (off : Word)
  /-- An entry of the trap vector table. -/
  | trap (vector : BitVec 8)
  deriving DecidableEq, Repr

namespace Instr

/-- The opcode, the top four bits of the word. -/
def opcode : Instr → BitVec 4
  | .br _ _ => 0b0000
  | .add _ _ _ => 0b0001
  | .ld _ _ => 0b0010
  | .st _ _ => 0b0011
  | .jsr _ => 0b0100
  | .and _ _ _ => 0b0101
  | .ldr _ _ _ => 0b0110
  | .str _ _ _ => 0b0111
  | .rti => 0b1000
  | .not _ _ => 0b1001
  | .ldi _ _ => 0b1010
  | .sti _ _ => 0b1011
  | .jmp _ => 0b1100
  | .reserved => 0b1101
  | .lea _ _ => 0b1110
  | .trap _ => 0b1111

/-- The name of the instruction; branches are not told apart by their masks. -/
def mnemonic : Instr → String
  | .br _ _ => "BR"
  | .add _ _ _ => "ADD"
  | .ld _ _ => "LD"
  | .st _ _ => "ST"
  | .jsr (.imm _) => "JSR"
  | .jsr (.reg _) => "JSRR"
  | .and _ _ _ => "AND"
  | .ldr _ _ _ => "LDR"
  | .str _ _ _ => "STR"
  | .rti => "RTI"
  | .not _ _ => "NOT"
  | .ldi _ _ => "LDI"
  | .sti _ _ => "STI"
  | .jmp base => if base = Reg.link then "RET" else "JMP"
  | .reserved => "RESERVED"
  | .lea _ _ => "LEA"
  | .trap _ => "TRAP"

/-- How the instruction finds its address. -/
def mode : Instr → AddrMode
  | .br _ off | .ld _ off | .st _ off | .ldi _ off | .sti _ off | .lea _ off =>
    .pc (off.signExtend 16)
  | .jsr (.imm off) => .pc (off.signExtend 16)
  | .ldr _ base off | .str _ base off => .base base (off.signExtend 16)
  | .trap vector => .trap vector
  | .add _ _ _ | .and _ _ _ | .not _ _ | .jsr (.reg _) | .jmp _ | .rti | .reserved => .none

end Instr

end Lc3
