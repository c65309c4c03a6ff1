import Lc3.Instr

/-!
# Instruction words

Every instruction has a word, and every word decodes to an instruction. A word is strictly valid if
it is the word of its instruction; the others have bits that the encoding leaves no choice about, or
the reserved opcode, and are executed all the same.
-/

namespace Lc3

namespace Instr

/-- The low bits of the second operand of `ADD` and `AND`. -/
def srcBits : Operand 5 → BitVec 6
  | .imm v => 1#1 ++ v
  | .reg r => 0#3 ++ r

/-- The word of an instruction. -/
def encode (i : Instr) : Word :=
  match i with
  | .br mask off => i.opcode ++ mask.setWidth 3 ++ off
  | .add dr sr src | .and dr sr src => i.opcode ++ dr ++ sr ++ srcBits src
  | .ld r off | .st r off | .ldi r off | .sti r off | .lea r off => i.opcode ++ r ++ off
  | .jsr (.imm off) => i.opcode ++ 1#1 ++ off
  | .jsr (.reg base) => i.opcode ++ 0#3 ++ base ++ 0#6
  | .ldr r base off | .str r base off => i.opcode ++ r ++ base ++ off
  | .not dr sr => i.opcode ++ dr ++ sr ++ 0b111111#6
  | .jmp base => i.opcode ++ 0#3 ++ base ++ 0#6
  | .trap vector => i.opcode ++ 0#4 ++ vector
  | .rti | .reserved => i.opcode ++ 0#12

end Instr

/-- A word, the instruction that it decodes to, and whether it is strictly valid. -/
structure Decoded where
  raw : Word
  instr : Instr
  strict : Bool
  deriving DecidableEq, Repr

namespace Word

/-- The three bits of a word from bit `low` up, as a register. -/
def regAt (w : Word) (low : Nat) : Reg := w.extractLsb' low 3

/-- The second operand of `ADD` and `AND`, and whether its bits are all accounted for. -/
def src (w : Word) : Operand 5 × Bool :=
  if w.getLsbD 5 then (.imm (w.setWidth 5), true)
  else (.reg (w.regAt 0), w.extractLsb' 3 2 == 0)

/-- The instruction of a word, and whether its bits are all accounted for. -/
def instr (w : Word) : Instr × Bool :=
  match (w.extractLsb' 12 4).toNat with
  | 0 => (.br ((w.regAt 9).setWidth 8) (w.setWidth 9), true)
  | 1 => (.add (w.regAt 9) (w.regAt 6) w.src.1, w.src.2)
  | 2 => (.ld (w.regAt 9) (w.setWidth 9), true)
  | 3 => (.st (w.regAt 9) (w.setWidth 9), true)
  | 4 =>
    if w.getLsbD 11 then (.jsr (.imm (w.setWidth 11)), true)
    else (.jsr (.reg (w.regAt 6)), w.extractLsb' 9 2 == 0 && w.extractLsb' 0 6 == 0)
  | 5 => (.and (w.regAt 9) (w.regAt 6) w.src.1, w.src.2)
  | 6 => (.ldr (w.regAt 9) (w.regAt 6) (w.setWidth 6), true)
  | 7 => (.str (w.regAt 9) (w.regAt 6) (w.setWidth 6), true)
  | 8 => (.rti, w.extractLsb' 0 12 == 0)
  | 9 => (.not (w.regAt 9) (w.regAt 6), w.extractLsb' 0 6 == 0b111111)
  | 10 => (.ldi (w.regAt 9) (w.setWidth 9), true)
  | 11 => (.sti (w.regAt 9) (w.setWidth 9), true)
  | 12 => (.jmp (w.regAt 6), w.extractLsb' 9 3 == 0 && w.extractLsb' 0 6 == 0)
  | 13 => (.reserved, false)
  | 14 => (.lea (w.regAt 9) (w.setWidth 9), true)
  | _ => (.trap (w.setWidth 8), w.extractLsb' 8 4 == 0)

/-- Decodes a word. -/
def decode (w : Word) : Decoded := ⟨w, w.instr.1, w.instr.2⟩

end Word

end Lc3
