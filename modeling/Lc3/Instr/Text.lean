import Lc3.Instr.Code
import Lc3.Stmt.Text

/-!
# The text of instructions

A listing of machine code can be assembled again. Words that no instruction spells, branches that
are never taken among them, are listed as data.
-/

namespace Lc3

/-- A word listed as data. -/
def Word.data (w : Word) : String := ".FILL " ++ w.hex

/-- An instruction as a listing shows it. -/
def Instr.text (i : Instr) : String :=
  match i with
  | .br mask off =>
    if mask = 0 then if off = 0 then "NOP" else i.encode.data
    else listing (Branch.listed mask) [Field.text off.toInt]
  | .add dr sr src => listing "ADD" [dr.name, sr.name, src.text]
  | .ld dr off => listing "LD" [dr.name, Field.text off.toInt]
  | .st sr off => listing "ST" [sr.name, Field.text off.toInt]
  | .jsr target => listing i.mnemonic [target.text]
  | .and dr sr src => listing "AND" [dr.name, sr.name, src.text]
  | .ldr dr base off => listing "LDR" [dr.name, base.name, Field.text off.toInt]
  | .str sr base off => listing "STR" [sr.name, base.name, Field.text off.toInt]
  | .rti => "RTI"
  | .not dr sr => listing "NOT" [dr.name, sr.name]
  | .ldi dr off => listing "LDI" [dr.name, Field.text off.toInt]
  | .sti sr off => listing "STI" [sr.name, Field.text off.toInt]
  | .jmp base => if base = Reg.link then "RET" else listing "JMP" [base.name]
  | .reserved => "RESERVED"
  | .lea dr off => listing "LEA" [dr.name, Field.text off.toInt]
  | .trap vector => listing "TRAP" [trapText vector]

/-- A word as a listing shows it: data if it is not strictly valid, and a trap into a service
routine by the routine's name. -/
def Word.disassemble (w : Word) : String :=
  if w.decode.strict then
    match w.decode.instr with
    | .trap vector =>
      match Service.ofVector? vector with
      | some s => s.name
      | none => w.decode.instr.text
    | i => i.text
  else w.data

end Lc3
