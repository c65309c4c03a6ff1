import Lc3.Stmt
import Lc3.Text.Quoted

/-!
# The text of statements

A statement is printed in a form that can be assembled again: mnemonics in upper case and directives
in lower case, fields in decimal, trap vectors in hexadecimal, strings between quotes.
-/

namespace Lc3

/-- A target in a listing. -/
def Target.text {n : Nat} : Target n → String
  | .offset v => Field.text v.toInt
  | .label l => l.name

/-- An operand in a listing. -/
def Operand.text {n : Nat} : Operand n → String
  | .imm v => Field.text v.toInt
  | .reg r => r.name

/-- A mnemonic and its operands. -/
def listing (name : String) (operands : List String) : String :=
  if operands.isEmpty then name else name ++ " " ++ String.intercalate ", " operands

/-- A trap vector in a listing. -/
def trapText (vector : BitVec 8) : String := "x" ++ Text.hex 2 vector.toNat

/-- An instruction as a listing shows it. -/
def SourceInstr.text : SourceInstr → String
  | .add dr sr src => listing "ADD" [dr.name, sr.name, src.text]
  | .and dr sr src => listing "AND" [dr.name, sr.name, src.text]
  | .br mask target => listing (Branch.listed mask) [target.text]
  | .jmp base => listing "JMP" [base.name]
  | .jsr target => listing "JSR" [target.text]
  | .jsrr base => listing "JSRR" [base.name]
  | .ld dr target => listing "LD" [dr.name, target.text]
  | .ldi dr target => listing "LDI" [dr.name, target.text]
  | .ldr dr base off => listing "LDR" [dr.name, base.name, Field.text off.toInt]
  | .lea dr target => listing "LEA" [dr.name, target.text]
  | .not dr sr => listing "NOT" [dr.name, sr.name]
  | .ret => "RET"
  | .rti => "RTI"
  | .st sr target => listing "ST" [sr.name, target.text]
  | .sti sr target => listing "STI" [sr.name, target.text]
  | .str sr base off => listing "STR" [sr.name, base.name, Field.text off.toInt]
  | .trap vector => listing "TRAP" [trapText vector]
  | .nop => "NOP"
  | .service s => s.name

/-- A directive as a listing shows it. -/
def Directive.text : Directive → String
  | .fill value => ".fill " ++ value.text
  | .block n => ".blkw " ++ Field.text n
  | .string s => ".stringz " ++ Text.quoted s
  | .finish => ".end"

/-- A command as a listing shows it. -/
def Command.text : Command → String
  | .instr i => i.text
  | .directive d => d.text

/-- A statement as a listing shows it: the label first. -/
def Stmt.text (s : Stmt) : String :=
  match s.label, s.command with
  | some l, some c => l.name ++ " " ++ c.text
  | some l, none => l.name
  | none, some c => c.text
  | none, none => ""

end Lc3
