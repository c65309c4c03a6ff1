import Lc3.Line
import Lc3.Stmt

/-!
# Reading statements

The first token of a line is a command or a label. Numbers are checked against their fields here;
labels are looked up when the program is assembled.
-/

namespace Lc3

/-- A token with its text and its columns. -/
abbrev Piece := Lexeme Token

/-! ## Operands -/

namespace Piece

/-- The register that an operand names. -/
def reg (p : Piece) : Except Cause Reg :=
  match p.value with
  | .reg r => .ok r
  | _ => .error (.invalidRegister p.text)

/-- The number that an operand stands for. -/
def literal (p : Piece) : Except Cause Int :=
  match p.value with
  | .literal n => .ok n
  | _ => .error (.invalidLiteral p.text)

/-- A register or an immediate field. -/
def operand (bits : Nat) (p : Piece) : Except Cause (Operand bits) :=
  match p.value with
  | .reg r => .ok (.reg r)
  | .literal n =>
    match Field.signed? bits n with
    | some v => .ok (.imm v)
    | none => .error (.immediateOutOfRange bits n)
  | _ => .error (.invalidRegister p.text)

/-- An offset field. -/
def offset (bits : Nat) (p : Piece) : Except Cause (BitVec bits) := do
  let n ← p.literal
  match Field.signed? bits n with
  | some v => .ok v
  | none => .error (.offsetOutOfRange bits n)

/-- A trap vector. -/
def vector (p : Piece) : Except Cause (BitVec 8) := do
  let n ← p.literal
  match Field.unsigned? 8 n with
  | some v => .ok v
  | none => .error (.trapOutOfRange n)

/-- An offset field or a label: every token that is not a literal is taken as a label. -/
def target (bits : Nat) (p : Piece) : Except Cause (Target bits) :=
  match p.value with
  | .literal n =>
    match Field.signed? bits n with
    | some v => .ok (.offset v)
    | none => .error (.offsetOutOfRange bits n)
  | _ => .ok (.label ⟨p.text, p.span⟩)

/-- The only operand of a directive. -/
def only (name : String) : List Piece → Except Cause Piece
  | [p] => .ok p
  | ps => .error (.directiveOperandCount name ps.length)

end Piece

/-! ## Commands -/

/-- The instruction that a mnemonic and its operands spell. -/
def SourceInstr.read (m : Mnemonic) (operands : List Piece) : Except Cause SourceInstr :=
  match m, operands with
  | .add, [dr, sr, src] => return .add (← dr.reg) (← sr.reg) (← src.operand 5)
  | .and, [dr, sr, src] => return .and (← dr.reg) (← sr.reg) (← src.operand 5)
  | .not, [dr, sr] => return .not (← dr.reg) (← sr.reg)
  | .branch b, [t] => return .br b.mask (← t.target 9)
  | .jmp, [base] => return .jmp (← base.reg)
  | .jsr, [t] => return .jsr (← t.target 11)
  | .jsrr, [base] => return .jsrr (← base.reg)
  | .ld, [dr, t] => return .ld (← dr.reg) (← t.target 9)
  | .ldi, [dr, t] => return .ldi (← dr.reg) (← t.target 9)
  | .lea, [dr, t] => return .lea (← dr.reg) (← t.target 9)
  | .st, [sr, t] => return .st (← sr.reg) (← t.target 9)
  | .sti, [sr, t] => return .sti (← sr.reg) (← t.target 9)
  | .ldr, [dr, base, off] => return .ldr (← dr.reg) (← base.reg) (← off.offset 6)
  | .str, [sr, base, off] => return .str (← sr.reg) (← base.reg) (← off.offset 6)
  | .trap, [v] => return .trap (← v.vector)
  | .nop, [] => .ok .nop
  | .ret, [] => .ok .ret
  | .rti, [] => .ok .rti
  | .service s, [] => .ok (.service s)
  | m, ps => .error (.instrOperandCount m.name m.arity ps.length)

/-- The names of the directives that may follow `.ORIG`. -/
def Directive.names : List String := ["FILL", "BLKW", "STRINGZ", "END"]

/-- The directive that a name and its operands spell. `.END` does not look at its operands. -/
def Directive.read (name : String) (operands : List Piece) : Except Cause Directive :=
  let key := Text.upper name
  if key = "FILL" then do
    let p ← Piece.only key operands
    return .fill (← p.target 17)
  else if key = "BLKW" then do
    let p ← Piece.only key operands
    let n ← p.literal
    if n < 0 then .error (.negativeBlock n) else return .block n.toNat
  else if key = "STRINGZ" then do
    let p ← Piece.only key operands
    match p.value with
    | .string s => return .string s
    | _ => .error (.expectedString p.text)
  else if key = "END" then .ok .finish
  else .error (.unknownDirective name)

/-- The command that a token and its operands spell. -/
def Command.read (first : Piece) (operands : List Piece) : Except Cause Command :=
  match first.value with
  | .mnemonic m => (SourceInstr.read m operands).map .instr
  | .directive d => (Directive.read d operands).map .directive
  | _ => .error (.unknownInstr first.text)

/-- Whether a token at the start of a line is a command and not a label. -/
def Token.isCommand : Token → Bool
  | .mnemonic _ => true
  | .directive d => Directive.names.contains (Text.upper d)
  | _ => false

/-! ## Statements -/

namespace Stmt

/-- The command of a line of which the label is already read. -/
def readCommand (line : Nat) : List Piece → Except AsmError (Option Command)
  | [] => .ok none
  | first :: operands =>
    match Command.read first operands with
    | .ok c => .ok (some c)
    | .error cause => .error (.ofLine line cause)

/-- The label of a line that does not start with a command. -/
def readLabel (line : Nat) (first : Piece) : Except AsmError Label :=
  match first.value with
  | .name _ | .reg _ => .ok ⟨first.text, first.span⟩
  | _ => .error ⟨.invalidLabel first.text, line, first.span⟩

/-- The statement of a line, if there is anything on it. -/
def read (l : Line) : Except AsmError (Option Stmt) :=
  match l.tokens with
  | [] => .ok none
  | first :: rest =>
    if first.value.isCommand then do
      let command ← readCommand l.number (first :: rest)
      return some ⟨none, command, l.number⟩
    else do
      let label ← readLabel l.number first
      let command ← readCommand l.number rest
      return some ⟨some label, command, l.number⟩

/-- The statements of a list of lines, up to the first `.END` and with it. -/
def readAll : List Line → Except AsmError (List Stmt)
  | [] => .ok []
  | l :: rest => do
    match ← read l with
    | none => readAll rest
    | some s => if s.isEnd then return [s] else return s :: (← readAll rest)

end Stmt

end Lc3
