import Lc3.Stmt.Reader

/-!
# Programs

A program is its origin and its statements. The origin stands in an `.ORIG` line, the first that is
not blank, and the statements follow it.
-/

namespace Lc3

/-- Where a program goes and what it is made of. -/
structure Program where
  orig : Word
  stmts : List Stmt
  deriving DecidableEq, Repr

/-- The origin of a program and the number of lines up to it. -/
structure Origin where
  orig : Word
  begin : Nat
  deriving DecidableEq, Repr

namespace Origin

/-- Whether a token is `.ORIG`. -/
def isOrigin (p : Piece) : Bool :=
  match p.value with
  | .directive d => Text.upper d == "ORIG"
  | _ => false

/-- The operands of an `.ORIG` line. -/
def operands : List Piece → Except Cause (List Piece)
  | [] => .error .missingOrigin
  | first :: rest =>
    if isOrigin first then .ok rest
    else
      match rest with
      | second :: _ => if isOrigin second then .error .labeledOrigin else .error .missingOrigin
      | [] => .error .missingOrigin

/-- The address that the operands of `.ORIG` give. -/
def address : List Piece → Except Cause Word
  | [p] => do
    let n ← p.literal
    match Field.unsigned? 16 n with
    | some w => .ok w
    | none => .error (.originOutOfRange p.text)
  | ps => .error (.originOperandCount ps.length)

/-- Finds the origin in lines of which `passed` went before. -/
def findFrom (passed : Nat) : List Line → Except AsmError Origin
  | [] => .error (.ofLine 1 .emptyProgram)
  | l :: rest =>
    if l.isEmpty then findFrom (passed + 1) rest
    else
      match operands l.tokens >>= address with
      | .ok orig => .ok ⟨orig, passed + 1⟩
      | .error cause => .error (.ofLine l.number cause)

/-- Finds the origin of a program. -/
def find (lines : List Line) : Except AsmError Origin := findFrom 0 lines

end Origin

/-- The program that a source text spells. -/
def Program.read (source : String) : Except AsmError Program := do
  let lines ← Line.readAll source
  let origin ← Origin.find lines
  let stmts ← Stmt.readAll (lines.drop origin.begin)
  return ⟨origin.orig, stmts⟩

end Lc3
