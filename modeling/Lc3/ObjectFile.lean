import Lc3.Instr.Code
import Lc3.Layout
import Lc3.Program

/-!
# Object files

An object file is a block of words, the address where it goes, and its labels. The words of a
program come out statement by statement, with labels looked up in a finished table: an instruction
gets the distance from the address after it, and `.FILL` the address itself.
-/

namespace Lc3

/-! ## From labels to words -/

/-- The field of a target, seen from the incremented program counter. -/
def Target.resolve {n : Nat} (labels : LabelTable) (pc : Nat) :
    Target n → Except Cause (BitVec n)
  | .offset v => .ok v
  | .label l =>
    match labels.addrOf? l.name with
    | none => .error (.undefinedLabel l.name)
    | some addr =>
      let distance : Int := (addr.toNat : Int) - pc
      match Field.signed? n distance with
      | some v => .ok v
      | none => .error (.offsetOutOfRange n distance)

/-- The machine instruction of a written one, of which `pc` is the address after it. -/
def SourceInstr.resolve (labels : LabelTable) (pc : Nat) : SourceInstr → Except Cause Instr
  | .add dr sr src => .ok (.add dr sr src)
  | .and dr sr src => .ok (.and dr sr src)
  | .br mask t => (t.resolve labels pc).map (.br mask)
  | .jmp base => .ok (.jmp base)
  | .jsr t => (t.resolve labels pc).map fun off => .jsr (.imm off)
  | .jsrr base => .ok (.jsr (.reg base))
  | .ld dr t => (t.resolve labels pc).map (.ld dr)
  | .ldi dr t => (t.resolve labels pc).map (.ldi dr)
  | .ldr dr base off => .ok (.ldr dr base off)
  | .lea dr t => (t.resolve labels pc).map (.lea dr)
  | .not dr sr => .ok (.not dr sr)
  | .ret => .ok (.jmp Reg.link)
  | .rti => .ok .rti
  | .st sr t => (t.resolve labels pc).map (.st sr)
  | .sti sr t => (t.resolve labels pc).map (.sti sr)
  | .str sr base off => .ok (.str sr base off)
  | .trap vector => .ok (.trap vector)
  | .nop => .ok (.br 0 0)
  | .service s => .ok (.trap s.vector)

/-- The words of a directive. -/
def Directive.words (labels : LabelTable) : Directive → Except Cause (List Word)
  | .fill (.offset v) => .ok [v.setWidth 16]
  | .fill (.label l) =>
    match labels.addrOf? l.name with
    | some addr => .ok [addr]
    | none => .error (.undefinedLabel l.name)
  | .block n => .ok (List.replicate n 0)
  | .string s => .ok (Text.utf16 s ++ [0])
  | .finish => .ok []

/-- The words of a command at `addr`. -/
def Command.words (labels : LabelTable) (addr : Nat) : Command → Except Cause (List Word)
  | .instr i => (i.resolve labels (addr + 1)).map fun i => [i.encode]
  | .directive d => d.words labels

/-- The words of a statement at `addr`. -/
def Stmt.words (labels : LabelTable) (addr : Nat) (s : Stmt) : Except AsmError (List Word) :=
  match s.command with
  | none => .ok []
  | some c => (c.words labels addr).mapError (.ofLine s.line)

/-- The words of statements from `addr` on, up to the first `.END`. -/
def Stmt.allWords (labels : LabelTable) (addr : Nat) : List Stmt → Except AsmError (List Word)
  | [] => .ok []
  | s :: rest =>
    if s.isEnd then .ok []
    else do
      let ws ← s.words labels addr
      let more ← allWords labels (addr + ws.length) rest
      return ws ++ more

/-! ## Object files -/

/-- A block of words, its address and its labels. -/
structure ObjectFile where
  orig : Word
  words : List Word
  labels : LabelTable
  deriving DecidableEq, Repr

namespace ObjectFile

/-- The object file of statements whose labels are known. -/
def ofStmts (orig : Word) (stmts : List Stmt) (labels : LabelTable) :
    Except AsmError ObjectFile := do
  let words ← Stmt.allWords labels orig.toNat stmts
  return ⟨orig, words, labels⟩

/-- The object file of a program. -/
def ofProgram (p : Program) : Except AsmError ObjectFile := do
  let layout ← Layout.ofStmts p.orig p.stmts
  ofStmts p.orig p.stmts layout.labels

/-- The object file of a source text. -/
def assemble (source : String) : Except AsmError ObjectFile := do
  let p ← Program.read source
  ofProgram p

/-- Every word with its address; addresses wrap around the end of memory. -/
def addressed (o : ObjectFile) : List (Word × Word) :=
  o.words.zipIdx.map fun (w, i) => (o.orig + BitVec.ofNat 16 i, w)

end ObjectFile

end Lc3
