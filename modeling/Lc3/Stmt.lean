import Lc3.Field
import Lc3.Mnemonic
import Lc3.Place
import Lc3.Register
import Lc3.Text.Units

/-!
# Statements

A line of assembly is a statement: a label, a command, or both. Operands that stand for an address
may be labels still, and some instructions are written under a name of their own although the
machine has no opcode for them.
-/

namespace Lc3

/-- A label, with the columns where it is written. -/
structure Label where
  name : String
  cols : Span
  deriving DecidableEq, Repr

/-- An operand that is a field of `n` bits or a label that will be turned into one. -/
inductive Target (n : Nat) where
  | offset (value : BitVec n)
  | label (l : Label)
  deriving DecidableEq, Repr

/-- An operand that is a field of `n` bits or a register. -/
inductive Operand (n : Nat) where
  | imm (value : BitVec n)
  | reg (r : Reg)
  deriving DecidableEq, Repr

/-- An instruction as it is written. -/
inductive SourceInstr where
  | add (dr sr : Reg) (src : Operand 5)
  | and (dr sr : Reg) (src : Operand 5)
  | br (mask : BitVec 8) (target : Target 9)
  | jmp (base : Reg)
  | jsr (target : Target 11)
  | jsrr (base : Reg)
  | ld (dr : Reg) (target : Target 9)
  | ldi (dr : Reg) (target : Target 9)
  | ldr (dr base : Reg) (off : BitVec 6)
  | lea (dr : Reg) (target : Target 9)
  | not (dr sr : Reg)
  | ret
  | rti
  | st (sr : Reg) (target : Target 9)
  | sti (sr : Reg) (target : Target 9)
  | str (sr base : Reg) (off : BitVec 6)
  | trap (vector : BitVec 8)
  | nop
  | service (s : Service)
  deriving DecidableEq, Repr

/-- A directive that may follow `.ORIG`. -/
inductive Directive where
  /-- `.FILL`: one word, given as a number or as the address of a label. -/
  | fill (value : Target 17)
  /-- `.BLKW`: a number of zero words. -/
  | block (length : Nat)
  /-- `.STRINGZ`: the UTF-16 units of a string and a zero word. -/
  | string (contents : String)
  /-- `.END`: the program ends here, whatever follows. -/
  | finish
  deriving DecidableEq, Repr

/-- What a line asks for. -/
inductive Command where
  | instr (i : SourceInstr)
  | directive (d : Directive)
  deriving DecidableEq, Repr

/-- A statement and the number of its line. -/
structure Stmt where
  label : Option Label
  command : Option Command
  line : Nat
  deriving DecidableEq, Repr

/-- The words that a directive takes up. -/
def Directive.size : Directive → Nat
  | .fill _ => 1
  | .block n => n
  | .string s => (Text.utf16 s).length + 1
  | .finish => 0

/-- The words that a command takes up. -/
def Command.size : Command → Nat
  | .instr _ => 1
  | .directive d => d.size

namespace Stmt

/-- The words that a statement takes up. -/
def size (s : Stmt) : Nat :=
  match s.command with
  | some c => c.size
  | none => 0

/-- Whether the statement is `.END`. -/
def isEnd (s : Stmt) : Bool := s.command = some (.directive .finish)

end Stmt

end Lc3
