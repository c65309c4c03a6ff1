import Lc3.AsmError
import Lc3.LabelTable
import Lc3.Stmt

/-!
# Layout

The statements of a program lie in memory one after the other from the origin on. The layout of a
program is the address of each label and the number of words. It exists if the program has an end,
fits into memory, and binds no name and no address twice.
-/

namespace Lc3

/-- Where the labels of a program are and how long it is. -/
structure Layout where
  labels : LabelTable
  length : Nat
  deriving DecidableEq, Repr

namespace Layout

/-- Checks that an address is within memory or just past its end. -/
def check (addr : Nat) : Except Cause Unit :=
  if addr > memorySize then .error (.pastMemory addr) else .ok ()

/-- Binds the label of a statement at `addr`, which has to be an address of a word. -/
def bind (labels : LabelTable) (addr : Nat) (s : Stmt) : Except AsmError LabelTable :=
  match s.label with
  | none => .ok labels
  | some l =>
    match check (addr + 1) with
    | .error cause => .error (.ofLine s.line cause)
    | .ok () =>
      let here : Word := BitVec.ofNat 16 addr
      match labels.addrOf? l.name with
      | some old => .error ⟨.duplicateLabel l.name old, s.line, l.cols⟩
      | none =>
        match labels.nameAt? here with
        | some old => .error ⟨.duplicateAddress old here, s.line, l.cols⟩
        | none => .ok (labels.insert l.name here)

/-- Lays out statements from `addr` on. The answer is the table and the address of the end, or
nothing if there is no `.END`. -/
def walk (labels : LabelTable) (addr : Nat) :
    List Stmt → Except AsmError (Option (LabelTable × Nat))
  | [] => .ok none
  | s :: rest => do
    let labels ← bind labels addr s
    if s.isEnd then return some (labels, addr)
    match check (addr + s.size) with
    | .error cause => .error (.ofLine s.line cause)
    | .ok () => walk labels (addr + s.size) rest

/-- The line that an end is missed on. -/
def lastLine (stmts : List Stmt) : Nat :=
  match stmts.getLast? with
  | some s => s.line
  | none => 1

/-- The layout of statements from an origin on. -/
def ofStmts (orig : Word) (stmts : List Stmt) : Except AsmError Layout := do
  match ← walk .empty orig.toNat stmts with
  | some (labels, stop) => return ⟨labels, stop - orig.toNat⟩
  | none => .error (.ofLine (lastLine stmts) .missingEnd)

end Layout

end Lc3
