import Lc3.Condition
import Lc3.LabelTable
import Lc3.Observer
import Lc3.Store.Fill

/-!
# The store

The state of the machine: memory, registers, labels, and the characters that wait to be read. Every
change goes through a setter, and every setter announces it. Reading and writing here is raw: it
does not wake any device.
-/

namespace Lc3

/-- The state of the machine. -/
structure Store where
  memory : Memory
  general : Bank Word 3
  pc : Word
  ir : Word
  psr : Psr
  labels : LabelTable
  input : List Byte
  observer : Observer

namespace Store

/-- A store without labels, input or subscribers. -/
def new (fill : Fill) : Store where
  memory := fill.bank 0 16
  general := fill.bank memorySize 3
  pc := 0x3000
  ir := 0
  psr := Psr.initial false
  labels := .empty
  input := []
  observer := .empty

/-- Announces an event. -/
def emit (s : Store) (e : Event) : Store := { s with observer := s.observer.emit e }

/-! ## Memory -/

/-- The word at an address. -/
def read (s : Store) (addr : Word) : Word := s.memory.get addr

/-- Writes a word. -/
def write (s : Store) (addr value : Word) : Store :=
  { s with memory := s.memory.set addr value, observer := s.observer.emit (.memory addr value) }

/-- Writes words one after the other; addresses wrap around the end of memory. -/
def writeBlock (s : Store) (start : Word) : List Word → Store
  | [] => s
  | w :: ws => (s.write start w).writeBlock (start + 1) ws

/-! ## Registers -/

/-- The word in a register. -/
def reg (s : Store) : Register → Word
  | .general r => s.general.get r
  | .pc => s.pc
  | .ir => s.ir
  | .psr => s.psr

/-- Puts a word into a register without saying so. -/
def putReg (s : Store) (r : Register) (value : Word) : Store :=
  match r with
  | .general r => { s with general := s.general.set r value }
  | .pc => { s with pc := value }
  | .ir => { s with ir := value }
  | .psr => { s with psr := value }

/-- Writes a register. -/
def setReg (s : Store) (r : Register) (value : Word) : Store :=
  (s.putReg r value).emit (.register r value)

/-! ## Labels -/

/-- Binds a label to an address. The bindings that it collides with are removed first. -/
def setLabel (s : Store) (name : String) (addr : Word) : Store :=
  let s' := (s.labels.evicted name addr).foldl (fun s e => s.emit (.labelUnset e.1 e.2)) s
  { s' with labels := s.labels.insert name addr }.emit (.labelSet addr name)

/-- Binds labels to addresses, in order. -/
def setLabels (s : Store) (bindings : List (Word × String)) : Store :=
  bindings.foldl (fun s e => s.setLabel e.2 e.1) s

/-- Removes the label at an address, if there is one. -/
def unsetAddr (s : Store) (addr : Word) : Store :=
  match s.labels.nameAt? addr with
  | some name => { s with labels := s.labels.eraseAddr addr }.emit (.labelUnset addr name)
  | none => s

/-- Removes a label, if it is bound. -/
def unsetName (s : Store) (name : String) : Store :=
  match s.labels.addrOf? name with
  | some addr => { s with labels := s.labels.eraseName name }.emit (.labelUnset addr name)
  | none => s

/-! ## Characters -/

/-- Puts a character at the end of the input. -/
def queue (s : Store) (ch : Byte) : Store :=
  { s with input := s.input ++ [ch] }.emit (.input ch)

/-- The input without its first character. -/
def dropInput (s : Store) : Store := { s with input := s.input.tail }

/-- Announces that a character went out. -/
def output (s : Store) (ch : Byte) : Store := s.emit (.output ch)

/-! ## Starting over -/

/-- Removes all labels, in the order of their addresses. -/
def clearLabels (s : Store) : Store :=
  s.labels.entries.foldl (fun s e => s.unsetAddr e.1) s

/-- Writes a memory cell if it does not hold the word yet. -/
def ensure (s : Store) (addr value : Word) : Store :=
  if s.read addr = value then s else s.write addr value

/-- Writes a register if it does not hold the word yet. -/
def ensureReg (s : Store) (r : Register) (value : Word) : Store :=
  if s.reg r = value then s else s.setReg r value

/-- Every address, in increasing order. -/
def addresses : List Word := (List.range memorySize).map (BitVec.ofNat 16)

/-- Returns to the state of a new store. Subscribers stay, and hear of every change. -/
def reset (s : Store) (fill : Fill) : Store :=
  let fresh := new fill
  let s := s.clearLabels
  let s := addresses.foldl (fun s a => s.ensure a (fresh.read a)) s
  let s := Register.all.foldl (fun s r => s.ensureReg r (fresh.reg r)) s
  { s with input := [] }

end Store

end Lc3
