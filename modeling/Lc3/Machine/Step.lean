import Lc3.Machine

/-!
# Executing instructions

A step fetches the word at the program counter, decodes it, finds its address and executes it. The
devices have a turn before and after. Every word can be executed, strictly valid or not.
-/

namespace Lc3.Machine

/-- The address that an instruction works on, seen from the incremented program counter. -/
def address (m : Machine) : AddrMode → Word
  | .none => 0
  | .pc off => m.store.pc + off
  | .base r off => m.reg (.general r) + off
  | .trap vector => vector.setWidth 16

/-- The second operand of `ADD` and `AND`. -/
def source (m : Machine) : Operand 5 → Word
  | .imm v => v.signExtend 16
  | .reg r => m.reg (.general r)

/-- Whether a branch is taken. A status without exactly one condition takes none. -/
def takes (m : Machine) (mask : BitVec 8) : Bool :=
  match Psr.condition? m.store.psr with
  | some c => mask.setWidth 3 &&& c.bits != 0
  | none => false

/-- Calls the routine at an address: the return address goes into the link register. -/
def call (m : Machine) (target : Word) : Machine :=
  let m := (m.setReg (.general Reg.link) m.store.pc).setReg .pc target
  { m with callDepth := m.callDepth + 1 }

/-- Jumps through a register. Through the link register this returns from a call. -/
def jump (m : Machine) (base : Reg) : Machine :=
  let m := m.setReg .pc (m.reg (.general base))
  if base = Reg.link then { m with callDepth := m.callDepth - 1 } else m

/-- Returns from a trap or an interrupt: takes the program counter and the status off the stack. -/
def returnFromInterrupt (m : Machine) : Machine :=
  let sp := m.reg (.general Reg.stack)
  let (pc, m) := m.read sp
  let (psr, m) := m.read (sp + 1)
  ((m.setReg (.general Reg.stack) (sp + 2)).setReg .pc pc).setReg .psr psr

/-- Executes an instruction that works on `addr`. -/
def execute (m : Machine) (addr : Word) : Instr → Machine
  | .br mask _ => if m.takes mask then m.setReg .pc addr else m
  | .add dr sr src => m.setResult dr (m.reg (.general sr) + m.source src)
  | .and dr sr src => m.setResult dr (m.reg (.general sr) &&& m.source src)
  | .not dr sr => m.setResult dr (~~~ m.reg (.general sr))
  | .ld dr _ | .ldr dr _ _ =>
    let (value, m) := m.read addr
    m.setResult dr value
  | .ldi dr _ =>
    let (pointer, m) := m.read addr
    let (value, m) := m.read pointer
    m.setResult dr value
  | .lea dr _ => m.setResult dr addr
  | .st sr _ | .str sr _ _ => m.write addr (m.reg (.general sr))
  | .sti sr _ =>
    let (pointer, m) := m.read addr
    m.write pointer (m.reg (.general sr))
  | .jsr (.imm _) => m.call addr
  | .jsr (.reg base) => m.call (m.reg (.general base))
  | .jmp base => m.jump base
  | .trap _ =>
    let (routine, m) := m.read addr
    m.call routine
  | .rti => m.returnFromInterrupt
  | .reserved => m

/-- Fetches the word at the program counter into the instruction register. -/
def fetch (m : Machine) : Word × Machine :=
  let pc := m.store.pc
  let word := m.store.read pc
  (word, (m.setReg .ir word).setReg .pc (pc + 1))

/-- Fetches and executes one instruction, without the devices. -/
def cycle (m : Machine) : Decoded × Machine :=
  let (word, m) := m.fetch
  let d := word.decode
  let m := m.execute (m.address d.instr.mode) d.instr
  (d, { m with stepCount := m.stepCount + 1 })

/-- Executes one instruction. -/
def step (m : Machine) : Decoded × Machine :=
  let (d, m) := m.exchange.cycle
  (d, m.exchange)

end Lc3.Machine
