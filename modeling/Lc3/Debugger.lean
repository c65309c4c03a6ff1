import Lc3.Machine.Step

/-!
# The debugger

A debugger runs a machine until the clock stops, a breakpoint is met, a limit is reached, or the
step that was asked for is finished. Goals and breakpoints are looked at after each instruction, so
that a run that starts at a breakpoint leaves it.
-/

namespace Lc3

/-- A test on a word; words are compared without sign. -/
inductive Comparator where
  | never
  | always
  | lt (bound : Word)
  | eq (bound : Word)
  | le (bound : Word)
  | gt (bound : Word)
  | ne (bound : Word)
  | ge (bound : Word)
  deriving DecidableEq, Repr

namespace Comparator

/-- Whether a word passes. -/
def check (value : Word) : Comparator → Bool
  | .never => false
  | .always => true
  | .lt bound => value < bound
  | .eq bound => value = bound
  | .le bound => value ≤ bound
  | .gt bound => bound < value
  | .ne bound => value ≠ bound
  | .ge bound => bound ≤ value

/-- The test as a listing shows it, with the bound in decimal. -/
def text : Comparator → String
  | .never => "never"
  | .always => "always"
  | .lt bound => s!"< {bound.toNat}"
  | .eq bound => s!"== {bound.toNat}"
  | .le bound => s!"<= {bound.toNat}"
  | .gt bound => s!"> {bound.toNat}"
  | .ne bound => s!"!= {bound.toNat}"
  | .ge bound => s!">= {bound.toNat}"

end Comparator

/-- A condition that stops a run. It looks at memory without waking the devices. -/
inductive Breakpoint where
  /-- The program counter is at an address. -/
  | pc (addr : Word)
  /-- A register passes a test. -/
  | reg (r : Register) (test : Comparator)
  /-- A memory cell passes a test. -/
  | memory (addr : Word) (test : Comparator)
  deriving DecidableEq, Repr

namespace Breakpoint

/-- Whether the machine meets the breakpoint. -/
def check (m : Machine) : Breakpoint → Bool
  | .pc addr => m.store.pc = addr
  | .reg r test => test.check (m.reg r)
  | .memory addr test => test.check (m.store.read addr)

/-- The breakpoint as a listing shows it. -/
def text : Breakpoint → String
  | .pc addr => s!"PC == {addr.hex}"
  | .reg r test => s!"{r.name} {test.text}"
  | .memory addr test => s!"mem[{addr.hex}] {test.text}"

end Breakpoint

/-- Why a run ended. -/
inductive StopReason where
  | halted
  | breakpoint
  | stepLimit
  | completed
  deriving DecidableEq, Repr

/-- The breakpoints, and the number of instructions that a run may execute. -/
structure Debugger where
  breakpoints : List Breakpoint := []
  stepLimit : Option Nat := some 1000000

namespace Debugger

/-- Whether a run may not go on after `steps` instructions. -/
def isExhausted (d : Debugger) (steps : Nat) : Bool :=
  match d.stepLimit with
  | some limit => limit ≤ steps
  | none => false

/-- Whether the machine meets a breakpoint. -/
def breaksAt (d : Debugger) (m : Machine) : Bool := d.breakpoints.any (·.check m)

/-- Runs the machine, which has executed `steps` instructions, until `goal` holds or something else
stops it. There is no answer if that takes more than `fuel` instructions. -/
def runUntil (d : Debugger) (goal : Machine → Bool) (steps : Nat) :
    (fuel : Nat) → Machine → Option (StopReason × Machine)
  | 0, _ => none
  | fuel + 1, m =>
    if !m.isRunning then some (.halted, m)
    else if d.isExhausted steps then some (.stepLimit, m)
    else
      let m := m.step.2
      if goal m then some (.completed, m)
      else if d.breaksAt m then some (.breakpoint, m)
      else d.runUntil goal (steps + 1) fuel m

/-- Runs until the clock stops. -/
def run (d : Debugger) (fuel : Nat) (m : Machine) : Option (StopReason × Machine) :=
  d.runUntil (fun _ => false) 0 fuel m

/-- Executes one instruction. -/
def stepIn (d : Debugger) (fuel : Nat) (m : Machine) : Option (StopReason × Machine) :=
  d.runUntil (fun _ => true) 0 fuel m

/-- Executes one instruction, and what it calls. -/
def stepOver (d : Debugger) (fuel : Nat) (m : Machine) : Option (StopReason × Machine) :=
  let depth := m.callDepth
  d.runUntil (fun m => m.callDepth ≤ depth) 0 fuel m

/-- Runs until the routine returns that the machine is in. Outside of any routine there is nothing
to do. -/
def stepOut (d : Debugger) (fuel : Nat) (m : Machine) : Option (StopReason × Machine) :=
  let depth := m.callDepth
  if depth = 0 then some (.completed, m)
  else d.runUntil (fun m => m.callDepth < depth) 0 fuel m

/-- Fuel that every run with a limit gets by on; without a limit, more than any run will use. -/
def enough (d : Debugger) : Nat :=
  match d.stepLimit with
  | some limit => limit + 1
  | none => 1 <<< 62

end Debugger

end Lc3
