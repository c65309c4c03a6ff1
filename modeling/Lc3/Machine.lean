import Lc3.Device.Devices
import Lc3.ObjectFile

/-!
# The machine

A machine is a store, the devices, and the operating system that it starts with. It counts the
instructions that it has executed and the calls that have not returned. Access to memory goes
through the devices.
-/

namespace Lc3

/-- How a machine starts: what fills memory and registers, where the program counter points, and
whether it is in user mode. -/
structure Flags where
  fill : Fill := .known 0
  startPc : Word := 0x3000
  userMode : Bool := true

/-- The program that a machine is loaded with when it starts. -/
abbrev OsImage := ObjectFile

/-- A machine. -/
structure Machine where
  store : Store
  devices : Devices
  callDepth : Nat
  stepCount : Nat
  flags : Flags
  os : OsImage

namespace Store

/-- Writes the words of an object file and binds its labels. -/
def load (s : Store) (o : ObjectFile) : Store :=
  (s.writeBlock o.orig o.words).setLabels o.labels.entries

/-- Loads the operating system, sets the program counter and the status, and starts the clock. -/
def powerOn (s : Store) (flags : Flags) (os : OsImage) : Store :=
  (((s.load os).setReg .pc flags.startPc).setReg .psr (Psr.initial flags.userMode)).write
    DeviceReg.mcr DeviceReg.readyBit

end Store

namespace Machine

/-- The machine after its power came on: the store is loaded and every device is reset. -/
def powerOn (m : Machine) : Machine :=
  let (devices, store) := m.devices.reset (m.store.powerOn m.flags m.os)
  { m with store, devices }

/-- A machine that was never on. -/
def unused (flags : Flags) (os : OsImage) : Machine where
  store := .new flags.fill
  devices := .new
  callDepth := 0
  stepCount := 0
  flags := flags
  os := os

/-- A machine that has just been switched on. -/
def new (flags : Flags) (os : OsImage) : Machine := powerOn (unused flags os)

/-- Switches the machine off and on again. The flags may have changed since it was made. -/
def reset (m : Machine) : Machine :=
  powerOn { m with store := m.store.reset m.flags.fill, callDepth := 0, stepCount := 0 }

/-- Applies a change to the store, without waking the devices. -/
def onStore (m : Machine) (f : Store → Store) : Machine := { m with store := f m.store }

/-- Loads a program. -/
def load (m : Machine) (o : ObjectFile) : Machine := m.onStore (·.load o)

/-! ## Access through the devices -/

/-- Reads memory, with the effects of reading a device register. -/
def read (m : Machine) (addr : Word) : Word × Machine :=
  match Devices.read m.store addr with
  | some (value, s) => (value, { m with store := s })
  | none => (m.store.read addr, m)

/-- Writes memory, with the effects of writing a device register. -/
def write (m : Machine) (addr value : Word) : Machine :=
  m.onStore fun s =>
    let s := s.write addr value
    (Devices.written s addr).getD s

/-- Lets the devices exchange characters with the outside. -/
def exchange (m : Machine) : Machine :=
  let (devices, s) := m.devices.update m.store
  { m with store := s, devices }

/-- Adds a character to the input. -/
def type (m : Machine) (ch : Byte) : Machine := m.onStore (·.queue ch)

/-- Everything that the display has shown. -/
def shown (m : Machine) : List Byte := m.devices.display.shown.toList

/-- Whether the clock runs. -/
def isRunning (m : Machine) : Bool := m.store.isReady DeviceReg.mcr

/-- Starts or stops the clock. -/
def setClock (m : Machine) (on : Bool) : Machine := m.onStore (·.setReady DeviceReg.mcr on)

/-! ## Registers -/

/-- The word in a register. -/
def reg (m : Machine) (r : Register) : Word := m.store.reg r

/-- Writes a register. -/
def setReg (m : Machine) (r : Register) (value : Word) : Machine := m.onStore (·.setReg r value)

/-- Puts a result into a general register and its sign into the condition codes. -/
def setResult (m : Machine) (dr : Reg) (value : Word) : Machine :=
  let m := m.setReg (.general dr) value
  m.setReg .psr (Psr.withConditionOf m.store.psr value)

end Machine

end Lc3
