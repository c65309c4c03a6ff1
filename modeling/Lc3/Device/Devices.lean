import Lc3.Device.Display
import Lc3.Device.Keyboard

/-!
# The devices together

An access goes to the device that owns the register. The keyboard has its turn before the display.
-/

namespace Lc3

/-- The devices of the machine. -/
structure Devices where
  keyboard : Keyboard
  display : Display
  deriving DecidableEq, Repr

namespace Devices

/-- The devices before their first reset. -/
def new : Devices := ⟨.new, .new⟩

/-- Reads a register; `none` if no device owns it. -/
def read (s : Store) (addr : Word) : Option (Word × Store) :=
  match Keyboard.read s addr with
  | some r => some r
  | none => Display.read s addr

/-- The effect of writing a register; `none` if no device owns it. -/
def written (s : Store) (addr : Word) : Option Store :=
  match Keyboard.written s addr with
  | some s => some s
  | none => Display.written s addr

/-- Lets every device move its characters. -/
def update (d : Devices) (s : Store) : Devices × Store :=
  let (keyboard, s) := d.keyboard.update s
  let (display, s) := d.display.update s
  (⟨keyboard, display⟩, s)

/-- Puts every device into its state at power-on. -/
def reset (d : Devices) (s : Store) : Devices × Store :=
  let (keyboard, s) := d.keyboard.reset s
  let (display, s) := d.display.reset s
  (⟨keyboard, display⟩, s)

end Devices

end Lc3
