import Lc3.Word

/-!
# Condition codes and the status register

The last value put into a register is negative, zero or positive, and the low three bits of the
processor status register say which, one bit each. Bit 15 says whether the machine runs in user
mode.
-/

namespace Lc3

/-- The sign of a value. -/
inductive Condition where
  | negative
  | zero
  | positive
  deriving DecidableEq, Repr

namespace Condition

/-- The sign of a word, read as a number. -/
def ofValue (w : Word) : Condition :=
  if w = 0 then .zero else if w.msb then .negative else .positive

/-- The bits N, Z and P, of which exactly one is set. -/
def bits : Condition → BitVec 3
  | .negative => 0b100
  | .zero => 0b010
  | .positive => 0b001

/-- The condition that three bits stand for, if exactly one is set. -/
def ofBits? (b : BitVec 3) : Option Condition :=
  if b = 0b100 then some .negative
  else if b = 0b010 then some .zero
  else if b = 0b001 then some .positive
  else none

/-- The letter of a condition. -/
def letter : Condition → String
  | .negative => "N"
  | .zero => "Z"
  | .positive => "P"

end Condition

/-- The processor status register. -/
abbrev Psr := BitVec 16

namespace Psr

/-- The status at power-on: the condition is zero. -/
def initial (userMode : Bool) : Psr := BitVec.ofBool userMode ++ 0#12 ++ Condition.zero.bits

/-- Whether the machine runs in user mode. -/
def userMode (psr : Psr) : Bool := psr.msb

/-- The bits N, Z and P. -/
def codes (psr : Psr) : BitVec 3 := psr.extractLsb' 0 3

/-- The condition, if exactly one of N, Z and P is set. -/
def condition? (psr : Psr) : Option Condition := Condition.ofBits? psr.codes

/-- The status after `result` was put into a register; the other bits stay. -/
def withConditionOf (psr : Psr) (result : Word) : Psr :=
  psr.extractLsb' 3 13 ++ (Condition.ofValue result).bits

/-- The letter of the condition, or `Invalid`. -/
def conditionText (psr : Psr) : String :=
  match psr.condition? with
  | some c => c.letter
  | none => "Invalid"

/-- The status as a listing shows it. -/
def text (psr : Psr) : String :=
  s!"PSR \x7b user_mode: {psr.userMode}, cc: \"{psr.conditionText}\" \x7d"

end Psr

end Lc3
