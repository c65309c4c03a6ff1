import Lc3.Word

/-!
# Fields

An operand is a field of a few bits inside a word. A field holds a number exactly or not at all:
`[-2^(n-1), 2^(n-1))` if it is signed and `[0, 2^n)` if it is not.
-/

namespace Lc3.Field

/-- The least number that a signed field holds. -/
def least (bits : Nat) : Int := -(1 <<< (bits - 1) : Nat)

/-- The greatest number that a signed field holds. -/
def greatest (bits : Nat) : Int := (1 <<< (bits - 1) : Nat) - 1

/-- The signed field that holds `n`, if `n` fits. -/
def signed? (bits : Nat) (n : Int) : Option (BitVec bits) :=
  if least bits ≤ n ∧ n ≤ greatest bits then some (BitVec.ofInt bits n) else none

/-- The unsigned field that holds `n`, if `n` fits. -/
def unsigned? (bits : Nat) (n : Int) : Option (BitVec bits) :=
  if 0 ≤ n ∧ n < (1 <<< bits : Nat) then some (BitVec.ofInt bits n) else none

/-- The number in the low bits of a word, read as a signed field of 1 to 16 bits. -/
def signedLow? (bits : Nat) (w : Word) : Option Int :=
  if 1 ≤ bits ∧ bits ≤ 16 then some (w.setWidth bits).toInt else none

/-- What is said of a width that `signedLow?` refuses. -/
def widthMessage (bits : Nat) : String := s!"cannot sign extend a {bits}-bit field"

/-- What is said of a number that does not fit a field. -/
def misfitMessage (bits : Nat) : String := s!"does not fit in {bits} bits"

/-- A number as an operand: `#` and its decimal digits. -/
def text (n : Int) : String := "#" ++ toString n

end Lc3.Field
