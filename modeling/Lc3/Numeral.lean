/-!
# Numerals

A literal is a letter for its radix, an optional minus sign and at least one digit: `#` for
decimal, `x` for hexadecimal and `b` for binary, the letters in either case. A literal is kept to
the signed 32-bit range; a run of digits without its letter is not a literal at all.
-/

namespace Lc3

/-- Which end of the 32-bit range a literal passes. -/
inductive Overflow where
  | above
  | below
  deriving DecidableEq, Repr

/-- What is said of a literal out of range. -/
def Overflow.message : Overflow → String
  | .above => "number too large to fit in target type"
  | .below => "number too small to fit in target type"

namespace Numeral

/-- The value of a digit in a radix up to sixteen. -/
def digit? (radix : Nat) (c : Char) : Option Nat :=
  let value :=
    if '0' ≤ c ∧ c ≤ '9' then some (c.toNat - '0'.toNat)
    else if 'a' ≤ c ∧ c ≤ 'f' then some (c.toNat - 'a'.toNat + 10)
    else if 'A' ≤ c ∧ c ≤ 'F' then some (c.toNat - 'A'.toNat + 10)
    else none
  value.filter (· < radix)

/-- The value of digits read after a number. -/
def digits? (radix : Nat) (value : Nat) : List Char → Option Nat
  | [] => some value
  | c :: rest =>
    match digit? radix c with
    | some d => digits? radix (value * radix + d) rest
    | none => none

/-- The value of a run of at least one digit. -/
def natural? (radix : Nat) : List Char → Option Nat
  | [] => none
  | c :: rest => digits? radix 0 (c :: rest)

/-- The value of a run of digits after an optional minus sign. -/
def integer? (radix : Nat) : List Char → Option Int
  | '-' :: rest => (natural? radix rest).map fun n => -(n : Int)
  | cs => (natural? radix cs).map fun n => (n : Int)

/-- The radix that the first letter of a literal stands for. -/
def radix? (c : Char) : Option Nat :=
  if c = '#' then some 10
  else if c = 'x' ∨ c = 'X' then some 16
  else if c = 'b' ∨ c = 'B' then some 2
  else none

/-- A number kept to the signed 32-bit range. -/
def inRange (n : Int) : Except Overflow Int :=
  if n > 2147483647 then .error .above
  else if n < -2147483648 then .error .below
  else .ok n

/-- The value of a literal; `none` for text that is not one. -/
def literal? : List Char → Option (Except Overflow Int)
  | [] => none
  | c :: rest =>
    match radix? c with
    | some radix => (integer? radix rest).map inRange
    | none => none

end Numeral

end Lc3
