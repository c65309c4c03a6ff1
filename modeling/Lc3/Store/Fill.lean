import Lc3.Bank

/-!
# Initial contents

Memory and registers start out with the same word everywhere, with words that a generator derives
from a seed, or with words drawn from outside. Words are numbered: first those of memory by address,
then those of the general registers.
-/

namespace Lc3

/-- A generator of words: the `i`-th word that comes of a seed. The same seed gives the same words
again; nothing else is known of it. -/
abbrev Generator := UInt64 → Nat → Word

/-- What memory and registers start out with. -/
inductive Fill where
  /-- The same word everywhere. -/
  | known (value : Word)
  /-- Words derived from a seed. -/
  | seeded (generator : Generator) (seed : UInt64)
  /-- Words drawn from outside, which may be others the next time. -/
  | drawn (words : Nat → Word)

namespace Fill

/-- The `i`-th word. -/
def word (f : Fill) (i : Nat) : Word :=
  match f with
  | .known value => value
  | .seeded generator seed => generator seed i
  | .drawn words => words i

/-- A bank filled with the words from number `first` on. -/
def bank (f : Fill) (first n : Nat) : Bank Word n :=
  match f with
  | .known value => .fill value n
  | f => .build n fun i => f.word (first + i)

theorem get_bank (f : Fill) (first n : Nat) (i : BitVec n) :
    (f.bank first n).get i = f.word (first + i.toNat) := by
  cases f with
  | known value => exact Bank.get_fill value i
  | seeded | drawn => exact Bank.get_build _ i

end Fill

end Lc3
