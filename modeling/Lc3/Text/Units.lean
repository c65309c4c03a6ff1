/-!
# UTF-16 code units

A string takes one memory word for each unit of its UTF-16 form: characters beyond the basic plane
take two, a high and a low surrogate.
-/

namespace Lc3.Text

/-- The UTF-16 code units of a character. -/
def units (c : Char) : List (BitVec 16) :=
  let n := c.toNat
  if n < 0x10000 then [BitVec.ofNat 16 n]
  else
    let m := n - 0x10000
    [BitVec.ofNat 16 (0xD800 + m / 0x400), BitVec.ofNat 16 (0xDC00 + m % 0x400)]

/-- The UTF-16 form of a string. -/
def utf16 (s : String) : List (BitVec 16) := s.toList.flatMap units

/-- The bytes that the UTF-8 form of a text takes. -/
def utf8Size (cs : List Char) : Nat := cs.foldr (fun c n => c.utf8Size + n) 0

@[simp] theorem utf8Size_nil : utf8Size [] = 0 := rfl

@[simp] theorem utf8Size_cons (c : Char) (cs : List Char) :
    utf8Size (c :: cs) = c.utf8Size + utf8Size cs := rfl

/-- The characters that the first `n` bytes of a text belong to, and the characters behind them. -/
def splitBytes : Nat → List Char → List Char × List Char
  | 0, cs => ([], cs)
  | _ + 1, [] => ([], [])
  | n + 1, c :: cs =>
    let (taken, rest) := splitBytes (n + 1 - c.utf8Size) cs
    (c :: taken, rest)

theorem length_splitBytes_le (n : Nat) (cs : List Char) :
    (splitBytes n cs).2.length ≤ cs.length := by
  induction cs generalizing n with
  | nil => cases n <;> simp [splitBytes]
  | cons c cs ih =>
      cases n with
      | zero => exact Nat.le_refl _
      | succ n => exact Nat.le_succ_of_le (ih _)

end Lc3.Text
