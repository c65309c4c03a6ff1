/-!
# Upper case

Names of instructions and directives are spelled with ASCII letters, so upper-casing matters only
where its result is ASCII. Beside the small letters these are the dotless i, the long s, the sharp s
and the ligatures, some of which become two or three letters.
-/

namespace Lc3.Text

/-- The upper case of a character, where ASCII letters spell it. -/
def upperChar (c : Char) : List Char :=
  match c.toNat with
  | 0xDF => ['S', 'S']
  | 0x131 => ['I']
  | 0x17F => ['S']
  | 0xFB00 => ['F', 'F']
  | 0xFB01 => ['F', 'I']
  | 0xFB02 => ['F', 'L']
  | 0xFB03 => ['F', 'F', 'I']
  | 0xFB04 => ['F', 'F', 'L']
  | 0xFB05 => ['S', 'T']
  | 0xFB06 => ['S', 'T']
  | _ => [c.toUpper]

/-- The upper case of a text, where ASCII letters spell it. -/
def upper (s : String) : String := String.ofList (s.toList.flatMap upperChar)

end Lc3.Text
