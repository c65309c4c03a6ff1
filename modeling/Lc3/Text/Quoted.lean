import Lc3.Text.Digits
import Lc3.Text.Printable

/-!
# Quoted text

A string as a listing shows it: between double quotes, with a backslash before what would not
survive the printing, and characters without a glyph given by their code point.
-/

namespace Lc3.Text

/-- One character inside the quotes. -/
def quotedChar (c : Char) : String :=
  match c with
  | '\x00' => "\\0"
  | '\t' => "\\t"
  | '\r' => "\\r"
  | '\n' => "\\n"
  | '"' => "\\\""
  | '\\' => "\\\\"
  | c => if isPrintable c then c.toString else "\\u\x7b" ++ lowerHex c.toNat ++ "\x7d"

/-- A string between double quotes. -/
def quoted (s : String) : String :=
  "\"" ++ String.join (s.toList.map quotedChar) ++ "\""

end Lc3.Text
