/-!
# Digits

Numbers as text: hexadecimal in upper or lower case, padded with zeros to a least width.
Decimal text is core's.
-/

namespace Lc3.Text

/-- The upper-case hexadecimal digits of `n`, at least `width` of them. -/
def hex (width n : Nat) : String :=
  String.ofList (((Nat.toDigits 16 n).map Char.toUpper).leftpad width '0')

/-- The lower-case hexadecimal digits of `n`, without leading zeros. -/
def lowerHex (n : Nat) : String :=
  String.ofList (Nat.toDigits 16 n)

end Lc3.Text
