/-!
# Regular expressions

What the patterns of a lexer are made of: classes of characters in a row, each of them once or as
often as it may stand there.
-/

namespace Lc3.Text

/-- A class of characters, and how often one of the class stands in a row. -/
inductive Factor where
  /-- Once. -/
  | one (p : Char → Bool)
  /-- Once or not at all. -/
  | optional (p : Char → Bool)
  /-- At least once. -/
  | plus (p : Char → Bool)
  /-- Any number of times. -/
  | star (p : Char → Bool)

/-- Whether a text consists of what the factor stands for. -/
def Factor.accepts : Factor → List Char → Bool
  | .one p, cs => cs.length == 1 && cs.all p
  | .optional p, cs => cs.length ≤ 1 && cs.all p
  | .plus p, cs => !cs.isEmpty && cs.all p
  | .star p, cs => cs.all p

/-- Factors in a row. -/
abbrev Regex := List Factor

/-- Whether a text can be cut into parts that the factors stand for. -/
def Regex.accepts : Regex → List Char → Bool
  | [], cs => cs.isEmpty
  | f :: fs, cs => (List.range (cs.length + 1)).any fun n =>
    f.accepts (cs.take n) && accepts fs (cs.drop n)

end Lc3.Text
