import Lc3.LabelTable
import Lc3.Numeral
import Lc3.Text.Blank
import Lc3.Text.Lines

/-!
# Labels as text

A table of labels is written as comment lines: a heading, then a line for each label in the order of
the addresses, with the name in a column of sixteen characters and the address in hexadecimal. The
reader skips lines that do not start with a tab after the slashes, and takes the last word of the
others as the address.
-/

namespace Lc3.LabelTable

/-- The heading of a table. -/
def heading : String :=
  "//Symbol Name\t\tPage Address\n//----------------\t------------\n"

/-- The line of a binding. -/
def entryText (e : Word × String) : String :=
  "//\t" ++ String.ofList (e.2.toList.rightpad 16 ' ') ++ "  " ++ Text.hex 4 e.1.toNat ++ "\n"

/-- The text of a table. -/
def text (t : LabelTable) : String := heading ++ String.join (t.entries.map entryText)

/-- The address that a word in hexadecimal gives; a plus sign may go before it. -/
def address? (cs : List Char) : Option Word :=
  let digits := match cs with | '+' :: rest => rest | _ => cs
  match Numeral.natural? 16 digits with
  | some n => if n < memorySize then some (BitVec.ofNat 16 n) else none
  | none => none

/-- A text cut at its last space. -/
def cutLastSpace? (cs : List Char) : Option (List Char × List Char) :=
  match cs.reverse.dropWhile (· ≠ ' ') with
  | [] => none
  | _ :: before => some (before.reverse, (cs.reverse.takeWhile (· ≠ ' ')).reverse)

/-- The binding that the part of a line after the tab gives. -/
def entry? (cs : List Char) : Option (String × Word) :=
  match cutLastSpace? (Text.trimEnd cs) with
  | none => none
  | some (before, last) =>
    match Text.trimEnd before with
    | [] => none
    | name => (address? last).map (String.ofList name, ·)

/-- Adds the bindings of lines to a table. -/
def readLines (t : LabelTable) : List (List Char) → Option LabelTable
  | [] => some t
  | ('/' :: '/' :: '\t' :: rest) :: more =>
    match entry? rest with
    | some (name, addr) => readLines (t.insert name addr) more
    | none => none
  | ('/' :: '/' :: _) :: more => readLines t more
  | _ => none

/-- The table that a text stands for. -/
def ofText? (text : String) : Option LabelTable := readLines empty (Text.lines text.toList)

end Lc3.LabelTable
