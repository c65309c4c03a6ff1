/-!
# Lines

A line feed ends a line, and a carriage return right before it belongs to the ending. What follows
the last line feed is a line of its own unless it is empty.
-/

namespace Lc3.Text

/-- The lines of a text, without their endings. -/
def lines : List Char → List (List Char)
  | [] => []
  | '\n' :: rest => [] :: lines rest
  | '\r' :: '\n' :: rest => [] :: lines rest
  | c :: rest =>
    match lines rest with
    | [] => [[c]]
    | line :: more => (c :: line) :: more

end Lc3.Text
