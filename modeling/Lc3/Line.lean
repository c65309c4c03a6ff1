import Lc3.AsmError
import Lc3.Text.Lines
import Lc3.Token.Lexer

/-!
# Source lines

A source text is a list of lines, each a list of tokens without the comments. Blank lines stay in
the list, so that a line's number is its position. Every line is read before anything is made of
the first, and the first fault is the error.
-/

namespace Lc3

/-- A line of source: its number, counted from one, and its tokens. -/
structure Line where
  number : Nat
  tokens : List (Lexeme Token)
  deriving DecidableEq, Repr

namespace Line

/-- Whether the line holds no token. -/
def isEmpty (l : Line) : Bool := l.tokens.isEmpty

/-- The tokens among the items of a line, or the first fault. -/
def collect (number : Nat) : List Token.Item → Except AsmError (List (Lexeme Token))
  | [] => .ok []
  | i :: rest =>
    match i.value with
    | .error e => .error ⟨.lex e, number, i.span⟩
    | .ok .comment => collect number rest
    | .ok t => (collect number rest).map (⟨t, i.text, i.start⟩ :: ·)

/-- The line that a text spells. -/
def read (number : Nat) (text : List Char) : Except AsmError Line :=
  (collect number (Token.lex text)).map (⟨number, ·⟩)

/-- The lines of a list of texts, numbered from `number`. -/
def readFrom (number : Nat) : List (List Char) → Except AsmError (List Line)
  | [] => .ok []
  | text :: rest => do
    let line ← read number text
    let more ← readFrom (number + 1) rest
    return line :: more

/-- The lines of a source text. -/
def readAll (source : String) : Except AsmError (List Line) :=
  readFrom 1 (Text.lines source.toList)

end Line

end Lc3
