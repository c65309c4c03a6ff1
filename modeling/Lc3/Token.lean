import Lc3.Mnemonic
import Lc3.Numeral
import Lc3.Place
import Lc3.Register
import Lc3.Text.Units

/-!
# Tokens

A token is a literal, a register, a name, a directive, a string or a comment; whatever else stands
between separators is kept as an unknown token, so that the reader of a line can complain about it
in context. A run of characters without a separator is one token, and its class is decided by the
whole run.
-/

namespace Lc3

/-- The smallest part of a source line that means something. -/
inductive Token where
  /-- A number, such as `#-3`, `x7F` or `b101`. -/
  | literal (value : Int)
  /-- A general register, `R0` to `R7` in either case. -/
  | reg (r : Reg)
  /-- The name of an instruction, in either case. -/
  | mnemonic (m : Mnemonic)
  /-- Any other name. -/
  | name (text : String)
  /-- A name after a dot, kept without the dot. -/
  | directive (name : String)
  /-- A quoted string, kept as what it stands for. -/
  | string (contents : String)
  /-- A semicolon and what follows it. -/
  | comment
  /-- Any other run of characters. -/
  | unknown (text : String)
  deriving DecidableEq, Repr

/-- Why a text is not a sequence of tokens. -/
inductive LexError where
  /-- A literal outside the 32-bit range. -/
  | literalTooLarge
  /-- A backslash before a character that cannot follow one. -/
  | unsupportedEscape (c : Char)
  /-- A string without its closing quote. -/
  | unclosedString
  /-- White space that separates nothing. -/
  | invalidSymbol
  deriving DecidableEq, Repr

namespace LexError

/-- What is said of the error. -/
def message : LexError → String
  | .literalTooLarge => "numeric literal is too large"
  | .unsupportedEscape c => "unsupported escape character '\\" ++ c.toString ++ "'"
  | .unclosedString => "unterminated string literal"
  | .invalidSymbol => "unrecognized symbol"

/-- How to mend it. -/
def help : LexError → String
  | .literalTooLarge => "no LC-3 field is wider than 17 bits"
  | .unsupportedEscape _ => "the supported escapes are \\0, \\n, \\r, \\\", and \\\\"
  | .unclosedString =>
    "add a quote to the end of the string literal (did you backslash-escape the closing quote?)"
  | .invalidSymbol => "this char does not occur in any token in LC-3 assembly"

end LexError

/-- Something read from a stretch of text, with that text and the column where it starts. -/
structure Lexeme (α : Type) where
  value : α
  text : String
  start : Nat
  deriving DecidableEq, Repr

/-- The columns of a lexeme: as many as the bytes of its text. -/
def Lexeme.span {α : Type} (l : Lexeme α) : Span := ⟨l.start, l.start + l.text.utf8ByteSize⟩

namespace Token

/-- The characters of a name. -/
def isNameChar (c : Char) : Bool := c.isAlphanum || c == '_'

/-- A name is a mnemonic or free. -/
def ofName (s : String) : Token :=
  match Mnemonic.ofName? s with
  | some m => .mnemonic m
  | none => .name s

/-- The register that a run names. -/
def reg? : List Char → Option Reg
  | [r, d] =>
    if (r = 'R' ∨ r = 'r') ∧ '0' ≤ d ∧ d ≤ '7' then Reg.ofNumber? (d.toNat - '0'.toNat) else none
  | _ => none

/-- The directive that a run names. -/
def directive? : List Char → Option String
  | '.' :: c :: rest =>
    if (c :: rest).all isNameChar then some (String.ofList (c :: rest)) else none
  | _ => none

/-- The token of a run of characters. -/
def ofRun (run : List Char) : Except LexError Token :=
  match Numeral.literal? run with
  | some (.ok n) => .ok (.literal n)
  | some (.error _) => .error .literalTooLarge
  | none =>
    match reg? run with
    | some r => .ok (.reg r)
    | none =>
      if run.all isNameChar then .ok (ofName (String.ofList run))
      else
        match directive? run with
        | some d => .ok (.directive d)
        | none => .ok (.unknown (String.ofList run))

end Token

end Lc3
