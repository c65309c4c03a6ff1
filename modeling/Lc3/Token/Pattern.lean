import Lc3.Text.Regex
import Lc3.Text.Units
import Lc3.Token.Lexer

/-!
# Patterns

Tokens as a lexer engine finds them. A pattern has a regular expression, perhaps a priority, and a
way to read what it matched. Which pattern is taken at a place is up to the engine: of the ones that
match, the one that takes the most text, and of several such ones the one of highest priority.
-/

namespace Lc3.Token

/-- What a stretch of text is recognized as. -/
inductive Pattern where
  /-- Spaces, tabs, form feeds and commas. -/
  | separators
  /-- A decimal literal. -/
  | decimal
  /-- A hexadecimal literal. -/
  | hexadecimal
  /-- A binary literal. -/
  | binary
  /-- A general register. -/
  | register
  /-- Letters, digits and underscores. -/
  | name
  /-- A dot and a name. -/
  | directive
  /-- The quote that opens a string. -/
  | quote
  /-- A semicolon and the rest of its line. -/
  | comment
  /-- Any other run of characters. -/
  | unknown
  deriving DecidableEq, Repr

namespace Pattern

/-- A letter for the radix, an optional minus sign, and digits. -/
def literalRegex (letter digit : Char → Bool) : Text.Regex :=
  [.one letter, .optional (· == '-'), .plus digit]

/-- A hexadecimal digit in either case. -/
def isHexDigit (c : Char) : Bool := c.isDigit || ('A' ≤ c && c ≤ 'F') || ('a' ≤ c && c ≤ 'f')

/-- The texts that a pattern matches. -/
def regex : Pattern → Text.Regex
  | .separators => [.plus isSeparator]
  | .decimal => literalRegex (· == '#') Char.isDigit
  | .hexadecimal => literalRegex (fun c => c == 'X' || c == 'x') isHexDigit
  | .binary => literalRegex (fun c => c == 'B' || c == 'b') (fun c => c == '0' || c == '1')
  | .register => [.one (fun c => c == 'R' || c == 'r'), .one (fun c => '0' ≤ c && c ≤ '7')]
  | .name => [.plus isNameChar]
  | .directive => [.one (· == '.'), .plus isNameChar]
  | .quote => [.one (· == '"')]
  | .comment => [.one (· == ';'), .star (· != '\n')]
  | .unknown => [.plus isRunChar]

/-- The priority of a pattern, unless it has none because no other pattern matches a text that it
matches. -/
def priority? : Pattern → Option Nat
  | .register => some 5
  | .hexadecimal | .binary => some 4
  | .decimal | .directive => some 3
  | .name => some 2
  | .unknown => some 1
  | .separators | .quote | .comment => none

/-! ## Reading what was matched -/

/-- The token of a literal. -/
def readLiteral (word : List Char) : Except LexError Token :=
  match Numeral.literal? word with
  | some (.ok n) => .ok (.literal n)
  | some (.error _) => .error .literalTooLarge
  | none => .error .invalidSymbol

/-- The token of a register, whose number is its second character. -/
def readRegister (word : List Char) : Token :=
  .reg (BitVec.ofNat 3 ((word.getD 1 '0').toNat - '0'.toNat))

/-- What a string stands for, and how many bytes it takes up to its closing quote and with it. Of
what is behind the opening quote, `bytes` are read, and stand for `contents`, last character
first. -/
def readString (bytes : Nat) (contents : List Char) : List Char → Except LexError (String × Nat)
  | [] => .error .unclosedString
  | c :: rest =>
    if c = '"' then .ok (String.ofList contents.reverse, bytes + 1)
    else if c = '\\' then
      match rest with
      | [] => .error .unclosedString
      | d :: rest =>
        match unescape? d with
        | some e => readString (bytes + c.utf8Size + d.utf8Size) (e :: contents) rest
        | none => .error (.unsupportedEscape d)
    else if c = '\n' then .error .unclosedString
    else readString (bytes + c.utf8Size) (c :: contents) rest

/-- What a pattern makes of the text that it matched, and how many bytes it takes of the text behind
it. A string with a fault takes all of that. -/
def read (p : Pattern) (word rest : List Char) : Option (Except LexError Token) × Nat :=
  match p with
  | .separators => (none, 0)
  | .decimal | .hexadecimal | .binary => (some (readLiteral word), 0)
  | .register => (some (.ok (readRegister word)), 0)
  | .name => (some (.ok (ofName (String.ofList word))), 0)
  | .directive => (some (.ok (.directive (String.ofList word.tail))), 0)
  | .quote =>
    match readString 0 [] rest with
    | .ok (contents, bytes) => (some (.ok (.string contents)), bytes)
    | .error e => (some (.error e), Text.utf8Size rest)
  | .comment => (some (.ok .comment), 0)
  | .unknown => (some (.ok (.unknown (String.ofList word))), 0)

/-- The pattern is the one to take for `word`, with `rest` behind it: no pattern matches more of the
text, and none that matches as much is of higher priority. -/
structure Wins (p : Pattern) (word rest : List Char) : Prop where
  accepts : p.regex.accepts word = true
  longest : ∀ (q : Pattern) (w t : List Char), word ++ rest = w ++ t →
    q.regex.accepts w = true → w.length ≤ word.length
  preferred : ∀ (q : Pattern) (i j : Nat), q.regex.accepts word = true →
    p.priority? = some i → q.priority? = some j → j ≤ i

end Pattern

/-- A lexer engine: from a character and the text behind it, the pattern to take there and how many
characters it takes behind the first one; nothing if no pattern matches. -/
abbrev Engine := Char → List Char → Option (Pattern × Nat)

namespace Engine

/-- The engine takes the longest match, and of several such the one of highest priority. -/
structure LongestMatch (engine : Engine) : Prop where
  wins : ∀ {c rest p n}, engine c rest = some (p, n) → p.Wins (c :: rest.take n) (rest.drop n)
  stuck : ∀ {c rest}, engine c rest = none → ∀ (q : Pattern) (w t : List Char),
    c :: rest = w ++ t → q.regex.accepts w = false

/-- The items of a text that starts at column `pos`: what its patterns make of it, and a fault for
each character at which no pattern matches. -/
def items (engine : Engine) (pos : Nat) : List Char → List Item
  | [] => []
  | c :: rest =>
    match engine c rest with
    | none => item pos [c] (.error .invalidSymbol) :: items engine (pos + c.utf8Size) rest
    | some (p, n) =>
      let made := p.read (c :: rest.take n) (rest.drop n)
      let cut := Text.splitBytes made.2 (rest.drop n)
      let text := c :: rest.take n ++ cut.1
      (made.1.map (⟨·, String.ofList text, pos⟩)).toList ++
        items engine (pos + Text.utf8Size text) cut.2
termination_by text => text.length
decreasing_by
  · simp
  · refine Nat.lt_succ_of_le (Nat.le_trans (Text.length_splitBytes_le _ _) ?_)
    simp

/-- The items of a text. -/
def lex (engine : Engine) (text : List Char) : List Item := engine.items 0 text

/-- The patterns, those of higher priority first. -/
def byPriority : List Pattern :=
  [.register, .hexadecimal, .binary, .decimal, .directive, .name, .unknown, .separators, .quote,
    .comment]

/-- The engine that tries all prefixes of a text, the longest first, with all patterns. -/
def search : Engine := fun c rest =>
  (List.range (rest.length + 1)).reverse.findSome? fun n =>
    (byPriority.find? fun p => p.regex.accepts (c :: rest.take n)).map (·, n)

end Engine

end Lc3.Token
