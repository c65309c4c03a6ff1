import Lc3.Text.Blank
import Lc3.Token

/-!
# Lexing

A text is read one character at a time by a machine that knows what it is inside of: nothing, a run,
a comment, a string, or a string that cannot be saved. Separators are the space, the tab, the form
feed and the comma; any other white space is a fault of its own. A string runs to its closing quote,
and a fault in it takes the rest of the text.
-/

namespace Lc3.Token

/-- The characters that separate tokens and mean nothing else. -/
def isSeparator (c : Char) : Bool := c == ' ' || c == '\t' || c == '\x0c' || c == ','

/-- The characters that a run is made of. -/
def isRunChar (c : Char) : Bool := !(Text.isBlank c || c == ',' || c == ';' || c == '"')

/-- What a character stands for after a backslash. -/
def unescape? (c : Char) : Option Char :=
  match c with
  | '0' => some '\x00'
  | 'n' => some '\n'
  | 'r' => some '\r'
  | '"' => some '"'
  | '\\' => some '\\'
  | _ => none

/-- What the lexer is inside of. It keeps the characters seen since `start`, the last one first. -/
inductive Mode where
  /-- Between tokens. -/
  | between
  /-- A run of characters. -/
  | run (start : Nat) (seen : List Char)
  /-- A comment. -/
  | comment (start : Nat) (seen : List Char)
  /-- A string, with what it stands for so far. -/
  | string (start : Nat) (seen contents : List Char)
  /-- A string, right after a backslash. -/
  | escape (start : Nat) (seen contents : List Char)
  /-- A string with a fault. -/
  | spoiled (start : Nat) (seen : List Char) (fault : LexError)
  deriving DecidableEq, Repr

/-- A token or a fault, at its place. -/
abbrev Item := Lexeme (Except LexError Token)

/-- The item that was read from the characters `seen`, the last one first. -/
def item (start : Nat) (seen : List Char) (value : Except LexError Token) : Item :=
  ⟨value, String.ofList seen.reverse, start⟩

namespace Mode

/-- A character between tokens, and the mode after it. -/
def opening (pos : Nat) (c : Char) : List Item × Mode :=
  if isSeparator c then ([], .between)
  else if c = ';' then ([], .comment pos [c])
  else if c = '"' then ([], .string pos [c] [])
  else if Text.isBlank c then ([item pos [c] (.error .invalidSymbol)], .between)
  else ([], .run pos [c])

/-- The items that end at a character at `pos`, and the mode after it. -/
def step (pos : Nat) (c : Char) : Mode → List Item × Mode
  | .between => opening pos c
  | .run start seen =>
    if isRunChar c then ([], .run start (c :: seen))
    else
      let (items, next) := opening pos c
      (item start seen (ofRun seen.reverse) :: items, next)
  | .comment start seen =>
    if c = '\n' then
      let (items, next) := opening pos c
      (item start seen (.ok .comment) :: items, next)
    else ([], .comment start (c :: seen))
  | .string start seen contents =>
    if c = '"' then
      ([item start (c :: seen) (.ok (.string (String.ofList contents.reverse)))], .between)
    else if c = '\\' then ([], .escape start (c :: seen) contents)
    else if c = '\n' then ([], .spoiled start (c :: seen) .unclosedString)
    else ([], .string start (c :: seen) (c :: contents))
  | .escape start seen contents =>
    match unescape? c with
    | some d => ([], .string start (c :: seen) (d :: contents))
    | none => ([], .spoiled start (c :: seen) (.unsupportedEscape c))
  | .spoiled start seen fault => ([], .spoiled start (c :: seen) fault)

/-- The item that the end of the text ends. -/
def finish : Mode → List Item
  | .between => []
  | .run start seen => [item start seen (ofRun seen.reverse)]
  | .comment start seen => [item start seen (.ok .comment)]
  | .string start seen _ => [item start seen (.error .unclosedString)]
  | .escape start seen _ => [item start seen (.error .unclosedString)]
  | .spoiled start seen fault => [item start seen (.error fault)]

end Mode

/-- The items of a text that starts at column `pos` inside of `mode`. -/
def scan (mode : Mode) (pos : Nat) : List Char → List Item
  | [] => mode.finish
  | c :: rest =>
    let (items, next) := mode.step pos c
    items ++ scan next (pos + c.utf8Size) rest

/-- The items of a text: its tokens, comments included, and its faults. -/
def lex (text : List Char) : List Item := scan .between 0 text

/-! ## Reading bytes -/

/-- Whether a token is a register, or a hexadecimal literal up to its sign without a digit. -/
def isMistakable : Token → Bool
  | .reg _ => true
  | .unknown text => text = "x-" || text = "X-"
  | _ => false

/-- Whether a token is mistakable and right before white space that is a fault and is not ASCII. -/
def isLost (i : Item) : List Item → Bool
  | ⟨.error .invalidSymbol, blank, start⟩ :: _ =>
    i.value.toOption.any isMistakable && start = i.span.stop && 1 < blank.utf8ByteSize
  | _ => false

/-- The items as they come out when a text is read byte by byte. A character outside of ASCII is
entered by its first byte. If it turns out to be white space, the run that it could have gone on is
ended where it was left, but what had been recognized there is lost: a register or a bare sign then
passes for a name. A fault follows, so this is not seen of any line. -/
def byBytes : List Item → List Item
  | [] => []
  | i :: rest =>
    (if isLost i rest then { i with value := .ok (.name i.text) } else i) :: byBytes rest

end Lc3.Token
