import Lc3.Field
import Lc3.Token

/-!
# Errors of the assembler

An error is a cause and a place. Its message, its category and the advice that goes with it depend
on the cause alone.
-/

namespace Lc3

/-- The kinds of trouble that a program can be in. -/
inductive Category where
  | lexical
  | structural
  | range
  | semantic
  deriving DecidableEq, Repr

/-- What is wrong with a program. -/
inductive Cause where
  /-- A line is not a sequence of tokens. -/
  | lex (error : LexError)
  /-- There is no code. -/
  | emptyProgram
  /-- The first line of code is not `.ORIG`. -/
  | missingOrigin
  /-- `.ORIG` comes after a label. -/
  | labeledOrigin
  /-- `.ORIG` does not have one operand. -/
  | originOperandCount (found : Nat)
  /-- The operand of `.ORIG` is not an address. -/
  | originOutOfRange (operand : String)
  /-- A line starts with neither a command nor a name. -/
  | invalidLabel (text : String)
  /-- An instruction has too many or too few operands. -/
  | instrOperandCount (name : String) (expected found : Nat)
  /-- A directive does not have one operand. -/
  | directiveOperandCount (name : String) (found : Nat)
  /-- A label is defined a second time. -/
  | duplicateLabel (label : String) (addr : Word)
  /-- An address gets a second label. -/
  | duplicateAddress (label : String) (addr : Word)
  /-- There is no `.END`. -/
  | missingEnd
  /-- An immediate operand does not fit. -/
  | immediateOutOfRange (bits : Nat) (value : Int)
  /-- An offset does not fit. -/
  | offsetOutOfRange (bits : Nat) (value : Int)
  /-- A trap vector is not a byte. -/
  | trapOutOfRange (value : Int)
  /-- A block has a negative length. -/
  | negativeBlock (length : Int)
  /-- The program goes on past the end of memory. -/
  | pastMemory (addr : Nat)
  /-- An operand is a label that is not defined. -/
  | undefinedLabel (label : String)
  /-- A command is not an instruction. -/
  | unknownInstr (text : String)
  /-- A directive is not known. -/
  | unknownDirective (name : String)
  /-- An operand is not a register. -/
  | invalidRegister (operand : String)
  /-- An operand is not a literal. -/
  | invalidLiteral (operand : String)
  /-- The operand of `.STRINGZ` is not a string. -/
  | expectedString (operand : String)
  deriving DecidableEq, Repr

namespace Cause

/-- The category of a cause. -/
def category : Cause → Category
  | .lex _ => .lexical
  | .emptyProgram | .missingOrigin | .labeledOrigin | .originOperandCount _ | .invalidLabel _
  | .instrOperandCount _ _ _ | .directiveOperandCount _ _ | .duplicateLabel _ _
  | .duplicateAddress _ _ | .missingEnd => .structural
  | .originOutOfRange _ | .immediateOutOfRange _ _ | .offsetOutOfRange _ _ | .trapOutOfRange _
  | .negativeBlock _ | .pastMemory _ => .range
  | .undefinedLabel _ | .unknownInstr _ | .unknownDirective _ | .invalidRegister _
  | .invalidLiteral _ | .expectedString _ => .semantic

/-- What is said of a cause. -/
def message : Cause → String
  | .lex e => e.message
  | .emptyProgram =>
    "Looks like your program's empty! You need at least an .ORIG directive and an .END directive."
  | .missingOrigin =>
    "The first non-empty, non-comment line of your program needs to have an .ORIG directive!"
  | .labeledOrigin => ".ORIG directive cannot have a label!"
  | .originOperandCount n =>
    s!"The .ORIG directive expects exactly one operand, but it looks like you have {n}!"
  | .originOutOfRange op =>
    s!".ORIG operand ({op}) is out of range! It should be between 0 and 0xFFFF, inclusive."
  | .invalidLabel label =>
    s!"this line looks like a label, but '{label}' is not a valid label name; " ++
      "you either misspelled an instruction or entered an invalid name for a label"
  | .instrOperandCount name expected found =>
    let noun := if expected = 1 then "operand" else "operands"
    s!"expected {name} instruction to have exactly {expected} {noun}, but found {found}"
  | .directiveOperandCount name found =>
    s!"expected .{name} directive to have exactly one operand, but found {found}"
  | .duplicateLabel label addr =>
    s!"label name {label} already exists; it points to {addr.hex}"
  | .duplicateAddress label addr => s!"address {addr.hex} already has the label {label}"
  | .missingEnd => "no .END directive found!"
  | .immediateOutOfRange bits value =>
    s!"immediate field is out of range: expected value to fit in {bits} bits " ++
      s!"(i.e., to be between {Field.least bits} and {Field.greatest bits}, inclusive), " ++
      s!"but found {value}"
  | .offsetOutOfRange bits value =>
    s!"offset {value} is out of range; it must fit into {bits} bits, so it should be between " ++
      s!"{Field.least bits} and {Field.greatest bits}, inclusive"
  | .trapOutOfRange value =>
    "trap vector out of range: expected value to be an unsigned byte " ++
      s!"(i.e., between 0 and 255, inclusive), but found {value}"
  | .negativeBlock n => s!"a .BLKW needs to have a non-negative length, but I found {n}"
  | .pastMemory addr =>
    s!"currently at address x{Text.hex 4 addr}, which is past the memory limit of " ++
      s!"x{Text.hex 4 memorySize}"
  | .undefinedLabel label =>
    s!"the offset '{label}' is not a valid numeric literal, but I can't find it in the symbol " ++
      "table either; did you misspell a label name?"
  | .unknownInstr text => s!"unrecognized instruction \"{text}\""
  | .unknownDirective name => s!"unrecognized directive: .{name}"
  | .invalidRegister op => s!"Invalid register specification: '{op}'"
  | .invalidLiteral op => s!"Invalid numeric literal: '{op}'"
  | .expectedString op => s!"expected a string literal, but found '{op}'"

/-- How to mend it, where there is something to say. -/
def help : Cause → Option String
  | .lex e => some e.help
  | .emptyProgram | .missingOrigin => some "programs start with a line like `.ORIG x3000`"
  | .invalidLabel _ =>
    some ("label names may only contain letters, digits, and underscores, " ++
      "and cannot be numeric literals")
  | .duplicateLabel _ _ =>
    some "labels must be unique within a file, try renaming one of the labels"
  | .duplicateAddress _ _ =>
    some "an address can only have one label, try removing one of the labels"
  | .missingEnd => some "try adding an .END directive at the end of the program"
  | .offsetOutOfRange _ _ =>
    some "if this is a label, try loading its address with a .FILL and LDI"
  | .pastMemory _ =>
    some ("user code typically starts at x3000 and is short enough to not reach " ++
      "the end of memory")
  | .unknownDirective _ =>
    some "the supported directives are .ORIG, .FILL, .BLKW, .STRINGZ, and .END"
  | .invalidRegister _ => some "registers are R0 through R7"
  | .invalidLiteral _ =>
    some "numeric literals are written like #10 (decimal), x1F (hex), or b101 (binary)"
  | _ => none

end Cause

/-- A cause at its place. -/
structure AsmError where
  cause : Cause
  place : Place
  deriving DecidableEq, Repr

namespace AsmError

/-- The error of a line as a whole. -/
def ofLine (line : Nat) (cause : Cause) : AsmError := ⟨cause, .wholeLine line⟩

/-- What is said of an error. -/
def message (e : AsmError) : String := s!"line {e.place.line}: {e.cause.message}"

end AsmError

end Lc3
