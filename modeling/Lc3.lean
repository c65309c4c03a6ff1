import Lc3.AsmError
import Lc3.Bank
import Lc3.Condition
import Lc3.Debugger
import Lc3.Device
import Lc3.Device.Devices
import Lc3.Device.Display
import Lc3.Device.Keyboard
import Lc3.Event
import Lc3.Field
import Lc3.Instr
import Lc3.Instr.Code
import Lc3.Instr.Text
import Lc3.LabelTable
import Lc3.Layout
import Lc3.Line
import Lc3.Machine
import Lc3.Machine.Step
import Lc3.Mnemonic
import Lc3.Numeral
import Lc3.ObjectFile
import Lc3.ObjectFile.Bytes
import Lc3.ObjectFile.Symbols
import Lc3.Observer
import Lc3.Os
import Lc3.Place
import Lc3.Program
import Lc3.Proofs.Access
import Lc3.Proofs.Agreement
import Lc3.Proofs.Calls
import Lc3.Proofs.Codec
import Lc3.Proofs.Denotation
import Lc3.Proofs.Digits
import Lc3.Proofs.Disassembly
import Lc3.Proofs.Display
import Lc3.Proofs.Dividing
import Lc3.Proofs.Effects
import Lc3.Proofs.Execution
import Lc3.Proofs.Export
import Lc3.Proofs.Faults
import Lc3.Proofs.Field
import Lc3.Proofs.FirstError
import Lc3.Proofs.Frame
import Lc3.Proofs.Halt
import Lc3.Proofs.Image
import Lc3.Proofs.Items
import Lc3.Proofs.Keyboard
import Lc3.Proofs.LabelMaps
import Lc3.Proofs.LabelTable
import Lc3.Proofs.Letters
import Lc3.Proofs.Lexing
import Lc3.Proofs.Likeness
import Lc3.Proofs.Lines
import Lc3.Proofs.Literals
import Lc3.Proofs.Loading
import Lc3.Proofs.Outline
import Lc3.Proofs.Packed
import Lc3.Proofs.Passes
import Lc3.Proofs.Path
import Lc3.Proofs.Patterns
import Lc3.Proofs.Pieces
import Lc3.Proofs.Placement
import Lc3.Proofs.Places
import Lc3.Proofs.Printing
import Lc3.Proofs.Quoting
import Lc3.Proofs.Reading
import Lc3.Proofs.Recasing
import Lc3.Proofs.Reformatting
import Lc3.Proofs.Relocation
import Lc3.Proofs.Renaming
import Lc3.Proofs.Replay
import Lc3.Proofs.Reprinting
import Lc3.Proofs.Reset
import Lc3.Proofs.Resolution
import Lc3.Proofs.Routine
import Lc3.Proofs.Service
import Lc3.Proofs.Slots
import Lc3.Proofs.Spacing
import Lc3.Proofs.Splitting
import Lc3.Proofs.Status
import Lc3.Proofs.Stopping
import Lc3.Proofs.Strings
import Lc3.Proofs.Subscribers
import Lc3.Proofs.WellPlaced
import Lc3.Register
import Lc3.Stmt
import Lc3.Stmt.Reader
import Lc3.Stmt.Text
import Lc3.Store
import Lc3.Store.Fill
import Lc3.Switchboard
import Lc3.Text.Blank
import Lc3.Text.Digits
import Lc3.Text.Lines
import Lc3.Text.Printable
import Lc3.Text.Quoted
import Lc3.Text.Regex
import Lc3.Text.Units
import Lc3.Text.Upper
import Lc3.Token
import Lc3.Token.Lexer
import Lc3.Token.Pattern
import Lc3.Word
