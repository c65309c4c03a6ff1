import Lc3.Machine

/-!
# The operating system

The standard operating system lies at the bottom of memory: the trap vector table, an unused table
for interrupts, and the service routines. Every routine but `HALT` returns to its caller with all
registers as they were, except the link register and, where it is the result, `R0`. `HALT` and the
traps that have no routine stop the clock.
-/

namespace Lc3.Os

/-! ## Writing programs down -/

/-- A label on a line of its own. -/
def mark (name : String) : Stmt := ⟨some ⟨name, .whole⟩, none, 0⟩

/-- An instruction. -/
def code (i : SourceInstr) : Stmt := ⟨none, some (.instr i), 0⟩

/-- A directive. -/
def data (d : Directive) : Stmt := ⟨none, some (.directive d), 0⟩

/-- A directive with a label. -/
def named (name : String) (d : Directive) : Stmt := ⟨some ⟨name, .whole⟩, some (.directive d), 0⟩

/-- An operand that is a label. -/
def ref {n : Nat} (name : String) : Target n := .label ⟨name, .whole⟩

/-- A branch to a label. -/
def branch (b : Branch) (name : String) : Stmt := code (.br b.mask (ref name))

/-- A word with a label. -/
def word (name : String) (w : Word) : Stmt := named name (.fill (.offset (w.setWidth 17)))

/-- Room for a register. -/
def room (name : String) : Stmt := named name (.block 1)

/-- Waits at `label` until the display is ready, by way of `scratch`, and shows a register. -/
def display (label : String) (scratch shown : Reg) : List Stmt :=
  [mark label,
   code (.ldi scratch (ref "OS_DSR_PTR")),
   branch .zp label,
   code (.sti shown (ref "OS_DDR_PTR"))]

/-! ## Tables -/

/-- The label of a service routine. -/
def routine (s : Service) : String := "TRAP_" ++ s.name

/-- The label that a trap vector leads to. -/
def handler (vector : Nat) : String :=
  match Service.ofVector? (BitVec.ofNat 8 vector) with
  | some s => routine s
  | none => "BAD_TRAP"

/-- The trap vector table. -/
def traps : List Stmt :=
  mark "TRAP_TABLE" :: (List.range 0x100).map fun v => data (.fill (ref (handler v)))

/-- The interrupt vector table, the addresses of the device registers, and masks. -/
def constants : List Stmt :=
  [data (.block 0x100),
   word "OS_KBSR_PTR" DeviceReg.kbsr,
   word "OS_KBDR_PTR" DeviceReg.kbdr,
   word "OS_DSR_PTR" DeviceReg.dsr,
   word "OS_DDR_PTR" DeviceReg.ddr,
   word "OS_MCR_PTR" DeviceReg.mcr,
   word "OS_MCR_MASK" 0x7FFF,
   word "OS_LOW_MASK" 0x00FF]

/-! ## Service routines -/

/-- `GETC`: reads a character into `R0` without showing it. -/
def getc : List Stmt :=
  [mark (routine .getc),
   code (.ldi 0 (ref "OS_KBSR_PTR")),
   branch .zp (routine .getc),
   code (.ldi 0 (ref "OS_KBDR_PTR")),
   code .ret]

/-- `OUT`: shows the character in `R0`. -/
def out : List Stmt :=
  [mark (routine .out),
   code (.st 1 (ref "OUT_SAVE_R1"))] ++
  display "OUT_POLL" 1 0 ++
  [code (.ld 1 (ref "OUT_SAVE_R1")),
   code .ret,
   room "OUT_SAVE_R1"]

/-- `PUTS`: shows the string at `R0`, a character for each word. -/
def puts : List Stmt :=
  [mark (routine .puts),
   code (.st 0 (ref "PUTS_SAVE_R0")),
   code (.st 1 (ref "PUTS_SAVE_R1")),
   code (.st 2 (ref "PUTS_SAVE_R2")),
   mark "PUTS_LOOP",
   code (.ldr 1 0 0),
   branch .z "PUTS_DONE"] ++
  display "PUTS_POLL" 2 1 ++
  [code (.add 0 0 (.imm 1)),
   branch .nzp "PUTS_LOOP",
   mark "PUTS_DONE",
   code (.ld 0 (ref "PUTS_SAVE_R0")),
   code (.ld 1 (ref "PUTS_SAVE_R1")),
   code (.ld 2 (ref "PUTS_SAVE_R2")),
   code .ret,
   room "PUTS_SAVE_R0",
   room "PUTS_SAVE_R1",
   room "PUTS_SAVE_R2"]

/-- `IN`: asks for a character, reads it into `R0` and shows it. -/
def input : List Stmt :=
  [mark (routine .input),
   code (.st 1 (ref "IN_SAVE_R1")),
   code (.st 2 (ref "IN_SAVE_R2")),
   code (.lea 1 (ref "IN_PROMPT")),
   mark "IN_PROMPT_LOOP",
   code (.ldr 2 1 0),
   branch .z "IN_READ"] ++
  display "IN_PROMPT_POLL" 0 2 ++
  [code (.add 1 1 (.imm 1)),
   branch .nzp "IN_PROMPT_LOOP",
   mark "IN_READ",
   code (.ldi 0 (ref "OS_KBSR_PTR")),
   branch .zp "IN_READ",
   code (.ldi 0 (ref "OS_KBDR_PTR"))] ++
  display "IN_ECHO" 1 0 ++
  [code (.ld 1 (ref "IN_SAVE_R1")),
   code (.ld 2 (ref "IN_SAVE_R2")),
   code .ret,
   room "IN_SAVE_R1",
   room "IN_SAVE_R2",
   named "IN_PROMPT" (.string "Input a character> ")]

/-- `PUTSP`: shows the string at `R0`, two characters for each word, the low byte first. The high
byte is moved down bit by bit in `R3`, with `R4` counting. -/
def putsp : List Stmt :=
  [mark (routine .putsp),
   code (.st 0 (ref "PUTSP_SAVE_R0")),
   code (.st 1 (ref "PUTSP_SAVE_R1")),
   code (.st 2 (ref "PUTSP_SAVE_R2")),
   code (.st 3 (ref "PUTSP_SAVE_R3")),
   code (.st 4 (ref "PUTSP_SAVE_R4")),
   code (.add 1 0 (.imm 0)),
   mark "PUTSP_LOOP",
   code (.ldr 2 1 0),
   branch .z "PUTSP_DONE",
   code (.ld 3 (ref "OS_LOW_MASK")),
   code (.and 3 2 (.reg 3))] ++
  display "PUTSP_POLL_LOW" 4 3 ++
  [code (.and 3 3 (.imm 0)),
   code (.and 4 4 (.imm 0)),
   code (.add 4 4 (.imm 8)),
   mark "PUTSP_SHIFT",
   code (.add 3 3 (.reg 3)),
   code (.add 2 2 (.imm 0)),
   branch .zp "PUTSP_NO_CARRY",
   code (.add 3 3 (.imm 1)),
   mark "PUTSP_NO_CARRY",
   code (.add 2 2 (.reg 2)),
   code (.add 4 4 (.imm (-1))),
   branch .p "PUTSP_SHIFT",
   code (.add 3 3 (.imm 0)),
   branch .z "PUTSP_DONE"] ++
  display "PUTSP_POLL_HIGH" 4 3 ++
  [code (.add 1 1 (.imm 1)),
   branch .nzp "PUTSP_LOOP",
   mark "PUTSP_DONE",
   code (.ld 0 (ref "PUTSP_SAVE_R0")),
   code (.ld 1 (ref "PUTSP_SAVE_R1")),
   code (.ld 2 (ref "PUTSP_SAVE_R2")),
   code (.ld 3 (ref "PUTSP_SAVE_R3")),
   code (.ld 4 (ref "PUTSP_SAVE_R4")),
   code .ret,
   room "PUTSP_SAVE_R0",
   room "PUTSP_SAVE_R1",
   room "PUTSP_SAVE_R2",
   room "PUTSP_SAVE_R3",
   room "PUTSP_SAVE_R4"]

/-- `HALT`: says so and stops the clock. If the clock is started again, it is stopped again. -/
def halt : List Stmt :=
  [mark (routine .halt),
   code (.lea 1 (ref "HALT_MSG")),
   mark "HALT_MSG_LOOP",
   code (.ldr 2 1 0),
   branch .z "HALT_STOP"] ++
  display "HALT_POLL" 0 2 ++
  [code (.add 1 1 (.imm 1)),
   branch .nzp "HALT_MSG_LOOP",
   mark "HALT_STOP",
   code (.ldi 0 (ref "OS_MCR_PTR")),
   code (.ld 1 (ref "OS_MCR_MASK")),
   code (.and 0 0 (.reg 1)),
   code (.sti 0 (ref "OS_MCR_PTR")),
   branch .nzp (routine .halt),
   named "HALT_MSG" (.string "\n\n--- Halting the LC-3 ---\n\n")]

/-- The routine of the traps that have none: says so and halts. -/
def badTrap : List Stmt :=
  [mark "BAD_TRAP",
   code (.lea 1 (ref "BAD_TRAP_MSG")),
   mark "BAD_TRAP_LOOP",
   code (.ldr 2 1 0),
   branch .z (routine .halt)] ++
  display "BAD_TRAP_POLL" 0 2 ++
  [code (.add 1 1 (.imm 1)),
   branch .nzp "BAD_TRAP_LOOP",
   named "BAD_TRAP_MSG" (.string "\n\n--- Undefined trap executed ---\n\n")]

/-! ## Images -/

/-- The standard operating system as a program. -/
def program : Program :=
  ⟨0, traps ++ constants ++ getc ++ out ++ puts ++ input ++ putsp ++ halt ++ badTrap ++
    [data .finish]⟩

/-- No operating system at all. -/
def empty : OsImage := ⟨0, [], .empty⟩

/-- The standard operating system. -/
def standard : OsImage :=
  match ObjectFile.ofProgram program with
  | .ok o => o
  | .error _ => empty

end Lc3.Os
