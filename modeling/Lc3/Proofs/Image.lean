import Lc3.Os
import Lc3.Proofs.Path

/-!
# The operating system in memory

The words of the standard operating system as they come out of the assembler, and memory that holds
them. The cells where the service routines save registers may hold anything.
-/

namespace Lc3

/-- The registers of the devices are at the end of memory. -/
theorem DeviceReg.spared_of_lt {a : Word} (ha : a.toNat < 0xFE00) : a ∉ ports ∧ a ≠ mcr := by
  have hports : ports.all (0xFE00 ≤ ·.toNat) = true := by decide
  constructor
  · intro hport
    exact absurd (of_decide_eq_true (List.all_eq_true.1 hports a hport)) (Nat.not_le.2 ha)
  · rintro rfl
    exact absurd ha (by decide)

theorem ObjectFile.mem_addressed {o : ObjectFile} {e : Word × Word} : e ∈ o.addressed ↔
    ∃ i, o.words[i]? = some e.2 ∧ e.1 = o.orig + BitVec.ofNat 16 i := by
  constructor
  · intro he
    obtain ⟨⟨w, i⟩, hw, rfl⟩ := List.mem_map.1 he
    exact ⟨i, List.mem_zipIdx_iff_getElem?.1 hw, rfl⟩
  · intro ⟨i, hw, ha⟩
    refine List.mem_map.2 ⟨(e.2, i), List.mem_zipIdx_iff_getElem?.2 hw, ?_⟩
    exact Prod.ext ha.symm rfl

namespace Os

/-- The cells where a service routine saves registers. -/
def saveCells (s : Service) : List Word :=
  (List.range 8).filterMap fun r => standard.labels.addrOf? s!"{s.name}_SAVE_R{r}"

/-- The standard operating system is in memory; its save cells may hold anything. -/
def InMemory (cell : Word → Word) : Prop :=
  ∀ e ∈ standard.addressed, (∀ s, e.1 ∉ saveCells s) → cell e.1 = e.2

/-! ## Listings of the routines -/

/-- Waits, at `start`, until the device is ready whose status is read through a pointer. -/
def waitCode (start : Word) (scratch : Reg) (ptr : Word) : List Listed :=
  [.ref (.ldi scratch) ptr, .ref (.br 0b011) start]

/-- Shows a register when the display is ready. -/
def showCode (start : Word) (scratch shown : Reg) : List Listed :=
  waitCode start scratch 0x202 ++ [.ref (.sti shown) 0x203]

/-- Shows the string at a register, and goes to `done` when it ends. -/
def printCode (start : Word) (ptr ch scratch : Reg) (done : Word) : List Listed :=
  [.plain (.ldr ch ptr 0), .ref (.br 0b010) done] ++ showCode (start + 2) scratch ch ++
    [.plain (.add ptr ptr (.imm 1)), .ref (.br 0b111) start]

/-- Reads a character when there is one. -/
def readCode (start : Word) : List Listed := waitCode start 0 0x200 ++ [.ref (.ldi 0) 0x201]

/-- The registers that a service routine saves, and where. -/
def slots : Service → List (Reg × Word)
  | .getc | .halt => []
  | .out => [(1, 0x211)]
  | .puts => [(0, 0x220), (1, 0x221), (2, 0x222)]
  | .input => [(1, 0x236), (2, 0x237)]
  | .putsp => [(0, 0x270), (1, 0x271), (2, 0x272), (3, 0x273), (4, 0x274)]

/-- Saves registers in cells. -/
def saveCode (rs : List (Reg × Word)) : List Listed := rs.map fun e => .ref (.st e.1) e.2

/-- Gets registers back from cells. -/
def restoreCode (rs : List (Reg × Word)) : List Listed := rs.map fun e => .ref (.ld e.1) e.2

/-- Returns from a routine. -/
def ret : Listed := .plain (.jmp Reg.link)

/-- Reads a character. -/
def getcCode : List Listed := readCode 0x207 ++ [ret]

/-- Shows a character. -/
def outCode : List Listed :=
  saveCode (slots .out) ++ showCode 0x20C 1 0 ++ restoreCode (slots .out) ++ [ret]

/-- Shows a string of one character a word. -/
def putsCode : List Listed :=
  saveCode (slots .puts) ++ printCode 0x215 0 1 2 0x21C ++ restoreCode (slots .puts) ++ [ret]

/-- Shows the prompt, reads a character and shows it. -/
def inputCode : List Listed :=
  saveCode (slots .input) ++ [.ref (.lea 1) 0x238] ++ printCode 0x226 1 2 0 0x22D ++
    readCode 0x22D ++ showCode 0x230 1 0 ++ restoreCode (slots .input) ++ [ret]

/-- Moves the high byte of `R2` down into `R3`, bit by bit. -/
def shiftCode : List Listed :=
  [.plain (.and 3 3 (.imm 0)), .plain (.and 4 4 (.imm 0)), .plain (.add 4 4 (.imm 8)),
    .plain (.add 3 3 (.reg 3)), .plain (.add 2 2 (.imm 0)), .ref (.br 0b011) 0x260,
    .plain (.add 3 3 (.imm 1)), .plain (.add 2 2 (.reg 2)), .plain (.add 4 4 (.imm (-1))),
    .ref (.br 0b001) 0x25C]

/-- Shows a string of two characters a word. -/
def putspCode : List Listed :=
  saveCode (slots .putsp) ++ [.plain (.add 1 0 (.imm 0))] ++
  [.plain (.ldr 2 1 0), .ref (.br 0b010) 0x26A, .ref (.ld 3) 0x206, .plain (.and 3 2 (.reg 3))] ++
  showCode 0x256 4 3 ++ shiftCode ++ [.plain (.add 3 3 (.imm 0)), .ref (.br 0b010) 0x26A] ++
  showCode 0x265 4 3 ++ [.plain (.add 1 1 (.imm 1)), .ref (.br 0b111) 0x252] ++
  restoreCode (slots .putsp) ++ [ret]

/-- Says that the machine halts and stops the clock, and does so again if it goes on. -/
def haltCode : List Listed :=
  [.ref (.lea 1) 0x282] ++ printCode 0x276 1 2 0 0x27D ++
    [.ref (.ldi 0) 0x204, .ref (.ld 1) 0x205, .plain (.and 0 0 (.reg 1)), .ref (.sti 0) 0x204,
      .ref (.br 0b111) 0x275]

/-- Says that the trap is not defined, and halts. -/
def badTrapCode : List Listed := [.ref (.lea 1) 0x2A7] ++ printCode 0x2A0 1 2 0 0x275

/-- What is shown before a character is asked for. -/
def prompt : String := "Input a character> "

/-- What is shown when the machine halts. -/
def haltMessage : String := "\n\n--- Halting the LC-3 ---\n\n"

/-- What is shown when a trap is not defined. -/
def badTrapMessage : String := "\n\n--- Undefined trap executed ---\n\n"

/-- Where the routine of a service starts. -/
def entry : Service → Word
  | .getc => 0x207
  | .out => 0x20B
  | .puts => 0x212
  | .input => 0x223
  | .putsp => 0x24C
  | .halt => 0x275

/-- Where the routine of the traps starts that have none. -/
def badTrapEntry : Word := 0x29F

/-- The services, in the order of their vectors. -/
def services : List Service := [.getc, .out, .puts, .input, .putsp, .halt]

/-- The words of a listing that starts at `a`. -/
def encode (a : Word) : List Listed → List Word
  | [] => []
  | l :: ls => (l.instr a).encode :: encode (a + 1) ls

/-- The words of the operating system: the table of traps, the table of interrupts, the words that
the routines share, and the routines, each with its save cells and its text. -/
def image : List Word :=
  [List.replicate 0x20 badTrapEntry, services.map entry, List.replicate 0xDA badTrapEntry,
    List.replicate 0x100 0,
    [DeviceReg.kbsr, DeviceReg.kbdr, DeviceReg.dsr, DeviceReg.ddr, DeviceReg.mcr, 0x7FFF, 0x00FF],
    encode (entry .getc) getcCode,
    encode (entry .out) outCode, [0],
    encode (entry .puts) putsCode, [0, 0, 0],
    encode (entry .input) inputCode, [0, 0], Text.utf16 prompt, [0],
    encode (entry .putsp) putspCode, [0, 0, 0, 0, 0],
    encode (entry .halt) haltCode, Text.utf16 haltMessage, [0],
    encode badTrapEntry badTrapCode, Text.utf16 badTrapMessage, [0]].flatten

/-- The assembler makes the image. -/
theorem standard_eq : standard.orig = 0 ∧ standard.words = image ∧
    services.map saveCells = services.map fun s => (slots s).map (·.2) := by
  -- One statement, since assembling is what takes long.
  decide +kernel

theorem saveCells_eq (s : Service) : saveCells s = (slots s).map (·.2) :=
  List.map_inj_left.1 standard_eq.2.2 s (by cases s <;> decide)

/-- All cells in which routines save registers. -/
def saved : List Word := services.flatMap fun s => (slots s).map (·.2)

theorem spared_of_mem_saved {a : Word} (ha : a ∈ saved) :
    a ∉ DeviceReg.ports ∧ a ≠ DeviceReg.mcr := by
  have hsaved : saved.all (·.toNat < 0xFE00) = true := by decide
  exact DeviceReg.spared_of_lt (of_decide_eq_true (List.all_eq_true.1 hsaved a ha))

/-- The word at an address of the operating system, if that is no save cell. -/
def wordAt? (a : Word) : Option Word := if a ∈ saved then none else image[a.toNat]?

theorem InMemory.cell_eq {cell : Word → Word} {a w : Word} (h : InMemory cell)
    (hw : wordAt? a = some w) : cell a = w := by
  obtain ⟨horig, hwords, -⟩ := standard_eq
  rw [wordAt?, ite_eq_iff] at hw
  obtain ⟨-, hnone⟩ | ⟨hfree, hget⟩ := hw
  · cases hnone
  · refine h (a, w) (ObjectFile.mem_addressed.2 ⟨a.toNat, ?_, ?_⟩) fun s hs => ?_
    · rw [hwords, hget]
    · simp [horig]
    · rw [saveCells_eq] at hs
      exact hfree (List.mem_flatMap.2 ⟨s, by cases s <;> decide, hs⟩)

theorem length_image : image.length = 715 := by decide +kernel

theorem spared_of_wordAt? {a w : Word} (hw : wordAt? a = some w) :
    a ∉ DeviceReg.ports ∧ a ≠ DeviceReg.mcr := by
  rw [wordAt?, ite_eq_iff] at hw
  obtain ⟨-, hnone⟩ | ⟨-, hget⟩ := hw
  · cases hnone
  · have hlt := (List.getElem?_eq_some_iff.1 hget).1
    rw [length_image] at hlt
    exact DeviceReg.spared_of_lt (by omega)

theorem not_mem_ports {a w : Word} (hw : wordAt? a = some w) : a ∉ DeviceReg.ports :=
  (spared_of_wordAt? hw).1

/-- The operating system has a listing at `a`. -/
def Placed (a : Word) (ls : List Listed) : Prop :=
  Along (fun a l => (wordAt? a).map (·.decode.instr) = some (l.instr a) ∧ l.Reaches a) a ls

instance {a : Word} {ls : List Listed} : Decidable (Placed a ls) := Along.decidable a ls

/-- The routines that are one piece of code. -/
theorem placed_routines : Placed (entry .getc) getcCode ∧ Placed (entry .out) outCode ∧
    Placed (entry .puts) putsCode ∧ Placed (entry .input) inputCode ∧
    Placed (entry .halt) haltCode ∧ Placed badTrapEntry badTrapCode := by
  decide +kernel

theorem placed_getc : Placed (entry .getc) getcCode := placed_routines.1

theorem placed_out : Placed (entry .out) outCode := placed_routines.2.1

theorem placed_puts : Placed (entry .puts) putsCode := placed_routines.2.2.1

theorem placed_input : Placed (entry .input) inputCode := placed_routines.2.2.2.1

theorem placed_halt : Placed (entry .halt) haltCode := placed_routines.2.2.2.2.1

theorem placed_badTrap : Placed badTrapEntry badTrapCode := placed_routines.2.2.2.2.2

/-- The pieces of `putspCode`. -/
theorem placed_putsp : Placed (entry .putsp) (saveCode (slots .putsp)) ∧
    Placed 0x251 [.plain (.add 1 0 (.imm 0))] ∧
    Placed 0x252 [.plain (.ldr 2 1 0), .ref (.br 0b010) 0x26A, .ref (.ld 3) 0x206,
      .plain (.and 3 2 (.reg 3))] ∧
    Placed 0x256 (showCode 0x256 4 3) ∧
    Placed 0x259 shiftCode ∧
    Placed 0x263 [.plain (.add 3 3 (.imm 0)), .ref (.br 0b010) 0x26A] ∧
    Placed 0x265 (showCode 0x265 4 3) ∧
    Placed 0x268 [.plain (.add 1 1 (.imm 1)), .ref (.br 0b111) 0x252] ∧
    Placed 0x26A (restoreCode (slots .putsp) ++ [ret]) := by
  decide +kernel

/-- The operating system has a string at `a`. -/
structure Message (a : Word) (text : String) : Prop where
  along : Along (fun a w => wordAt? a = some w) a (Text.utf16 text ++ [0])
  nonzero : 0 ∉ Text.utf16 text

theorem message_prompt : Message 0x238 prompt := ⟨by decide +kernel, by decide +kernel⟩

theorem message_halt : Message 0x282 haltMessage := ⟨by decide +kernel, by decide +kernel⟩

theorem message_badTrap : Message 0x2A7 badTrapMessage := ⟨by decide +kernel, by decide +kernel⟩

/-- The words that the routines load to reach the devices and to mask words. -/
def loaded : List (Word × Word) :=
  [(0x200, DeviceReg.kbsr), (0x201, DeviceReg.kbdr), (0x202, DeviceReg.dsr), (0x203, DeviceReg.ddr),
    (0x204, DeviceReg.mcr), (0x205, 0x7FFF), (0x206, 0x00FF)]

theorem wordAt?_of_mem_loaded : ∀ e ∈ loaded, wordAt? e.1 = some e.2 := by
  have hall : loaded.all (fun e => wordAt? e.1 = some e.2) = true := by decide +kernel
  exact fun e he => of_decide_eq_true (List.all_eq_true.1 hall e he)

/-- Every trap without a service routine that returns leads to a routine that halts. -/
theorem wordAt?_of_halting : ∀ vector : BitVec 8, vector < 0x20 ∨ 0x24 < vector →
    wordAt? (vector.setWidth 16) =
      some (if vector = Service.halt.vector then entry .halt else badTrapEntry) := by
  decide +kernel

/-! ## Memory with the operating system -/

/-- A listing lies in memory at `a`. -/
def Code (cell : Word → Word) (a : Word) (ls : List Listed) : Prop := Along (Listed.Lies cell) a ls

/-- The operating system is in memory, and the display is ready. -/
structure Up (cell : Word → Word) : Prop where
  words : ∀ a w, wordAt? a = some w → cell a = w
  ready : (cell DeviceReg.dsr).msb = true

namespace Up

variable {cell : Word → Word} {a : Word}

/-- A routine may save registers. -/
theorem update {v : Word} (h : Up cell) (ha : a ∈ saved) :
    Up (Function.update cell a v) := by
  have hdsr : DeviceReg.dsr ∉ saved := by decide
  refine ⟨fun b w hw => ?_, ?_⟩
  · have hb : b ≠ a := by
      rintro rfl
      rw [wordAt?, if_pos ha] at hw
      cases hw
    rw [Function.update_of_ne hb, h.words b w hw]
  · have hne : DeviceReg.dsr ≠ a := fun hne => hdsr (hne ▸ ha)
    rw [Function.update_of_ne hne]
    exact h.ready

theorem lies {l : Listed} (h : Up cell)
    (hl : (wordAt? a).map (·.decode.instr) = some (l.instr a) ∧ l.Reaches a) : l.Lies cell a := by
  obtain ⟨hl, hreaches⟩ := hl
  obtain ⟨w, hw, hinstr⟩ := Option.map_eq_some_iff.1 hl
  exact ⟨not_mem_ports hw, by rw [h.words a w hw, hinstr], hreaches⟩

theorem code {ls : List Listed} (h : Up cell) (hls : Placed a ls) : Code cell a ls :=
  hls.imp fun _ _ => h.lies

theorem loaded {w : Word} (h : Up cell) (hmem : (a, w) ∈ loaded) : cell a = w :=
  h.words a w (wordAt?_of_mem_loaded (a, w) hmem)

theorem kbsr (h : Up cell) : cell 0x200 = DeviceReg.kbsr := h.loaded (by decide)

theorem kbdr (h : Up cell) : cell 0x201 = DeviceReg.kbdr := h.loaded (by decide)

theorem dsr (h : Up cell) : cell 0x202 = DeviceReg.dsr := h.loaded (by decide)

theorem ddr (h : Up cell) : cell 0x203 = DeviceReg.ddr := h.loaded (by decide)

theorem mcr (h : Up cell) : cell 0x204 = DeviceReg.mcr := h.loaded (by decide)

/-- The clock may be started and stopped. -/
theorem setClock {v : Word} (h : Up cell) : Up (Function.update cell DeviceReg.mcr v) := by
  refine ⟨fun a w hw => ?_, ?_⟩
  · rw [Function.update_of_ne (spared_of_wordAt? hw).2]
    exact h.words a w hw
  · rw [Function.update_of_ne (by decide)]
    exact h.ready

end Up

end Os

namespace Machine

variable {m : Machine} {a : Word}

theorem cell_of_not_mem (ha : a ∉ DeviceReg.ports) : m.cell a = m.store.read a := by
  simp only [DeviceReg.ports, List.mem_cons, List.not_mem_nil, or_false, not_or] at ha
  simp [cell, ha]

theorem up_outline (hos : Os.InMemory m.store.read)
    (hready : m.store.isReady DeviceReg.dsr = true) : Os.Up m.outline.cell := by
  refine ⟨fun a w hw => ?_, hready⟩
  rw [← hos.cell_eq hw]
  exact cell_of_not_mem (Os.not_mem_ports hw)

theorem instr_outline (hpc : m.reg .pc ∉ DeviceReg.ports) :
    m.outline.instr = (m.store.read (m.reg .pc)).decode.instr :=
  congrArg (·.decode.instr) (cell_of_not_mem hpc)

end Machine

/-! ## After power-on -/

namespace Store

variable {s : Store} {start a w : Word} {ws : List Word} {i : Nat}

theorem read_writeBlock_of_ne (h : ∀ i < ws.length, start + BitVec.ofNat 16 i ≠ a) :
    (s.writeBlock start ws).read a = s.read a := by
  induction ws generalizing s start with
  | nil => rfl
  | cons w ws ih =>
      have hstart : start ≠ a := by simpa using h 0 (Nat.succ_pos _)
      have hrest : ∀ i < ws.length, start + 1 + BitVec.ofNat 16 i ≠ a := by
        intro i hi
        have hnext : start + 1 + BitVec.ofNat 16 i = start + BitVec.ofNat 16 (i + 1) := by
          bv_omega
        rw [hnext]
        exact h (i + 1) (Nat.succ_lt_succ hi)
      rw [writeBlock, ih hrest, read_write, if_neg hstart]

theorem read_writeBlock (hlen : ws.length ≤ memorySize) (hw : ws[i]? = some w) :
    (s.writeBlock start ws).read (start + BitVec.ofNat 16 i) = w := by
  induction ws generalizing s start i with
  | nil => cases hw
  | cons v ws ih =>
      have hlt : ws.length < memorySize := hlen
      cases i with
      | zero =>
          cases hw
          have hne : ∀ i < ws.length, start + 1 + BitVec.ofNat 16 i ≠ start := by
            intro i hi
            have hi : i < 0xFFFF := by
              unfold memorySize at hlt
              omega
            bv_omega
          rw [BitVec.add_zero, writeBlock, read_writeBlock_of_ne hne, read_write, if_pos rfl]
      | succ i =>
          have hnext : start + BitVec.ofNat 16 (i + 1) = start + 1 + BitVec.ofNat 16 i := by
            bv_omega
          rw [hnext]
          exact ih hlt.le hw

theorem read_setLabels {bs : List (Word × String)} : (s.setLabels bs).read a = s.read a := by
  induction bs generalizing s with
  | nil => rfl
  | cons b bs ih =>
      refine (ih (s := s.setLabel b.2 b.1)).trans ?_
      rw [setLabel_eq]
      rfl

end Store

theorem Machine.read_powerOn {m : Machine} {a : Word} (hport : a ∉ DeviceReg.ports)
    (hclock : a ≠ DeviceReg.mcr) : m.powerOn.store.read a = (m.store.load m.os).read a := by
  have hpower : ({ m.store.powerOn m.flags m.os with input := [] } : Store).read a =
      (m.store.load m.os).read a := by
    change (m.store.powerOn m.flags m.os).read a = _
    rw [Store.powerOn, Store.read_write, if_neg hclock.symm, Store.read_setReg, Store.read_setReg]
  simp only [DeviceReg.ports, List.mem_cons, List.not_mem_nil, or_false, not_or] at hport
  obtain ⟨hkbsr, hkbdr, hdsr, hddr⟩ := hport
  simpa [powerOn, Devices.reset, Keyboard.reset, Display.reset, Ne.symm hkbsr, Ne.symm hkbdr,
    Ne.symm hdsr, Ne.symm hddr] using hpower

theorem Machine.isReady_powerOn {m : Machine} :
    m.powerOn.store.isReady DeviceReg.dsr = true := by
  simp +decide [powerOn, Devices.reset, Display.reset]

theorem Machine.keys_powerOn {m : Machine} : m.powerOn.keys = [] := by
  have hready : m.powerOn.store.isReady DeviceReg.kbsr = false := by
    simp +decide [powerOn, Devices.reset, Keyboard.reset, Display.reset]
  rw [keys, hready]
  rfl

theorem Machine.pc_powerOn {m : Machine} : m.powerOn.reg .pc = m.flags.startPc := rfl

namespace Os

theorem toNat_lt_of_mem {e : Word × Word} (he : e ∈ standard.addressed) : e.1.toNat < 715 := by
  obtain ⟨horig, hwords, -⟩ := standard_eq
  obtain ⟨i, hi, ha⟩ := ObjectFile.mem_addressed.1 he
  have hlt : i < 715 := by
    rw [← length_image, ← hwords]
    exact (List.getElem?_eq_some_iff.1 hi).1
  rw [ha, horig]
  bv_omega

/-- A machine that has just been switched on has the words of its operating system in memory. -/
theorem inMemory_of_words {flags : Flags} {os : OsImage} (horig : os.orig = 0)
    (hwords : os.words = image) : InMemory (Machine.new flags os).store.read := by
  intro e he _
  have hlt := toNat_lt_of_mem he
  obtain ⟨hport, hclock⟩ := DeviceReg.spared_of_lt (a := e.1) (by omega)
  obtain ⟨i, hi, ha⟩ := ObjectFile.mem_addressed.1 he
  rw [standard_eq.1] at ha
  rw [standard_eq.2.1] at hi
  rw [Machine.new, Machine.read_powerOn hport hclock, Store.load, Store.read_setLabels, ha,
    show (Machine.unused flags os).os = os from rfl, horig, hwords]
  refine Store.read_writeBlock ?_ hi
  rw [length_image]
  decide

theorem inMemory_new {flags : Flags} : InMemory (Machine.new flags standard).store.read :=
  inMemory_of_words standard_eq.1 standard_eq.2.1

/-- The operating system takes up the first 715 words; the others may change. -/
theorem InMemory.congr {cell cell' : Word → Word} (h : InMemory cell)
    (hcell : ∀ a, (∀ b : Word, 715 ≤ b.toNat → b ≠ a) → cell' a = cell a) : InMemory cell' := by
  intro e he hfree
  have hlt := toNat_lt_of_mem he
  have hne : ∀ b : Word, 715 ≤ b.toNat → b ≠ e.1 := by
    rintro b hb rfl
    omega
  rw [hcell e.1 hne]
  exact h e he hfree

end Os

end Lc3
