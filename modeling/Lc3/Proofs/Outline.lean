import Lc3.Proofs.Display

/-!
# The machine as a program sees it

While the display is ready, a program cannot tell when the devices have their turns. The outline of
a machine leaves out which character is on its way and keeps those that can still be read and those
that were shown. Main statement: a step does to the outline what the instruction says.
-/

namespace Lc3

/-! ## Outlines -/

/-- The registers of the keyboard and the display. -/
def DeviceReg.ports : List Word := [kbsr, kbdr, dsr, ddr]

/-- What a program sees of a machine: the registers, with the condition apart from the rest of the
status; memory; the calls that have not returned; what was shown; and what can still be read. -/
structure Outline where
  pc : Word
  general : Reg → Word
  mode : BitVec 13
  condition : Option Condition
  cell : Word → Word
  depth : Nat
  shown : List Byte
  keys : List Word

namespace Machine

/-- The characters that a program has not read: the one that is ready, and those that wait. -/
def keys (m : Machine) : List Word :=
  (if m.store.isReady DeviceReg.kbsr then [m.store.read DeviceReg.kbdr] else []) ++
    m.store.input.map (·.setWidth 16)

/-- Memory without what the devices put into their registers: the two data registers, and whether
the keyboard is ready. -/
def cell (m : Machine) (a : Word) : Word :=
  if a = DeviceReg.kbdr ∨ a = DeviceReg.ddr then 0
  else if a = DeviceReg.kbsr then Store.withReady (m.store.read a) false
  else m.store.read a

/-- The outline of a machine. -/
def outline (m : Machine) : Outline where
  pc := m.reg .pc
  general r := m.reg (.general r)
  mode := (m.reg .psr).extractLsb' 3 13
  condition := Psr.condition? (m.reg .psr)
  cell := m.cell
  depth := m.callDepth
  shown := m.shown
  keys := m.keys

/-- A machine whose display is ready, and whose outline is `o`. -/
structure At (m : Machine) (o : Outline) : Prop where
  outline : m.outline = o
  ready : m.store.isReady DeviceReg.dsr = true

end Machine

namespace Outline

/-! ## Instructions on outlines

What an instruction does to the machine, said of the outline. -/

/-- With the program counter behind the instruction. -/
def next (o : Outline) : Outline := { o with pc := o.pc + 1 }

/-- With a result in a register. -/
def put (o : Outline) (dr : Reg) (value : Word) : Outline :=
  { o with general := Function.update o.general dr value, condition := some (.ofValue value) }

/-- With a word stored. The display shows what is stored into its data register. -/
def write (o : Outline) (a value : Word) : Outline :=
  if a = DeviceReg.ddr then { o with shown := o.shown ++ [value.setWidth 8] }
  else { o with cell := Function.update o.cell a value }

/-- The word that an instruction reads: the keyboard is ready if a character can be read. -/
def look (o : Outline) (a : Word) : Word :=
  if a = DeviceReg.kbdr then o.keys.headD 0
  else if a = DeviceReg.kbsr then Store.withReady (o.cell a) !o.keys.isEmpty
  else o.cell a

/-- When a word was read: a character is read once. -/
def afterLook (o : Outline) (a : Word) : Outline :=
  if a = DeviceReg.kbdr then { o with keys := o.keys.tail } else o

/-- In a routine that is called. -/
def call (o : Outline) (target : Word) : Outline :=
  { o with
    general := Function.update o.general Reg.link o.pc
    pc := target
    depth := o.depth + 1 }

/-- Where a register points to, which may be back from a routine. -/
def jump (o : Outline) (base : Reg) : Outline :=
  { o with pc := o.general base, depth := if base = Reg.link then o.depth - 1 else o.depth }

/-- With the program counter and the status from the stack. -/
def returnFromInterrupt (o : Outline) : Outline :=
  let sp := o.general Reg.stack
  { o with
    general := Function.update o.general Reg.stack (sp + 2)
    pc := o.cell sp
    mode := (o.cell (sp + 1)).extractLsb' 3 13
    condition := Psr.condition? (o.cell (sp + 1)) }

/-- Whether a branch with these conditions is taken. -/
def takes (o : Outline) (mask : BitVec 8) : Bool :=
  match o.condition with
  | some c => mask.setWidth 3 &&& c.bits != 0
  | none => false

/-- The address that an instruction works on. -/
def address (o : Outline) : AddrMode → Word
  | .none => 0
  | .pc off => o.pc + off
  | .base r off => o.general r + off
  | .trap vector => vector.setWidth 16

/-- The value of the last operand. -/
def source (o : Outline) : Operand 5 → Word
  | .imm v => v.signExtend 16
  | .reg r => o.general r

/-- What an instruction that works on `addr` does. -/
def exec (o : Outline) (addr : Word) : Instr → Outline
  | .br mask _ => if o.takes mask then { o with pc := addr } else o
  | .add dr sr src => o.put dr (o.general sr + o.source src)
  | .and dr sr src => o.put dr (o.general sr &&& o.source src)
  | .not dr sr => o.put dr (~~~ o.general sr)
  | .ld dr _ | .ldr dr _ _ => (o.afterLook addr).put dr (o.look addr)
  | .ldi dr _ => (o.afterLook (o.cell addr)).put dr (o.look (o.cell addr))
  | .lea dr _ => o.put dr addr
  | .st sr _ | .str sr _ _ => o.write addr (o.general sr)
  | .sti sr _ => o.write (o.cell addr) (o.general sr)
  | .jsr (.imm _) => o.call addr
  | .jsr (.reg base) => o.call (o.general base)
  | .jmp base => o.jump base
  | .trap _ => o.call (o.cell addr)
  | .rti => o.returnFromInterrupt
  | .reserved => o

/-- The outline tells what is read at an address: it is not the data of the display, nor that of the
keyboard while there is nothing to read. -/
def Readable (o : Outline) (a : Word) : Prop :=
  a ≠ DeviceReg.ddr ∧ (a = DeviceReg.kbdr → o.keys ≠ [])

/-- The outline tells what an instruction does that works on `addr`. -/
def Tells (o : Outline) (addr : Word) : Instr → Prop
  | .ld _ _ | .ldr _ _ _ => o.Readable addr
  | .ldi _ _ => addr ∉ DeviceReg.ports ∧ o.Readable (o.cell addr)
  | .st _ _ | .str _ _ _ => addr ∉ DeviceReg.updated
  | .sti _ _ => addr ∉ DeviceReg.ports ∧ o.cell addr ∉ DeviceReg.updated
  | .trap _ => addr ∉ DeviceReg.ports
  | .rti => o.general Reg.stack ∉ DeviceReg.ports ∧ o.general Reg.stack + 1 ∉ DeviceReg.ports
  | _ => True

/-- The instruction at the program counter. -/
def instr (o : Outline) : Instr := (o.cell o.pc).decode.instr

/-- After the instruction at the program counter. -/
def step (o : Outline) : Outline := o.next.exec (o.next.address o.instr.mode) o.instr

/-- The outline tells what the next step does. -/
structure Plain (o : Outline) : Prop where
  pc : o.pc ∉ DeviceReg.ports
  tells : o.next.Tells (o.next.address o.instr.mode) o.instr

end Outline

/-! ## The status -/

theorem Psr.mode_withConditionOf {psr : Psr} {v : Word} :
    (Psr.withConditionOf psr v).extractLsb' 3 13 = psr.extractLsb' 3 13 := by
  rw [Psr.withConditionOf]
  exact BitVec.extractLsb'_append_eq_left

theorem Psr.condition?_withConditionOf {psr : Psr} {v : Word} :
    Psr.condition? (Psr.withConditionOf psr v) = some (.ofValue v) := by
  rw [Psr.condition?, Psr.codes, Psr.withConditionOf, BitVec.extractLsb'_append_eq_right]
  cases Condition.ofValue v <;> rfl

/-! ## Bit 15 -/

namespace Store

variable {w : Word} {on on' : Bool}

theorem withReady_withReady : withReady (withReady w on) on' = withReady w on' := by
  rw [withReady, withReady, withReady, BitVec.setWidth_append_eq_right]

theorem withReady_self (h : w.msb = on) : withReady w on = w := by
  subst h
  exact BitVec.cons_msb_setWidth w

end Store

/-! ## Outlines of changed machines -/

namespace Machine

variable {m m' : Machine} {o : Outline} {a v : Word} {r : Reg}

theorem outline_setPc : (m.setReg .pc v).outline = { m.outline with pc := v } := rfl

theorem outline_setGeneral : (m.setReg (.general r) v).outline =
    { m.outline with general := Function.update m.outline.general r v } := by
  have hgeneral : (m.setReg (.general r) v).outline.general =
      Function.update m.outline.general r v := by
    funext r'
    rw [Function.update_apply]
    simp [outline, eq_comm]
  rw [← hgeneral]
  rfl

theorem outline_setPsr : (m.setReg .psr v).outline =
    { m.outline with mode := v.extractLsb' 3 13, condition := Psr.condition? v } := rfl

theorem outline_setResult : (m.setResult r v).outline = m.outline.put r v := by
  rw [setResult, outline_setPsr, Psr.mode_withConditionOf, Psr.condition?_withConditionOf,
    outline_setGeneral]
  rfl

theorem outline_call : (m.call a).outline = m.outline.call a := by
  have hset : ((m.setReg (.general Reg.link) m.store.pc).setReg .pc a).outline =
      { m.outline with
        general := Function.update m.outline.general Reg.link m.store.pc
        pc := a } := by
    rw [outline_setPc, outline_setGeneral]
  exact congrArg (fun o : Outline => { o with depth := m.callDepth + 1 }) hset

theorem outline_jump : (m.jump r).outline = m.outline.jump r := by
  unfold jump Outline.jump
  by_cases hr : r = Reg.link
  · simp only [if_pos hr]
    rfl
  · simp only [if_neg hr]
    rfl

/-! ### The turn of the devices -/

/-- The keyboard is ready if there is anything to read. -/
def Settled (m : Machine) : Prop := m.store.isReady DeviceReg.kbsr = !m.keys.isEmpty

theorem keys_of_sameKeys (h : m.store.SameKeys m'.store) : m'.keys = m.keys := by
  rw [keys, keys, h.ready, h.data, h.input]

theorem keys_type {ch : Byte} : (m.type ch).keys = m.keys ++ [ch.setWidth 16] := by
  have hready : (m.type ch).store.isReady DeviceReg.kbsr = m.store.isReady DeviceReg.kbsr := rfl
  have hinput : (m.type ch).store.input = m.store.input ++ [ch] := rfl
  rw [keys, keys, hready, hinput, List.map_append, List.append_assoc]
  rfl

theorem keys_exchange : m.exchange.keys = m.keys := by
  obtain ⟨-, hsame, -⟩ | ⟨ch, hready, hdel, -⟩ := exchange_cases m
  · exact keys_of_sameKeys hsame
  · simp [keys, hready, hdel.ready, hdel.data, hdel.input]

theorem settled_exchange : m.exchange.Settled := by
  rw [Settled, keys_exchange]
  obtain ⟨hidle, hsame, -⟩ | ⟨ch, hready, hdel, -⟩ := exchange_cases m
  · rw [hsame.ready]
    cases hready : m.store.isReady DeviceReg.kbsr with
    | true => simp [keys, hready]
    | false =>
        have hinput : m.store.input = [] := by simpa [hready] using hidle
        simp [keys, hready, hinput]
  · rw [hdel.ready]
    simp [keys, hdel.input]

theorem kbsr_exchange : Store.withReady (m.exchange.store.read DeviceReg.kbsr) false =
    Store.withReady (m.store.read DeviceReg.kbsr) false := by
  obtain ⟨-, hsame, -⟩ | ⟨ch, -, hdel, -⟩ := exchange_cases m
  · rw [hsame.status]
  · rw [hdel.status, Store.withReady_withReady]

theorem dsr_exchange : m.exchange.store.read DeviceReg.dsr =
    Store.withReady (m.store.read DeviceReg.dsr) true := by
  have hk := Store.SameDisplay.update m.devices.keyboard m.store
  rw [exchange_store, Display.update, ← hk.status]
  split
  · rename_i hready
    exact (Store.withReady_self hready).symm
  · simp [Store.setReady]

theorem cell_exchange : m.exchange.cell =
    Function.update m.cell DeviceReg.dsr (Store.withReady (m.cell DeviceReg.dsr) true) := by
  have hdsr : ∀ m : Machine, m.cell DeviceReg.dsr = m.store.read DeviceReg.dsr := fun _ => rfl
  funext a
  by_cases ha : a = DeviceReg.dsr
  · rw [ha, Function.update_self, hdsr, hdsr, dsr_exchange]
  · rw [Function.update_of_ne ha, cell, cell]
    split
    · rfl
    · split
      · rename_i hkbsr
        rw [hkbsr, kbsr_exchange]
      · exact read_exchange (by simp [DeviceReg.updated]; tauto)

theorem outline_exchange : m.exchange.outline =
    { m.outline with
      cell := Function.update m.cell DeviceReg.dsr (Store.withReady (m.cell DeviceReg.dsr) true)
      shown := m.shown ++ m.due } := by
  simp only [outline, reg_exchange, keys_exchange, cell_exchange, shows_exchange.shown]
  rfl

/-! ### Accesses to memory -/

theorem outline_setReady_kbsr : (m.onStore (·.setReady DeviceReg.kbsr false)).outline =
    { m.outline with keys := m.store.input.map (·.setWidth 16) } := by
  have hkeys : (m.onStore (·.setReady DeviceReg.kbsr false)).keys =
      m.store.input.map (·.setWidth 16) := by
    have hready : (m.onStore (·.setReady DeviceReg.kbsr false)).store.isReady DeviceReg.kbsr =
        false := Store.isReady_setReady_self
    rw [keys, hready]
    rfl
  have hcell : (m.onStore (·.setReady DeviceReg.kbsr false)).cell = m.cell := by
    funext a
    rw [cell, cell]
    split
    · rfl
    · split
      · rename_i hkbsr
        rw [hkbsr, onStore, Store.setReady, Store.read_write, if_pos rfl, Store.withReady_withReady]
      · rename_i hkbsr
        exact Store.read_setReady_of_ne (Ne.symm hkbsr)
  rw [outline, outline, hkeys, hcell]
  rfl

theorem cell_write (ha : a ∉ DeviceReg.updated) : (m.write a v).cell =
    if a = DeviceReg.ddr then
      Function.update m.cell DeviceReg.dsr (Store.withReady (m.cell DeviceReg.dsr) false)
    else Function.update m.cell a v := by
  have hdsr : DeviceReg.dsr ≠ DeviceReg.ddr := by decide
  simp only [DeviceReg.updated, List.mem_cons, List.not_mem_nil, or_false, not_or] at ha
  obtain ⟨hkbsr, hkbdr, -⟩ := ha
  rw [write_eq]
  funext b
  split
  · rename_i hddr
    subst hddr
    by_cases hb : b = DeviceReg.dsr
    · subst hb
      simp +decide [cell, onStore, Store.setReady]
    · rw [Function.update_of_ne hb]
      by_cases hb' : b = DeviceReg.ddr
      · rw [cell, cell, if_pos (.inr hb'), if_pos (.inr hb')]
      · simp [cell, onStore, Store.setReady, Ne.symm hb, Ne.symm hb']
  · rename_i hddr
    by_cases hb : b = a
    · subst hb
      simp [cell, onStore, hkbsr, hkbdr, hddr]
    · simp [cell, onStore, hb, Ne.symm hb]

theorem outline_write (ha : a ∉ DeviceReg.updated) :
    (m.write a v).outline = { m.outline with cell := (m.write a v).cell } := by
  have hkeys : (m.write a v).keys = m.keys := by
    simp only [DeviceReg.updated, List.mem_cons, List.not_mem_nil, or_false, not_or] at ha
    exact keys_of_sameKeys (sameKeys_write ha.1 ha.2.1)
  simp only [outline, reg_write, hkeys]
  rfl

/-! ## Machines with an outline -/

theorem At.exchange (h : m.At o) : m.exchange.At o := by
  refine ⟨?_, isReady_exchange⟩
  have hdsr : Store.withReady (m.cell DeviceReg.dsr) true = m.cell DeviceReg.dsr :=
    Store.withReady_self h.ready
  rw [outline_exchange, hdsr, Function.update_eq_self, due_of_ready h.ready, List.append_nil]
  exact h.outline

theorem At.setPc (h : m.At o) : (m.setReg .pc v).At { o with pc := v } :=
  ⟨by rw [outline_setPc, h.outline], Store.isReady_setReg.trans h.ready⟩

theorem At.setIr (h : m.At o) : (m.setReg .ir v).At o := ⟨h.outline, h.ready⟩

theorem At.setGeneral (h : m.At o) : (m.setReg (.general r) v).At
    { o with general := Function.update o.general r v } :=
  ⟨by rw [outline_setGeneral, h.outline], Store.isReady_setReg.trans h.ready⟩

theorem At.setPsr (h : m.At o) : (m.setReg .psr v).At
    { o with mode := v.extractLsb' 3 13, condition := Psr.condition? v } :=
  ⟨by rw [outline_setPsr, h.outline], Store.isReady_setReg.trans h.ready⟩

theorem At.setResult (h : m.At o) : (m.setResult r v).At (o.put r v) :=
  ⟨by rw [outline_setResult, h.outline],
    Store.isReady_setReg.trans (Store.isReady_setReg.trans h.ready)⟩

theorem At.call (h : m.At o) : (m.call a).At (o.call a) :=
  ⟨by rw [outline_call, h.outline],
    Store.isReady_setReg.trans (Store.isReady_setReg.trans h.ready)⟩

theorem At.jump (h : m.At o) : (m.jump r).At (o.jump r) := by
  refine ⟨by rw [outline_jump, h.outline], ?_⟩
  unfold Machine.jump
  split <;> exact Store.isReady_setReg.trans h.ready

/-- A cell that is none of the devices' is read as it is. -/
theorem At.store_read (h : m.At o) (ha : a ∉ DeviceReg.ports) : m.store.read a = o.cell a := by
  simp only [DeviceReg.ports, List.mem_cons, List.not_mem_nil, or_false, not_or] at ha
  obtain ⟨hkbsr, hkbdr, -, hddr⟩ := ha
  rw [← h.outline]
  simp [Machine.outline, cell, hkbsr, hkbdr, hddr]

theorem At.read_of_not_mem (h : m.At o) (ha : a ∉ DeviceReg.ports) : m.read a = (o.cell a, m) := by
  have hkbdr : a ≠ DeviceReg.kbdr := fun hkbdr => ha (by simp [hkbdr, DeviceReg.ports])
  rw [read_eq, if_neg hkbdr, h.store_read ha]

theorem At.read (h : m.At o) (hs : m.Settled) (ha : o.Readable a) :
    (m.read a).1 = o.look a ∧ (m.read a).2.At (o.afterLook a) := by
  obtain ⟨hddr, hkeys⟩ := ha
  obtain ⟨rfl, hready⟩ := h
  rw [read_eq]
  by_cases hkbdr : a = DeviceReg.kbdr
  · subst hkbdr
    -- The machine is settled: a character that can be read is in the data register.
    have hkbsr : m.store.isReady DeviceReg.kbsr = true := by
      have hne : m.keys ≠ [] := hkeys rfl
      rw [hs]
      simpa using hne
    have hcons : m.outline.keys =
        m.store.read DeviceReg.kbdr :: m.store.input.map (·.setWidth 16) := by
      simp [Machine.outline, keys, hkbsr]
    have hlook : m.outline.look DeviceReg.kbdr = m.store.read DeviceReg.kbdr := by
      rw [Outline.look, if_pos rfl, hcons, List.headD_cons]
    have hafter : m.outline.afterLook DeviceReg.kbdr =
        { m.outline with keys := m.store.input.map (·.setWidth 16) } := by
      rw [Outline.afterLook, if_pos rfl, hcons, List.tail_cons]
    rw [hlook, hafter, if_pos rfl]
    exact ⟨rfl, outline_setReady_kbsr, (Store.isReady_setReady_of_ne (by decide)).trans hready⟩
  · have hlook : m.outline.look a = m.store.read a := by
      rw [Outline.look, if_neg hkbdr]
      split
      · rename_i hkbsr
        subst hkbsr
        have hcell : m.outline.cell DeviceReg.kbsr =
            Store.withReady (m.store.read DeviceReg.kbsr) false := rfl
        rw [hcell, Store.withReady_withReady]
        exact Store.withReady_self hs
      · rename_i hkbsr
        simp [Machine.outline, cell, hkbdr, hkbsr, hddr]
    rw [hlook, Outline.afterLook, if_neg hkbdr, if_neg hkbdr]
    exact ⟨rfl, rfl, hready⟩

/-- What is stored into the data register of the display is shown before the next instruction. -/
theorem At.write (h : m.At o) (ha : a ∉ DeviceReg.updated) :
    (m.write a v).exchange.At (o.write a v) := by
  have hself : Store.withReady (m.cell DeviceReg.dsr) true = m.cell DeviceReg.dsr :=
    Store.withReady_self h.ready
  have hshown : (m.write a v).shown = m.shown := rfl
  refine ⟨?_, isReady_exchange⟩
  rw [outline_exchange, outline_write ha, due_write h.ready, hshown, ← h.outline, cell_write ha,
    Outline.write, shownFor]
  split
  · -- The display was made not ready, and is ready again after its turn.
    rw [Function.update_self, Function.update_idem, Store.withReady_withReady, hself,
      Function.update_eq_self]
    rfl
  · have hdsr : DeviceReg.dsr ≠ a := fun hdsr => ha (by simp [← hdsr, DeviceReg.updated])
    have hkept := Function.update_eq_self DeviceReg.dsr (Function.update m.cell a v)
    rw [Function.update_of_ne hdsr] at hkept
    rw [Function.update_of_ne hdsr, hself, hkept, if_neg fun h => hdsr h.1.symm, List.append_nil]
    rfl

/-! ## Steps -/

theorem At.address (h : m.At o) {mode : AddrMode} : m.address mode = o.address mode := by
  rw [← h.outline]
  cases mode <;> rfl

theorem At.source (h : m.At o) {src : Operand 5} : m.source src = o.source src := by
  rw [← h.outline]
  cases src <;> rfl

theorem At.general (h : m.At o) : m.reg (.general r) = o.general r := by
  rw [← h.outline]
  rfl

theorem At.takes (h : m.At o) {mask : BitVec 8} : m.takes mask = o.takes mask := by
  rw [← h.outline]
  rfl

theorem At.execute {addr : Word} {i : Instr} (h : m.At o) (hs : m.Settled) (ht : o.Tells addr i) :
    (m.execute addr i).exchange.At (o.exec addr i) := by
  cases i with
  | br mask off =>
      rw [Machine.execute, Outline.exec, h.takes]
      split
      · exact h.setPc.exchange
      · exact h.exchange
  | add dr sr src | and dr sr src =>
      rw [Machine.execute, Outline.exec, h.general, h.source]
      exact h.setResult.exchange
  | not dr sr =>
      rw [Machine.execute, Outline.exec, h.general]
      exact h.setResult.exchange
  | lea dr off => exact h.setResult.exchange
  | ld dr off | ldr dr base off =>
      obtain ⟨hvalue, hread⟩ := h.read hs ht
      rw [Outline.exec, ← hvalue]
      exact hread.setResult.exchange
  | ldi dr off =>
      obtain ⟨haddr, hpointer⟩ := ht
      obtain ⟨hvalue, hread⟩ := h.read hs hpointer
      rw [Machine.execute, h.read_of_not_mem haddr, Outline.exec, ← hvalue]
      exact hread.setResult.exchange
  | st sr off | str sr base off =>
      rw [Machine.execute, Outline.exec, h.general]
      exact h.write ht
  | sti sr off =>
      obtain ⟨haddr, hpointer⟩ := ht
      rw [Machine.execute, h.read_of_not_mem haddr, Outline.exec, ← h.general]
      exact h.write hpointer
  | jsr target =>
      cases target with
      | imm off => exact h.call.exchange
      | reg base =>
          rw [Machine.execute, Outline.exec, h.general]
          exact h.call.exchange
  | jmp base => exact h.jump.exchange
  | trap vector =>
      rw [Machine.execute, h.read_of_not_mem ht]
      exact h.call.exchange
  | rti =>
      obtain ⟨hsp, hstatus⟩ := ht
      rw [Machine.execute, returnFromInterrupt, h.general, h.read_of_not_mem hsp]
      simp only [h.read_of_not_mem hstatus]
      exact h.setGeneral.setPc.setPsr.exchange
  | reserved => exact h.exchange

theorem At.fetched (h : m.At o) (hpc : o.pc ∉ DeviceReg.ports) :
    m.fetched.At o.next ∧ m.fetched.Settled ∧ m.step.1.instr = o.instr := by
  have hcounter : m.exchange.store.pc = o.pc := congrArg Outline.pc h.exchange.outline
  have hword : m.exchange.store.read m.exchange.store.pc = o.cell o.pc := by
    rw [hcounter, h.exchange.store_read hpc]
  refine ⟨?_, settled_exchange (m := m), congrArg (·.decode.instr) hword⟩
  rw [Outline.next, ← hcounter]
  exact h.exchange.setIr.setPc

/-- A step of the machine is a step of its outline. -/
theorem At.step (h : m.At o) (ho : o.Plain) : m.step.2.At o.step := by
  obtain ⟨hfetched, hs, hi⟩ := h.fetched ho.pc
  have hexecuted : m.executed.exchange.At o.step := by
    rw [executed, hfetched.address, hi]
    exact hfetched.execute hs ho.tells
  exact ⟨hexecuted.outline, hexecuted.ready⟩

end Machine
end Lc3
