import Lc3.Proofs.Service

/-!
# Halting

`HALT`, and the routine of the traps that have none, say so and clear the bit of the clock. Main
statement: every trap without a service that returns stops the machine, and if the clock is started
again, the machine says so and stops again.
-/

namespace Lc3

open Os (Up)

/-! ## What the machine says -/

namespace Os

/-- What the display shows of a text: the low bytes of its code units. -/
def said (text : String) : List Byte := (Text.utf16 text).map (·.setWidth 8)

/-- What the machine says when it halts because of a trap. -/
def farewell (vector : BitVec 8) : List Byte :=
  if vector = Service.halt.vector then said haltMessage else said badTrapMessage ++ said haltMessage

end Os

theorem Store.withReady_false {w : Word} : withReady w false = w &&& 0x7FFF := by
  have hmask : ∀ i < 16, (0x7FFF : Word).getLsbD i = decide (i < 15) := by decide
  apply BitVec.eq_of_getLsbD_eq
  intro i hi
  rw [BitVec.getLsbD_and, hmask i hi, withReady, BitVec.getLsbD_append, BitVec.getLsbD_setWidth]
  by_cases hlow : i < 15
  · simp [hlow]
  · have hhigh : i - 15 = 0 := by omega
    simp [hlow, hhigh]

namespace Outline

variable {o o' o'' : Outline} {bytes bytes' : List Byte} {vector : BitVec 8}

/-! ## Paths that end with a stop -/

/-- Steps lead from one outline to another, and the last of them may stop the clock. -/
def Stops (o o' : Outline) : Prop := ∃ last, o.Leads last ∧ last.Plain ∧ last.step = o'

theorem Leads.stops (h : o.Leads o') (h' : o'.Stops o'') : o.Stops o'' := by
  obtain ⟨last, hleads, hplain, hstep⟩ := h'
  exact ⟨last, h.trans hleads, hplain, hstep⟩

/-- The machine has said something since `o`, and it has halted: the clock is stopped, and the
program counter is where the routine starts over. -/
structure Halted (o : Outline) (bytes : List Byte) (o' : Outline) : Prop where
  pc : o'.pc = 0x281
  general : ∀ r ∈ [3, 4, 5, 6], o'.general r = o.general r
  condition : ∃ w, o'.condition = some (.ofValue w)
  cell : o'.cell = Function.update o.cell DeviceReg.mcr
    (Store.withReady (o.cell DeviceReg.mcr) false)
  shown : o'.shown = o.shown ++ bytes

/-- A path goes on to where the machine has halted and said `bytes`. -/
def Halts (o : Outline) (bytes : List Byte) : Prop := ∃ o', o.Stops o' ∧ o.Halted bytes o'

/-- Before it halts, the machine may say more, and use registers that need not be kept. -/
theorem Halts.of_leads (h : o.Leads o') (hgeneral : ∀ r ∈ [3, 4, 5, 6], o'.general r = o.general r)
    (hcell : o'.cell = o.cell) (hshown : o'.shown = o.shown ++ bytes) (h' : o'.Halts bytes') :
    o.Halts (bytes ++ bytes') := by
  obtain ⟨o'', hstops, hhalted⟩ := h'
  refine ⟨o'', h.stops hstops, hhalted.pc, fun r hr => ?_, hhalted.condition, ?_, ?_⟩
  · rw [hhalted.general r hr, hgeneral r hr]
  · rw [hhalted.cell, hcell]
  · rw [hhalted.shown, hshown, List.append_assoc]

/-! ## The routines -/

/-- The routine reads the register of the clock, clears bit 15, and writes it back. -/
theorem halts_of_stop (hup : Up o.cell) : { o with pc := 0x27D }.Halts [] := by
  obtain ⟨-, -, -, -, -, -, -, -, hldi, hld, hand, hsti, -⟩ := Os.placed_halt
  have hmask : o.cell 0x205 = 0x7FFF := hup.loaded (by decide)
  let clock := o.cell DeviceReg.mcr
  let loaded : Outline := { o with
    pc := 0x27E
    general := Function.update o.general 0 clock
    condition := some (.ofValue clock) }
  let last : Outline := { o with
    pc := 0x280
    general := Function.update (Function.update loaded.general 1 0x7FFF) 0 (clock &&& 0x7FFF)
    condition := some (.ofValue (clock &&& 0x7FFF)) }
  have hload : Leads { o with pc := 0x27D } loaded := by
    have hne : DeviceReg.mcr ≠ DeviceReg.ddr ∧ DeviceReg.mcr ≠ DeviceReg.kbdr := by decide
    exact .ldi (o := { o with pc := 0x27D }) (hup.lies hldi) (by decide) hup.mcr
      ⟨hne.1, fun hkbdr => absurd hkbdr hne.2⟩
  have hclear : loaded.Leads last :=
    (Leads.ld (o := loaded) (hup.lies hld) (by decide) hmask).trans (.and (hup.lies hand) rfl)
  have hpointer : last.next.cell 0x204 = DeviceReg.mcr := hup.mcr
  have hupdated : last.next.cell 0x204 ∉ DeviceReg.updated := by
    rw [hpointer]
    decide
  have hexec : last.next.exec 0x204 (.sti 0 (Listed.offset last.pc 0x204)) =
      { last.next with cell := Function.update o.cell DeviceReg.mcr (clock &&& 0x7FFF) } := by
    rw [exec, hpointer]
    rfl
  obtain ⟨hplain, hstep⟩ := step_of_has (o := last) (hup.lies hsti) hsti.2 ⟨by decide, hupdated⟩
    hexec
  refine ⟨_, ⟨last, hload.trans hclear, hplain, hstep⟩, rfl, fun r hr => ?_, ⟨_, rfl⟩, ?_,
    (List.append_nil _).symm⟩
  · simp only [List.mem_cons, List.not_mem_nil, or_false] at hr
    rcases hr with rfl | rfl | rfl | rfl <;> rfl
  · rw [Store.withReady_false]

theorem not_mem_of_kept : ∀ r ∈ ([3, 4, 5, 6] : List Reg), r ∉ [1, 2, 0] := by decide

/-- A routine that says something and halts. -/
theorem halts_of_say {start message stop : Word} {text : String} (hup : Up o.cell)
    (hcode : Os.Placed start (.ref (.lea 1) message :: Os.printCode (start + 1) 1 2 0 stop))
    (hmessage : Os.Message message text)
    (hstop : ∀ o : Outline, Up o.cell → { o with pc := stop }.Halts bytes) :
    { o with pc := start }.Halts (Os.said text ++ bytes) := by
  obtain ⟨general, hgeneral, hsay⟩ := Leads.say (o := { o with pc := start }) hup hcode (by decide)
    hmessage
  let saying : Outline := { o with
    general
    condition := some .zero
    shown := o.shown ++ Os.said text }
  refine Halts.of_leads hsay (fun r hr => ?_) rfl rfl (hstop saying hup)
  exact hgeneral r (not_mem_of_kept r hr)

theorem halts_of_halt (hup : Up o.cell) :
    { o with pc := Os.entry .halt }.Halts (Os.said Os.haltMessage) := by
  obtain ⟨hlea, hldr, hbr, hldi, hwait, hsti, hadd, hloop, -⟩ := Os.placed_halt
  have hsay := halts_of_say (o := o) hup
    ⟨hlea, hldr, hbr, hldi, hwait, hsti, hadd, hloop, trivial⟩ Os.message_halt
    fun _ => halts_of_stop
  rwa [List.append_nil] at hsay

/-- The routine of the traps that have none goes over into that of `HALT`. -/
theorem halts_of_badTrap (hup : Up o.cell) : { o with pc := Os.badTrapEntry }.Halts
    (Os.said Os.badTrapMessage ++ Os.said Os.haltMessage) :=
  halts_of_say hup Os.placed_badTrap Os.message_badTrap fun _ => halts_of_halt

theorem halts_of_trap (hup : Up o.cell) (hport : o.pc ∉ DeviceReg.ports)
    (htrap : o.instr = .trap vector) (hvector : vector < 0x20 ∨ 0x24 < vector) :
    o.Halts (Os.farewell vector) := by
  have hentry := hup.words _ _ (Os.wordAt?_of_halting vector hvector)
  have htable : vector.setWidth 16 ∉ DeviceReg.ports :=
    Os.not_mem_ports (Os.wordAt?_of_halting vector hvector)
  have hcall := Leads.trap ⟨hport, htrap, trivial⟩ rfl htable hentry
  have hkept : ∀ r ∈ [3, 4, 5, 6], (Function.update o.general Reg.link (o.pc + 1)) r =
      o.general r := by
    intro r hr
    apply Function.update_of_ne
    rintro rfl
    exact absurd hr (by decide)
  have hhalts : (o.next.call (if vector = Service.halt.vector then Os.entry .halt
      else Os.badTrapEntry)).Halts (Os.farewell vector) := by
    unfold Os.farewell
    split
    · exact halts_of_halt (o := o.next.call (Os.entry .halt)) hup
    · exact halts_of_badTrap (o := o.next.call Os.badTrapEntry) hup
  exact hhalts.of_leads hcall hkept rfl (List.append_nil _).symm

/-- After the stop the routine starts over. -/
theorem halts_again (hup : Up o.cell) (hpc : o.pc = 0x281)
    (hcondition : ∃ w, o.condition = some (.ofValue w)) : o.Halts (Os.said Os.haltMessage) := by
  obtain ⟨w, hw⟩ := hcondition
  obtain ⟨-, -, -, -, -, -, -, -, -, -, -, -, hbr, -⟩ := Os.placed_halt
  have hback : o.Leads { o with pc := Os.entry .halt } := by
    have hhas : o.Has (.ref (.br 0b111) (Os.entry .halt)) := by
      rw [Has, hpc]
      exact hup.lies hbr
    exact .branch hhas (takes_always hw)
  exact Halts.of_leads hback (fun _ _ => rfl) rfl (List.append_nil _).symm (halts_of_halt hup)

end Outline

/-! ## Machines -/

/-- A word with the opcode of `TRAP` is one, whatever its other bits are. -/
theorem Word.instr_of_opcode {w : Word} (h : w.extractLsb' 12 4 = 0xF) :
    w.decode.instr = .trap (w.setWidth 8) := by
  have hop : (w.extractLsb' 12 4).toNat = 15 := congrArg BitVec.toNat h
  simp only [decode, instr, hop]

namespace Machine

variable {m : Machine} {o o' : Outline} {bytes : List Byte} {word : Word}

/-- Between `m` and `m'` the machine has shown something, and the clock has stopped. Of the general
registers, `R3` to `R6` are as they were; so is memory, but for the bit of the clock and what
belongs to the keyboard and the display. -/
structure Halts (m : Machine) (bytes : List Byte) (m' : Machine) : Prop where
  stopped : m'.isRunning = false
  shown : m'.shown = m.shown ++ bytes
  general : ∀ r ∈ [3, 4, 5, 6], m'.reg (.general r) = m.reg (.general r)
  clock : m'.store.read DeviceReg.mcr = Store.withReady (m.store.read DeviceReg.mcr) false
  memory : ∀ a, a ≠ DeviceReg.mcr → a ∉ DeviceReg.ports → m'.store.read a = m.store.read a

theorem At.shown (h : m.At o) : m.shown = o.shown := congrArg Outline.shown h.outline

theorem At.setClock {on : Bool} (h : m.At o) : (m.setClock on).At { o with
    cell := Function.update o.cell DeviceReg.mcr (Store.withReady (o.cell DeviceReg.mcr) on) } := by
  have hclock : m.store.read DeviceReg.mcr = o.cell DeviceReg.mcr := h.store_read (by decide)
  have hset : m.setClock on =
      m.write DeviceReg.mcr (Store.withReady (o.cell DeviceReg.mcr) on) := by
    rw [← hclock, write_eq, if_neg (by decide)]
    rfl
  refine ⟨?_, (Store.isReady_setReady_of_ne (by decide)).trans h.ready⟩
  rw [hset, outline_write (by decide), cell_write (by decide), if_neg (by decide), ← h.outline]
  rfl

/-- A machine goes along a path that ends with a stop, and its clock goes on as it did until
then. -/
theorem At.stops (h : m.At o) (ho : o.Stops o') :
    ∃ n, (m.steps n).At o' ∧ ∀ k < n, (m.steps k).isRunning = m.isRunning := by
  obtain ⟨last, hleads, hplain, rfl⟩ := ho
  obtain ⟨n, hn, hrunning⟩ := h.leads hleads
  exact ⟨n + 1, hn.step hplain, fun k hk => hrunning k (Nat.le_of_lt_succ hk)⟩

theorem At.halted {m' : Machine} (h : m.At o) (h' : m'.At o') (ho : o.Halted bytes o') :
    m.Halts bytes m' := by
  have hclock : o'.cell DeviceReg.mcr = Store.withReady (o.cell DeviceReg.mcr) false := by
    rw [ho.cell, Function.update_self]
  refine ⟨?_, ?_, fun r hr => ?_, ?_, fun a hmcr hport => ?_⟩
  · rw [h'.isRunning, hclock, Store.msb_withReady]
  · rw [h'.shown, h.shown, ho.shown]
  · rw [h'.general, h.general, ho.general r hr]
  · rw [h'.store_read (by decide), h.store_read (by decide), hclock]
  · rw [h'.store_read hport, h.store_read hport, ho.cell, Function.update_of_ne hmcr]

theorem At.halts (h : m.At o) (ho : o.Halts bytes) :
    ∃ n o', (m.steps n).At o' ∧ o.Halted bytes o' ∧ m.Halts bytes (m.steps n) ∧
      ∀ k < n, (m.steps k).isRunning = m.isRunning := by
  obtain ⟨o', hstops, hhalted⟩ := ho
  obtain ⟨n, hn, hrunning⟩ := h.stops hstops
  exact ⟨n, o', hn, hhalted, h.halted hn hhalted, hrunning⟩

/-- A trap stops the machine if its vector has no service that returns. If the clock is started
again, the machine says that it halts, and stops again. -/
theorem trap_halts (hos : Os.InMemory m.store.read) (hready : m.store.isReady DeviceReg.dsr)
    (hpc : UserSpace (m.reg .pc)) (hword : m.store.read (m.reg .pc) = word)
    (hop : word.extractLsb' 12 4 = 0xF)
    (hvector : word.setWidth 8 < 0x20#8 ∨ 0x24#8 < word.setWidth 8) :
    ∃ n, m.Halts (Os.farewell (word.setWidth 8)) (m.steps n) ∧
      (∀ k < n, (m.steps k).isRunning = m.isRunning) ∧
      let restarted := (m.steps n).setClock true
      ∃ n', restarted.Halts (Os.said Os.haltMessage) (restarted.steps n') ∧
        ∀ k < n', (restarted.steps k).isRunning = true := by
  have hat : m.At m.outline := ⟨rfl, hready⟩
  have hup : Up m.outline.cell := up_outline hos hready
  have htrap : m.outline.instr = .trap (word.setWidth 8) := by
    rw [instr_outline hpc.not_mem_ports, hword, Word.instr_of_opcode hop]
  obtain ⟨n, o, hn, hhalted, hhalts, hrunning⟩ :=
    hat.halts (Outline.halts_of_trap hup hpc.not_mem_ports htrap hvector)
  -- Stopping and starting the clock leaves the routine in memory and the program counter in it.
  have hup' : Up o.cell := hhalted.cell ▸ hup.setClock
  have hstarted : ((m.steps n).setClock true).At _ := hn.setClock
  obtain ⟨n', -, -, -, hhalts', hrunning'⟩ :=
    hstarted.halts (Outline.halts_again hup'.setClock hhalted.pc hhalted.condition)
  refine ⟨n, hhalts, hrunning, n', hhalts', fun k hk => ?_⟩
  rw [hrunning' k hk]
  exact Store.isReady_setReady_self

/-- Right after power-on, a program executes a trap word with bits that no instruction has. -/
theorem trap_halts_undefined :
    let m := (new {} Os.standard).onStore (·.write 0x3000 0xFE26)
    Os.InMemory m.store.read ∧ m.store.isReady DeviceReg.dsr = true ∧ UserSpace (m.reg .pc) ∧
      m.store.read (m.reg .pc) = 0xFE26 ∧
      ∃ n, m.Halts (Os.said Os.badTrapMessage ++ Os.said Os.haltMessage) (m.steps n) ∧
        (∀ k < n, (m.steps k).isRunning = m.isRunning) ∧
        let restarted := (m.steps n).setClock true
        ∃ n', restarted.Halts (Os.said Os.haltMessage) (restarted.steps n') ∧
          ∀ k < n', (restarted.steps k).isRunning = true := by
  have hpc : ∀ m : Machine, (m.onStore (·.write 0x3000 0xFE26)).reg .pc = m.reg .pc := fun _ => rfl
  intro m
  have hos : Os.InMemory m.store.read :=
    Os.inMemory_new.congr fun _ hne => Store.read_write.trans (if_neg (hne _ (by decide)))
  have hready : m.store.isReady DeviceReg.dsr = true :=
    (Store.isReady_write.trans (if_neg (by decide))).trans isReady_powerOn
  have hpc : m.reg .pc = 0x3000 := (hpc _).trans pc_powerOn
  have hspace : UserSpace (m.reg .pc) := by
    rw [hpc]
    decide
  have hword : m.store.read (m.reg .pc) = 0xFE26 := by
    rw [hpc]
    exact Store.read_write
  exact ⟨hos, hready, hspace, hword, trap_halts hos hready hspace hword (by decide) (by decide)⟩

end Machine

end Lc3
