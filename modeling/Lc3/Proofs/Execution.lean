import Lc3.Proofs.Frame
import Lc3.Proofs.Passes
import Lc3.Proofs.Resolution

/-!
# The machine executes what was written

Main statement: at an instruction of an assembled program, the machine decodes a strictly valid word
of what the instruction means, and a label among the operands leads it to the address of the label.
-/

namespace Lc3

variable {source : String} {p : Program} {o : ObjectFile} {s : Stmt} {i : Nat} {si : SourceInstr}

/-! ## From the source to the words -/

namespace ObjectFile

theorem assemble_eq_ok (hp : Program.read source = .ok p) :
    assemble source = .ok o ↔ ofProgram p = .ok o := by
  simp [assemble, hp, Bind.bind, Except.bind]

theorem ofProgram_eq_ok : ofProgram p = .ok o ↔
    ∃ layout, Layout.ofStmts p.orig p.stmts = .ok layout ∧
      ofStmts p.orig p.stmts layout.labels = .ok o := by
  simp only [ofProgram, bind_eq_ok]

theorem word_of_instr (ho : ofProgram p = .ok o) (hs : (Stmt.body p.stmts)[i]? = some s)
    (hc : s.command = some (.instr si)) :
    ∃ instr, si.resolve o.labels (p.orig.toNat + Stmt.offset p.stmts i + 1) = .ok instr ∧
      o.words[Stmt.offset p.stmts i]? = some instr.encode ∧
        p.orig.toNat + Stmt.offset p.stmts i < memorySize := by
  obtain ⟨layout, hl, hw⟩ := ofProgram_eq_ok.1 ho
  obtain ⟨pieces, hp, rfl, hlen⟩ := exists_emission hl hw
  have hend := Layout.end_le_of_ofStmts hl
  obtain ⟨ws, hws, hget⟩ := hp.exists_words hs
  simp only [Stmt.words, hc, Command.words] at hws
  cases hr : si.resolve layout.labels (p.orig.toNat + Stmt.offset p.stmts i + 1) with
  | error e => simp [hr, Except.map, Except.mapError] at hws
  | ok instr =>
      simp only [hr, Except.map, Except.mapError, Except.ok.injEq] at hws
      subst hws
      have hword : pieces.flatten[Stmt.offset p.stmts i]? = some instr.encode := hget 0 (by simp)
      obtain ⟨hlt, -⟩ := List.getElem?_eq_some_iff.1 hword
      exact ⟨instr, rfl, hword, by omega⟩

end ObjectFile

theorem Program.mask_lt_of_read (hp : Program.read source = .ok p) (hs : s ∈ p.stmts)
    {mask : BitVec 8} {t : Target 9} (hc : s.command = some (.instr (.br mask t))) :
    mask.toNat < 8 := by
  obtain ⟨lines, origin, -, -, hr, -⟩ := Program.read_eq_ok.1 hp
  obtain ⟨l, -, hl⟩ := Stmt.exists_line hr hs
  obtain ⟨first, ops, -, hcmd⟩ := Stmt.exists_pieces hl hc
  obtain ⟨m, si, -, hi, heq⟩ | ⟨_, _, -, -, heq⟩ := Command.read_eq_ok.1 hcmd
  · cases heq
    obtain ⟨b, rfl⟩ := SourceInstr.mask_of_read hi
    exact b.mask_lt
  · cases heq

/-! ## From the words to the machine -/

/-- What an instruction does with the address of its label, from the machine `m` that has fetched it
to the machine `m'` that has executed it. -/
def SourceInstr.Uses (addr : Word) (m m' : Machine) : SourceInstr → Prop
  | .lea dr _ => m'.reg (.general dr) = addr
  | .ld dr _ => m'.reg (.general dr) = (m.read addr).1
  | .ldi dr _ => m'.reg (.general dr) = ((m.read addr).2.read (m.read addr).1).1
  | .st sr _ => m'.store.read addr = m.reg (.general sr)
  | .sti sr _ => m'.store.read (m.read addr).1 = m.reg (.general sr)
  | .jsr _ => m'.reg .pc = addr ∧ m'.reg (.general Reg.link) = m.reg .pc
  | .br mask _ => m.takes mask = true → m'.reg .pc = addr
  | _ => True

namespace Machine

variable {m : Machine} {labels : LabelTable} {a addr : Word} {instr : Instr}

theorem cycle_of_decode {d : Decoded} (h : m.fetch.1.decode = d) :
    ∃ n, m.cycle = (d, { m.fetch.2.execute (m.fetch.2.address d.instr.mode) d.instr with
      stepCount := n }) := by
  subst h
  exact ⟨_, rfl⟩

theorem step_of_cycle {d : Decoded} {after : Machine} (h : m.exchange.cycle = (d, after)) :
    m.step = (d, after.exchange) := by
  simp only [step, h]

theorem uses_execute (h : si.Means labels a instr) : si.Uses addr m (m.execute addr instr) := by
  cases h with
  | lea | ld | ldi => simp [SourceInstr.Uses, execute]
  | st => exact read_write_self
  | sti =>
      simp only [SourceInstr.Uses, execute]
      rw [read_write_self, reg_read]
  | jsr => exact ⟨pc_call, link_call⟩
  | br =>
      intro ht
      simp [execute, ht]
  | _ => trivial

theorem uses_counted {m' : Machine} {n : Nat} (h : si.Uses addr m m') :
    si.Uses addr m { m' with stepCount := n } := by
  cases si <;> exact h

theorem fetch_exchange (hpc : m.reg .pc = a) (hdev : a ∉ DeviceReg.updated) :
    m.exchange.fetch.1 = m.store.read a ∧ m.exchange.fetch.2.store.pc = a + 1 := by
  constructor
  · change m.exchange.store.read (m.exchange.reg .pc) = _
    rw [reg_exchange, hpc, read_exchange hdev]
  · change ((m.exchange.setReg .ir _).setReg .pc (m.exchange.reg .pc + 1)).reg .pc = _
    simp [hpc]

/-- At an instruction of an assembled program, wherever it lies, the machine decodes what the
instruction means, and finds and uses the address that its label has in the symbol table. -/
theorem step_of_assemble (hp : Program.read source = .ok p)
    (ho : ObjectFile.assemble source = .ok o) (hs : (Stmt.body p.stmts)[i]? = some s)
    (hc : s.command = some (.instr si))
    (ha : a = BitVec.ofNat 16 (p.orig.toNat + Stmt.offset p.stmts i)) (hpc : m.reg .pc = a)
    (hword : o.words[Stmt.offset p.stmts i]? = some (m.store.read a))
    (hdev : a ∉ DeviceReg.updated) :
    ∃ instr after, m.step = (⟨m.store.read a, instr, true⟩, after.exchange) ∧
      si.Means o.labels a instr ∧
      ∀ l, si.label? = some l → ∃ addr, o.labels.addrOf? l.name = some addr ∧
        m.exchange.fetch.2.address instr.mode = addr ∧
          si.Uses addr m.exchange.fetch.2 after := by
  obtain ⟨instr, hr, hw, hlt⟩ :=
    ObjectFile.word_of_instr ((ObjectFile.assemble_eq_ok hp).1 ho) hs hc
  have htoNat : p.orig.toNat + Stmt.offset p.stmts i = a.toNat := by
    rw [ha, BitVec.toNat_ofNat]
    exact (Nat.mod_eq_of_lt hlt).symm
  rw [htoNat] at hr
  have hmeans := SourceInstr.means_of_resolve hr
  have hmask : ∀ mask t, si = .br mask t → mask.toNat < 8 := by
    rintro mask t rfl
    have hmem : s ∈ p.stmts := (List.takeWhile_prefix _).subset (List.mem_of_getElem? hs)
    exact Program.mask_lt_of_read hp hmem hc
  have hdec : (m.store.read a).decode = ⟨m.store.read a, instr, true⟩ := by
    have henc : instr.encode = m.store.read a := Option.some.inj (hw.symm.trans hword)
    rw [← henc, Word.decode_encode (SourceInstr.hasWord_of_means hmeans hmask)]
  obtain ⟨hfetch, hnext⟩ := fetch_exchange hpc hdev
  rw [← hfetch] at hdec ⊢
  obtain ⟨n, hcycle⟩ := cycle_of_decode hdec
  refine ⟨instr, _, step_of_cycle hcycle, hmeans, fun l hl => ?_⟩
  obtain ⟨off, hmode, haddr⟩ := SourceInstr.mode_of_means hmeans hl
  have heff : m.exchange.fetch.2.address instr.mode = a + 1 + off := by
    rw [hmode, address, hnext]
  exact ⟨_, haddr, heff, uses_counted (heff ▸ uses_execute hmeans)⟩

/-- At the last address of memory, with a label on the way back over the end. -/
theorem step_of_assemble_wrap :
    let source := ".ORIG xFFFF\nX LEA R3, X\n.END"
    let p : Program := ⟨0xFFFF,
      [⟨some ⟨"X", ⟨0, 1⟩⟩, some (.instr (.lea 3 (.label ⟨"X", ⟨10, 11⟩⟩))), 2⟩,
       ⟨none, some (.directive .finish), 3⟩]⟩
    let o : ObjectFile := ⟨0xFFFF, [0xE7FF], .ofList [("X", 0xFFFF)]⟩
    let store : Store :=
      { (Store.new (.known 0)).write 0xFFFF 0xE7FF with pc := 0xFFFF }
    let m : Machine :=
      { store, devices := .new, callDepth := 0, stepCount := 0, flags := {}, os := ⟨0, [], .empty⟩ }
    Program.read source = .ok p ∧ ObjectFile.assemble source = .ok o ∧
      ∃ (instr : Instr) (after : Machine), m.step = (⟨0xE7FF, instr, true⟩, after.exchange) ∧
        after.reg (.general 3) = 0xFFFF := by
  intro source p o store m
  have hp : Program.read source = .ok p := by decide
  have ho : ObjectFile.assemble source = .ok o := by decide
  have hread : m.store.read 0xFFFF = 0xE7FF := Bank.get_set_self _ _ _
  obtain ⟨instr, after, hstep, -, hlabel⟩ := step_of_assemble (m := m) (a := 0xFFFF) (i := 0)
    hp ho rfl rfl rfl rfl (by rw [hread]; rfl) (by decide)
  obtain ⟨addr, haddr, -, huses⟩ := hlabel _ rfl
  have hX : o.labels.addrOf? "X" = some 0xFFFF := by decide
  rw [hX] at haddr
  cases haddr
  exact ⟨hp, ho, instr, after, by rw [← hread]; exact hstep, huses⟩

end Machine

end Lc3
