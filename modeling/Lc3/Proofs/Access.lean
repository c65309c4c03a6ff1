import Lc3.Proofs.Frame

/-!
# What a run is made of

A step is a list of accesses to the store and the devices, one after the other, and so is a run.
What every single access keeps, a run keeps.
-/

namespace Lc3

/-- One access to a machine: the devices have their turn, memory is read or written through them, a
register is written, the clock is started or stopped, a character comes in. -/
inductive Access where
  | exchange
  | read (addr : Word)
  | write (addr value : Word)
  | setReg (r : Register) (value : Word)
  | setClock (on : Bool)
  | type (ch : Byte)
  deriving DecidableEq, Repr

/-- What happens to a machine while it runs: it executes an instruction, or it is accessed from
outside. -/
inductive Action where
  | step
  | access (a : Access)
  deriving DecidableEq, Repr

namespace Machine

variable {m m' : Machine} {addr : Word} {i : Instr}

/-! ## Accesses -/

/-- The machine after an access. -/
def access (m : Machine) : Access → Machine
  | .exchange => m.exchange
  | .read addr => (m.read addr).2
  | .write addr value => m.write addr value
  | .setReg r value => m.setReg r value
  | .setClock on => m.setClock on
  | .type ch => m.type ch

/-- The machine after some accesses. -/
def walk (m : Machine) (as : List Access) : Machine := as.foldl access m

theorem walk_cons {a : Access} {as : List Access} : m.walk (a :: as) = (m.access a).walk as := rfl

theorem walk_append {as bs : List Access} : m.walk (as ++ bs) = (m.walk as).walk bs :=
  List.foldl_append

/-- Reading gives the word in memory, and reading the keyboard's character takes it. -/
theorem read_eq : m.read addr = (m.store.read addr,
    if addr = DeviceReg.kbdr then m.onStore (·.setReady DeviceReg.kbsr false) else m) := by
  unfold read Devices.read Keyboard.read Display.read
  have hne : DeviceReg.kbdr ≠ DeviceReg.kbsr := by decide
  by_cases hkbdr : addr = DeviceReg.kbdr
  · subst hkbdr
    simp [hne, onStore]
  · by_cases hkbsr : addr = DeviceReg.kbsr
    · subst hkbsr
      simp [hne.symm]
    · by_cases hd : addr = DeviceReg.dsr ∨ addr = DeviceReg.ddr <;> simp [hkbdr, hkbsr, hd]

/-- Writing puts the word into memory, and writing the display's character makes it not ready. -/
theorem write_eq {value : Word} : m.write addr value =
    if addr = DeviceReg.ddr then
      m.onStore fun s => (s.write addr value).setReady DeviceReg.dsr false
    else m.onStore (·.write addr value) := by
  unfold write Devices.written Keyboard.written Display.written
  by_cases hddr : addr = DeviceReg.ddr
  · subst hddr
    have hne : ¬ (DeviceReg.ddr = DeviceReg.kbsr ∨ DeviceReg.ddr = DeviceReg.kbdr) := by decide
    simp [hne]
  · by_cases hk : addr = DeviceReg.kbsr ∨ addr = DeviceReg.kbdr
    · simp [hk, hddr]
    · by_cases hdsr : addr = DeviceReg.dsr
      · subst hdsr
        simp [hk, hddr]
      · simp [hk, hddr, hdsr]

/-- Two machines differ at most in what they count, how they start, and what they start with. -/
structure Alike (m m' : Machine) : Prop where
  store : m.store = m'.store
  devices : m.devices = m'.devices

theorem Alike.refl (m : Machine) : m.Alike m := ⟨rfl, rfl⟩

theorem Alike.trans {m₁ m₂ m₃ : Machine} (h : m₁.Alike m₂) (h' : m₂.Alike m₃) : m₁.Alike m₃ :=
  ⟨h.store.trans h'.store, h.devices.trans h'.devices⟩

theorem Alike.access (h : m.Alike m') (a : Access) : (m.access a).Alike (m'.access a) := by
  cases a with
  | read addr =>
      simp only [Machine.access, read, h.store]
      split
      · exact ⟨rfl, h.devices⟩
      · exact h
  | _ =>
      constructor <;>
        simp only [Machine.access, exchange, write, setReg, setClock, type, onStore, h.store,
          h.devices]

theorem Alike.walk (h : m.Alike m') (as : List Access) : (m.walk as).Alike (m'.walk as) := by
  induction as generalizing m m' with
  | nil => exact h
  | cons a as ih => exact ih (h.access a)

/-! ## The accesses of a step -/

/-- The accesses by which a result gets into a register, and its sign into the status register. -/
def resultAccesses (m : Machine) (dr : Reg) (value : Word) : List Access :=
  [.setReg (.general dr) value, .setReg .psr (Psr.withConditionOf m.store.psr value)]

/-- The accesses by which a routine is called. -/
def callAccesses (m : Machine) (target : Word) : List Access :=
  [.setReg (.general Reg.link) m.store.pc, .setReg .pc target]

/-- The accesses of executing an instruction that works on `addr`. -/
def accesses (m : Machine) (addr : Word) : Instr → List Access
  | .br mask _ => if m.takes mask then [.setReg .pc addr] else []
  | .add dr sr src => m.resultAccesses dr (m.reg (.general sr) + m.source src)
  | .and dr sr src => m.resultAccesses dr (m.reg (.general sr) &&& m.source src)
  | .not dr sr => m.resultAccesses dr (~~~ m.reg (.general sr))
  | .ld dr _ | .ldr dr _ _ =>
    let loaded := m.read addr
    .read addr :: loaded.2.resultAccesses dr loaded.1
  | .ldi dr _ =>
    let pointer := m.read addr
    let loaded := pointer.2.read pointer.1
    .read addr :: .read pointer.1 :: loaded.2.resultAccesses dr loaded.1
  | .lea dr _ => m.resultAccesses dr addr
  | .st sr _ | .str sr _ _ => [.write addr (m.reg (.general sr))]
  | .sti sr _ =>
    let pointer := m.read addr
    [.read addr, .write pointer.1 (pointer.2.reg (.general sr))]
  | .jsr (.imm _) => m.callAccesses addr
  | .jsr (.reg base) => m.callAccesses (m.reg (.general base))
  | .jmp base => [.setReg .pc (m.reg (.general base))]
  | .trap _ =>
    let routine := m.read addr
    .read addr :: routine.2.callAccesses routine.1
  | .rti =>
    let sp := m.reg (.general Reg.stack)
    let pc := m.read sp
    let psr := pc.2.read (sp + 1)
    [.read sp, .read (sp + 1), .setReg (.general Reg.stack) (sp + 2), .setReg .pc pc.1,
      .setReg .psr psr.1]
  | .reserved => []

/-- The machine that has fetched its next instruction. -/
def fetched (m : Machine) : Machine := m.exchange.fetch.2

/-- The machine that has executed its next instruction, before the devices have their turn. -/
def executed (m : Machine) : Machine :=
  m.fetched.execute (m.fetched.address m.step.1.instr.mode) m.step.1.instr

theorem step_eq :
    m.step.2 = { m.executed with stepCount := m.executed.stepCount + 1 }.exchange := rfl

/-- The accesses of executing one instruction, with the turns of the devices before and after. -/
def stepAccesses (m : Machine) : List Access :=
  .exchange :: .setReg .ir m.step.1.raw :: .setReg .pc (m.exchange.store.pc + 1) ::
    (m.fetched.accesses (m.fetched.address m.step.1.instr.mode) m.step.1.instr ++ [.exchange])

theorem execute_alike : (m.execute addr i).Alike (m.walk (m.accesses addr i)) := by
  cases i with
  | br mask off =>
      simp only [execute, accesses]
      split <;> exact ⟨rfl, rfl⟩
  | jsr target => cases target <;> exact ⟨rfl, rfl⟩
  | jmp base =>
      simp only [execute, jump]
      split <;> exact ⟨rfl, rfl⟩
  | _ => exact ⟨rfl, rfl⟩

/-- A step is its accesses, apart from counting. -/
theorem step_alike : m.step.2.Alike (m.walk m.stepAccesses) := by
  have he : m.executed.Alike (m.fetched.walk
      (m.fetched.accesses (m.fetched.address m.step.1.instr.mode) m.step.1.instr)) := execute_alike
  have hc : Alike { m.executed with stepCount := m.executed.stepCount + 1 } m.executed := ⟨rfl, rfl⟩
  have := (hc.trans he).access .exchange
  rw [step_eq, stepAccesses, walk_cons, walk_cons, walk_cons, walk_append]
  exact this

/-- The machine after some steps. -/
def steps (m : Machine) : Nat → Machine
  | 0 => m
  | n + 1 => (m.steps n).step.2

/-! ## The accesses of a run -/

/-- The machine after an action. -/
def act (m : Machine) : Action → Machine
  | .step => m.step.2
  | .access a => m.access a

/-- The machine after some actions. -/
def run (m : Machine) (acts : List Action) : Machine := acts.foldl act m

/-- All accesses of a run, those of its steps among them. -/
def trail (m : Machine) : List Action → List Access
  | [] => []
  | .step :: acts => m.stepAccesses ++ m.step.2.trail acts
  | .access a :: acts => a :: (m.access a).trail acts

theorem run_alike {acts : List Action} : (m.run acts).Alike (m.walk (m.trail acts)) := by
  induction acts generalizing m with
  | nil => exact .refl m
  | cons act acts ih =>
      cases act with
      | step =>
          rw [trail, walk_append]
          exact ih.trans (step_alike.walk _)
      | access a => exact ih

end Machine

/-! ## Everything that can be done to a machine -/

/-- A change of the store from outside, which does not wake the devices. -/
inductive Edit where
  | write (addr value : Word)
  | writeBlock (start : Word) (words : List Word)
  | setReg (r : Register) (value : Word)
  | setLabel (name : String) (addr : Word)
  | unsetAddr (addr : Word)
  | unsetName (name : String)
  | queue (ch : Byte)
  | dropInput
  | output (ch : Byte)
  | subscribe
  | reset (fill : Fill)

namespace Store

/-- The store with one more subscriber. -/
def subscribe (s : Store) : Store := { s with observer := s.observer.subscribe }

/-- The store after a change. -/
def edit (s : Store) : Edit → Store
  | .write addr value => s.write addr value
  | .writeBlock start words => s.writeBlock start words
  | .setReg r value => s.setReg r value
  | .setLabel name addr => s.setLabel name addr
  | .unsetAddr addr => s.unsetAddr addr
  | .unsetName name => s.unsetName name
  | .queue ch => s.queue ch
  | .dropInput => s.dropInput
  | .output ch => s.output ch
  | .subscribe => s.subscribe
  | .reset fill => s.reset fill

end Store

/-- Everything that can be done to a machine. -/
inductive Operation where
  | act (a : Action)
  | load (o : ObjectFile)
  | reset
  | edit (e : Edit)
  | setFlags (flags : Flags)

namespace Machine

/-- The machine after an operation. -/
def operate (m : Machine) : Operation → Machine
  | .act a => m.act a
  | .load o => m.load o
  | .reset => m.reset
  | .edit e => m.onStore (·.edit e)
  | .setFlags flags => { m with flags }

/-- The machine after some operations. -/
def operateAll (m : Machine) (ops : List Operation) : Machine := ops.foldl operate m

end Machine

end Lc3
