import Lc3.Proofs.Status

/-!
# What a step changes

An instruction names what it changes: the register of a result, the link register, a cell. Main
statement: a step changes what its instruction names and the registers of the devices, and nothing
else.
-/

namespace Lc3

/-! ## What instructions name -/

namespace Instr

/-- Whether an instruction calls a routine, which returns to the next instruction. -/
def isCall : Instr → Bool
  | .jsr _ | .trap _ => true
  | _ => false

/-- The calls that have not returned, after an instruction. -/
def depthAfter (depth : Nat) : Instr → Nat
  | .jsr _ | .trap _ => depth + 1
  | .jmp base => if base = Reg.link then depth - 1 else depth
  | _ => depth

/-- The general register that an instruction writes. -/
def written? : Instr → Option Reg
  | .jsr _ | .trap _ => some Reg.link
  | .rti => some Reg.stack
  | i => i.dest?

end Instr

namespace Machine

variable {m m' : Machine} {a : Access} {as : List Access} {addr v : Word} {i : Instr}
  {r : Register}

/-- Whether an instruction goes on elsewhere than at the next one. -/
def jumps (m : Machine) : Instr → Bool
  | .br mask _ => m.takes mask
  | .jsr _ | .jmp _ | .trap _ | .rti => true
  | _ => false

/-- The cell that an instruction stores into. A pointer is read when the devices have had their
turn. -/
def target? (m : Machine) : Instr → Option Word
  | .st _ off => some (m.reg .pc + 1 + off.signExtend 16)
  | .str _ base off => some (m.reg (.general base) + off.signExtend 16)
  | .sti _ off => some (m.exchange.store.read (m.reg .pc + 1 + off.signExtend 16))
  | _ => none

/-- The registers that executing an instruction writes. -/
def Writes (m : Machine) (i : Instr) : Register → Prop
  | .general r => i.written? = some r
  | .pc => m.jumps i = true
  | .ir => False
  | .psr => i = .rti ∨ i.dest? ≠ none

/-! ## Accesses -/

/-- What no access changes, a list of accesses does not change. -/
theorem walk_keeps {α : Type} {f : Machine → α} (h : ∀ a ∈ as, ∀ m, f (m.access a) = f m) :
    f (m.walk as) = f m := by
  induction as generalizing m with
  | nil => rfl
  | cons a as ih =>
      rw [walk_cons, ih fun b hb => h b (List.mem_cons_of_mem a hb)]
      exact h a List.mem_cons_self m

theorem labels_exchange : m.exchange.store.labels = m.store.labels := by
  have hk : (m.devices.keyboard.update m.store).2.labels = m.store.labels := by
    unfold Keyboard.update
    split
    · rfl
    · split <;> rfl
  rw [exchange_store]
  unfold Display.update
  split <;> exact hk

/-- In its turn the keyboard takes at most one character. -/
theorem input_exchange : ∃ n ≤ 1, m.exchange.store.input = m.store.input.drop n := by
  obtain ⟨-, hsame, -⟩ | ⟨ch, -, hdelivers, -⟩ := exchange_cases m
  · exact ⟨0, Nat.zero_le 1, hsame.input⟩
  · exact ⟨1, le_rfl, by rw [hdelivers.input, List.drop_one, List.tail_cons]⟩

/-! ## Executing -/

/-- What executing an instruction consists of: it reads memory, stores a word if it is a store, and
writes the registers that it names. -/
def Allows (m : Machine) (addr : Word) (i : Instr) : Access → Prop
  | .read _ => True
  | .write x v => m.storeOf addr i = some (x, v)
  | .setReg r _ => m.Writes i r
  | _ => False

theorem allows_result {dr : Reg} (hi : i.dest? = some dr) (hw : i.written? = i.dest?) :
    ∀ m', ∀ a ∈ resultAccesses m' dr v, m.Allows addr i a := by
  intro m'
  refine List.forall_mem_cons.2 ⟨hw.trans hi, List.forall_mem_singleton.2 (.inr ?_)⟩
  rw [hi]
  exact Option.some_ne_none dr

theorem allows_call (hw : i.written? = some Reg.link) (hj : m.jumps i = true) :
    ∀ m', ∀ a ∈ callAccesses m' v, m.Allows addr i a :=
  fun _ => List.forall_mem_cons.2 ⟨hw, List.forall_mem_singleton.2 hj⟩

theorem allows_accesses : ∀ a ∈ m.accesses addr i, m.Allows addr i a := by
  cases i with
  | br mask off =>
      simp only [accesses]
      split
      case isTrue htakes => exact List.forall_mem_singleton.2 htakes
      case isFalse => exact List.forall_mem_nil _
  | add | and | not | lea => exact allows_result rfl rfl _
  | ld | ldr => exact List.forall_mem_cons.2 ⟨trivial, allows_result rfl rfl _⟩
  | ldi =>
      exact List.forall_mem_cons.2
        ⟨trivial, List.forall_mem_cons.2 ⟨trivial, allows_result rfl rfl _⟩⟩
  | st | str => exact List.forall_mem_singleton.2 rfl
  | sti sr off =>
      refine List.forall_mem_cons.2 ⟨trivial, List.forall_mem_singleton.2 ?_⟩
      simp only [Allows, storeOf, reg_read]
  | jsr target => cases target <;> exact allows_call rfl rfl _
  | jmp => exact List.forall_mem_singleton.2 rfl
  | trap => exact List.forall_mem_cons.2 ⟨trivial, allows_call rfl rfl _⟩
  | rti =>
      simp only [accesses, List.forall_mem_cons]
      exact ⟨trivial, trivial, rfl, rfl, .inl rfl, List.forall_mem_nil _⟩
  | reserved => exact List.forall_mem_nil _

/-- What none of these accesses changes, executing the instruction does not change. -/
theorem execute_keeps {α : Type} {f : Store → α}
    (h : ∀ a, m.Allows addr i a → ∀ m', f (access m' a).store = f m'.store) :
    f (m.execute addr i).store = f m.store := by
  rw [execute_alike.store]
  exact walk_keeps (f := fun m => f m.store) fun a ha => h a (allows_accesses a ha)

theorem reg_execute (hr : ¬ m.Writes i r) : (m.execute addr i).reg r = m.reg r := by
  refine execute_keeps (f := fun s => s.reg r) fun a ha m' => ?_
  cases a with
  | read x => exact reg_read
  | write x value => exact reg_write
  | setReg r' value =>
      refine reg_setReg.trans (if_neg ?_)
      rintro rfl
      exact hr ha
  | _ => exact ha.elim

theorem read_execute {x : Word} (hx : x ∉ DeviceReg.updated)
    (hs : ∀ value, m.storeOf addr i ≠ some (x, value)) :
    (m.execute addr i).store.read x = m.store.read x := by
  refine execute_keeps (f := fun s => s.read x) fun a ha m' => ?_
  simp only [DeviceReg.updated, List.mem_cons, List.not_mem_nil, or_false, not_or] at hx
  cases a with
  | read y =>
      rw [access, read_eq]
      split
      · exact Store.read_setReady_of_ne (Ne.symm hx.1)
      · rfl
  | write y value =>
      have hy : y ≠ x := by
        rintro rfl
        exact hs value ha
      rw [access, write_eq]
      split
      · refine (Store.read_setReady_of_ne (Ne.symm hx.2.2)).trans ?_
        exact Store.read_write.trans (if_neg hy)
      · exact Store.read_write.trans (if_neg hy)
  | setReg r' value => exact Store.read_setReg
  | _ => exact ha.elim

theorem labels_input_execute : (m.execute addr i).store.labels = m.store.labels ∧
    (m.execute addr i).store.input = m.store.input := by
  rw [← Prod.mk.injEq]
  refine execute_keeps (f := fun s => (s.labels, s.input)) fun a ha m' => ?_
  cases a with
  | read x =>
      rw [access, read_eq]
      split <;> rfl
  | write x value =>
      rw [access, write_eq]
      split <;> rfl
  | setReg r' value => cases r' <;> rfl
  | _ => exact ha.elim

theorem counts_execute : (m.execute addr i).stepCount = m.stepCount ∧
    (m.execute addr i).callDepth = i.depthAfter m.callDepth := by
  cases i with
  | br mask off =>
      simp only [execute]
      split <;> exact ⟨rfl, rfl⟩
  | ld | ldr | sti | trap =>
      simp only [execute, read_eq]
      split <;> exact ⟨rfl, rfl⟩
  | ldi =>
      simp only [execute, read_eq]
      split <;> split <;> exact ⟨rfl, rfl⟩
  | jsr target => cases target <;> exact ⟨rfl, rfl⟩
  | jmp base =>
      simp only [execute, jump, Instr.depthAfter]
      split <;> exact ⟨rfl, rfl⟩
  | rti =>
      simp only [execute, returnFromInterrupt, read_eq, setReg, onStore]
      split <;> split <;> exact ⟨rfl, rfl⟩
  | _ => exact ⟨rfl, rfl⟩

/-! ## Steps -/

theorem pc_fetched : m.fetched.reg .pc = m.reg .pc + 1 :=
  congrArg (· + 1) (reg_exchange (m := m) (r := .pc))

theorem reg_fetched (hpc : r ≠ .pc) (hir : r ≠ .ir) : m.fetched.reg r = m.reg r := by
  simp [fetched, fetch, hpc.symm, hir.symm]

theorem read_fetched {x : Word} : m.fetched.store.read x = m.exchange.store.read x :=
  Store.read_setReg.trans Store.read_setReg

theorem reg_step : m.step.2.reg r = m.executed.reg r := by
  rw [step_eq, reg_exchange]
  rfl

theorem reg_step_of_not_writes (hw : ¬ m.fetched.Writes m.step.1.instr r) :
    m.step.2.reg r = m.fetched.reg r :=
  reg_step.trans (reg_execute hw)

theorem takes_fetched {mask : BitVec 8} : m.fetched.takes mask = m.takes mask := by
  have hpsr : m.fetched.store.psr = m.store.psr := reg_fetched (r := .psr) (by simp) (by simp)
  rw [takes, takes, hpsr]

theorem jumps_fetched : m.fetched.jumps i = m.jumps i := by
  cases i with
  | br mask off => exact takes_fetched
  | _ => rfl

/-- The cell that a step stores into is the one that its instruction names. -/
theorem target?_of_storeOf {x v : Word}
    (hs : m.fetched.storeOf (m.fetched.address i.mode) i = some (x, v)) : m.target? i = some x := by
  have hpc : m.fetched.store.pc = m.reg .pc + 1 := pc_fetched
  cases i with
  | st sr off =>
      cases hs
      simp only [target?, Instr.mode, address, hpc]
  | str sr base off =>
      cases hs
      have hbase : m.fetched.reg (.general base) = m.reg (.general base) :=
        reg_fetched (by simp) (by simp)
      simp only [target?, Instr.mode, address, hbase]
  | sti sr off =>
      cases hs
      simp only [target?, Instr.mode, address, hpc, read_eq, read_fetched]
  | _ => cases hs

theorem link_execute (hi : i.isCall = true) :
    (m.execute addr i).reg (.general Reg.link) = m.reg .pc := by
  cases i with
  | jsr target => cases target <;> exact link_call
  | trap vector => exact link_call.trans reg_read
  | _ => cases hi

theorem stack_execute : (m.execute addr .rti).reg (.general Reg.stack) =
    m.reg (.general Reg.stack) + 2 := by
  simp [execute, returnFromInterrupt]

theorem labels_step : m.step.2.store.labels = m.store.labels := by
  have hfetched : m.fetched.store.labels = m.exchange.store.labels := rfl
  rw [step_eq, labels_exchange]
  exact labels_input_execute.1.trans (hfetched.trans labels_exchange)

/-- A step has two turns of the keyboard. -/
theorem input_step : ∃ n ≤ 2, m.step.2.store.input = m.store.input.drop n := by
  obtain ⟨n, hn, hbefore⟩ := input_exchange (m := m)
  obtain ⟨n', hn', hafter⟩ :=
    input_exchange (m := { m.executed with stepCount := m.executed.stepCount + 1 })
  have hexecuted : m.executed.store.input = m.exchange.store.input := labels_input_execute.2
  refine ⟨n + n', by omega, ?_⟩
  rw [step_eq, hafter, ← List.drop_drop, ← hbefore, ← hexecuted]

theorem read_step {x : Word} (hx : x ∉ DeviceReg.updated) (ht : m.target? m.step.1.instr ≠ some x) :
    m.step.2.store.read x = m.store.read x := by
  have hexecuted : m.executed.store.read x = m.fetched.store.read x :=
    read_execute hx fun value hs => ht (target?_of_storeOf hs)
  rw [step_eq, read_exchange hx]
  exact hexecuted.trans (read_fetched.trans (read_exchange hx))

/-! ## Main statement -/

/-- From `m` to `m'` an instruction was executed, which was decoded as `d`, and only what it names
was changed. -/
structure Effects (m : Machine) (d : Decoded) (m' : Machine) : Prop where
  decoded : d = d.raw.decode
  fetched : d.raw = m.exchange.store.read (m.reg .pc)
  ofMemory : m.reg .pc ∉ DeviceReg.updated → d.raw = m.store.read (m.reg .pc)
  ir : m'.reg .ir = d.raw
  stepCount : m'.stepCount = m.stepCount + 1
  callDepth : m'.callDepth = d.instr.depthAfter m.callDepth
  general : ∀ r, d.instr.written? ≠ some r → m'.reg (.general r) = m.reg (.general r)
  link : d.instr.isCall = true → m'.reg (.general Reg.link) = m.reg .pc + 1
  stack : d.instr = .rti → m'.reg (.general Reg.stack) = m.reg (.general Reg.stack) + 2
  next : m.jumps d.instr = false → m'.reg .pc = m.reg .pc + 1
  -- For the link register as well: the target is read before the way back is written.
  callReg : ∀ base, d.instr = .jsr (.reg base) → m'.reg .pc = m.reg (.general base)
  mode : d.instr ≠ .rti → (m'.reg .psr).extractLsb' 3 13 = (m.reg .psr).extractLsb' 3 13
  condition : d.instr ≠ .rti → d.instr.dest? = none → m'.reg .psr = m.reg .psr
  memory : ∀ x, x ∉ DeviceReg.updated → m.target? d.instr ≠ some x →
    m'.store.read x = m.store.read x
  labels : m'.store.labels = m.store.labels
  input : ∃ n ≤ 2, m'.store.input = m.store.input.drop n

theorem step_effects (m : Machine) : m.Effects m.step.1 m.step.2 where
  decoded := rfl
  fetched := by
    have hpc : m.exchange.store.pc = m.reg .pc := reg_exchange (r := .pc)
    rw [← hpc]
    rfl
  ofMemory := fun hpc => (fetch_exchange rfl hpc).1
  ir := by
    have hir : m.fetched.reg .ir = m.step.1.raw := by simp [Machine.fetched, fetch]; rfl
    exact (reg_step_of_not_writes id).trans hir
  stepCount := congrArg (· + 1) counts_execute.1
  callDepth := counts_execute.2
  general := fun r hr =>
    (reg_step_of_not_writes (r := .general r) hr).trans (reg_fetched (by simp) (by simp))
  link := fun hi => reg_step.trans ((link_execute hi).trans pc_fetched)
  stack := by
    intro hi
    have hstack : m.fetched.reg (.general Reg.stack) = m.reg (.general Reg.stack) :=
      reg_fetched (by simp) (by simp)
    rw [reg_step, executed, hi, stack_execute, hstack]
  next := by
    intro hj
    refine (reg_step_of_not_writes (r := .pc) fun hw => ?_).trans pc_fetched
    exact Bool.false_ne_true (hj.symm.trans (jumps_fetched.symm.trans hw))
  callReg := by
    intro base hi
    have hbase : m.fetched.reg (.general base) = m.reg (.general base) :=
      reg_fetched (by simp) (by simp)
    rw [reg_step, executed, hi, execute, pc_call, hbase]
  mode := by
    intro hi
    rw [psr_step hi]
    cases m.result? with
    | none => rfl
    | some v => exact Psr.mode_withConditionOf
  condition := by
    intro hi hdest
    rw [psr_step hi, result?, hdest]
    rfl
  memory := fun x hx ht => read_step hx ht
  labels := labels_step
  input := input_step

end Machine

end Lc3
