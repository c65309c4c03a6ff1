import Lc3.Proofs.Codec
import Lc3.Proofs.Execution
import Lc3.Proofs.Outline

/-!
# The status along a run

The condition codes belong to the last result. Main statement: as long as nothing else writes the
status, it is that of power-on with the condition of the last result that an instruction put into a
register, whatever else is done to the machine. So of two branches with opposite masks exactly one
is taken.
-/

namespace Lc3

/-! ## Conditions -/

namespace Condition

variable {c : Condition}

theorem existsUnique_bit : ∃! i : Fin 3, c.bits.getLsbD i = true := by
  cases c with
  | negative => exact ⟨2, rfl, by decide⟩
  | zero => exact ⟨1, rfl, by decide⟩
  | positive => exact ⟨0, rfl, by decide⟩

theorem selects_all : (7 &&& c.bits != 0) = true := by cases c <;> rfl

theorem selects_none : (0 &&& c.bits != 0) = false := by cases c <;> rfl

/-- A condition is in a mask or in the opposite one. -/
theorem selects_opposite {mask : BitVec 3} :
    ((7 - mask) &&& c.bits != 0) = !(mask &&& c.bits != 0) := by
  revert mask
  cases c <;> decide

end Condition

namespace Psr

variable {psr : Psr} {v w : Word}

theorem withConditionOf_idem :
    withConditionOf (withConditionOf psr v) w = withConditionOf psr w := by
  rw [withConditionOf, mode_withConditionOf, withConditionOf]

theorem initial_eq {userMode : Bool} : withConditionOf (initial userMode) 0 = initial userMode := by
  cases userMode <;> rfl

end Psr

/-! ## Registers that loading leaves alone -/

namespace Store

variable {s : Store} {r : Register} {start a : Word} {ws : List Word} {name : String}

theorem reg_writeBlock : (s.writeBlock start ws).reg r = s.reg r := by
  induction ws generalizing s start with
  | nil => rfl
  | cons w ws ih => rw [writeBlock, ih, reg_write]

theorem reg_setLabel : (s.setLabel name a).reg r = s.reg r := by
  rw [setLabel_eq]
  cases r <;> rfl

theorem reg_setLabels {bs : List (Word × String)} : (s.setLabels bs).reg r = s.reg r := by
  induction bs generalizing s with
  | nil => rfl
  | cons b bs ih => exact ih.trans reg_setLabel

theorem reg_load {o : ObjectFile} : (s.load o).reg r = s.reg r := reg_setLabels.trans reg_writeBlock

theorem reg_unsetAddr : (s.unsetAddr a).reg r = s.reg r := by
  unfold unsetAddr
  split <;> cases r <;> rfl

theorem reg_unsetName : (s.unsetName name).reg r = s.reg r := by
  unfold unsetName
  split <;> cases r <;> rfl

end Store

/-! ## Results -/

/-- The register that an instruction puts its result into. -/
def Instr.dest? : Instr → Option Reg
  | .add dr _ _ | .and dr _ _ | .not dr _ => some dr
  | .ld dr _ | .ldi dr _ | .ldr dr _ _ | .lea dr _ => some dr
  | _ => none

/-- Nothing is done to the status, but that a result may set the condition. -/
def Operation.SparesStatus (m : Machine) : Operation → Prop
  | .act .step => m.step.1.instr ≠ .rti
  | .act (.access (.setReg r _)) => r ≠ .psr
  | .edit (.setReg r _) => r ≠ .psr
  | .reset => False
  | .edit (.reset _) => False
  | _ => True

namespace Machine

variable {m : Machine} {op : Operation} {ops : List Operation}

/-- The result that the next instruction puts into a register, if it is one that does. -/
def result? (m : Machine) : Option Word :=
  m.step.1.instr.dest?.map fun dr => m.step.2.reg (.general dr)

/-- The result that an operation puts into a register, if it is a step that does. -/
def resultOf (m : Machine) : Operation → List Word
  | .act .step => m.result?.toList
  | _ => []

/-- The results that instructions put into registers, in their order. -/
def results (m : Machine) : List Operation → List Word
  | [] => []
  | op :: ops => m.resultOf op ++ (m.operate op).results ops

/-- No operation of a list changes the status register but through results. -/
def SparesStatus (m : Machine) : List Operation → Prop
  | [] => True
  | op :: ops => op.SparesStatus m ∧ (m.operate op).SparesStatus ops

/-! ## Steps -/

variable {dr : Reg} {v addr : Word} {i : Instr}

theorem psr_setResult : (m.setResult dr v).reg .psr = Psr.withConditionOf (m.reg .psr) v := by
  have hpsr : (m.setReg (.general dr) v).reg .psr = m.reg .psr := by simp
  rw [← hpsr, setResult, reg_setReg, if_pos rfl]
  rfl

theorem psr_call : (m.call v).reg .psr = m.reg .psr := by
  change ((m.setReg _ _).setReg .pc v).reg .psr = _
  simp

theorem psr_jump : (m.jump dr).reg .psr = m.reg .psr := by
  have hset : (m.setReg .pc (m.reg (.general dr))).reg .psr = m.reg .psr := by simp
  unfold jump
  split
  · exact hset
  · exact hset

/-- An instruction sets the condition of its result. -/
theorem psr_execute (h : i ≠ .rti) : (m.execute addr i).reg .psr =
    match i.dest? with
    | some dr => Psr.withConditionOf (m.reg .psr) ((m.execute addr i).reg (.general dr))
    | none => m.reg .psr := by
  cases i with
  | rti => exact absurd rfl h
  | br mask off =>
      simp only [execute, Instr.dest?]
      split <;> simp
  | jsr target => cases target <;> exact psr_call
  | trap vector => exact psr_call.trans reg_read
  | jmp base => exact psr_jump
  | st | str => exact reg_write
  | sti sr off => exact reg_write.trans reg_read
  | reserved => rfl
  | _ => simp [execute, Instr.dest?, psr_setResult]

theorem psr_step (h : m.step.1.instr ≠ .rti) : m.step.2.reg .psr =
    match m.result? with
    | some v => Psr.withConditionOf (m.reg .psr) v
    | none => m.reg .psr := by
  have hlast : ∀ r, m.step.2.reg r = m.executed.reg r := fun r => by
    rw [step_eq, reg_exchange]
    rfl
  have hfetched : m.fetched.reg .psr = m.reg .psr := by simp [fetched, fetch]
  have hexecute : m.executed.reg .psr =
      match m.step.1.instr.dest? with
      | some dr => Psr.withConditionOf (m.reg .psr) (m.executed.reg (.general dr))
      | none => m.reg .psr := hfetched ▸ psr_execute h
  rw [hlast, result?]
  cases hdest : m.step.1.instr.dest? with
  | none =>
      rw [hdest] at hexecute
      exact hexecute
  | some dr =>
      rw [hdest] at hexecute
      rw [Option.map_some, hlast]
      exact hexecute

/-! ## Runs -/

theorem psr_access {a : Access} (h : (Operation.act (.access a)).SparesStatus m) :
    (m.access a).reg .psr = m.reg .psr := by
  cases a with
  | exchange => exact reg_exchange
  | read addr => exact reg_read
  | write addr value => exact reg_write
  | setReg r value => exact reg_setReg.trans (if_neg h)
  | setClock on => exact Store.reg_setReady
  | type ch => rfl

theorem psr_edit {e : Edit} (h : (Operation.edit e).SparesStatus m) :
    (m.store.edit e).reg .psr = m.store.reg .psr := by
  cases e with
  | setReg r value => exact Store.reg_setReg.trans (if_neg h)
  | write addr value => exact Store.reg_write
  | writeBlock start words => exact Store.reg_writeBlock
  | setLabel name addr => exact Store.reg_setLabel
  | unsetAddr addr => exact Store.reg_unsetAddr
  | unsetName name => exact Store.reg_unsetName
  | reset fill => exact h.elim
  | queue | dropInput | output | subscribe => rfl

/-- An operation sets the condition of its result, if it has one. -/
theorem psr_operate {psr : Psr} (hm : m.reg .psr = Psr.withConditionOf psr v)
    (h : op.SparesStatus m) :
    (m.operate op).reg .psr = Psr.withConditionOf psr ((m.resultOf op).getLastD v) := by
  cases op with
  | act a =>
      cases a with
      | step =>
          refine (psr_step h).trans ?_
          rw [hm, resultOf]
          cases m.result? with
          | none => rfl
          | some w => exact Psr.withConditionOf_idem
      | access a => exact (psr_access h).trans hm
  | load o => exact Store.reg_load.trans hm
  | edit e => exact (psr_edit h).trans hm
  | reset => exact h.elim
  | setFlags flags => exact hm

theorem psr_operateAll {psr : Psr} (hm : m.reg .psr = Psr.withConditionOf psr v)
    (h : m.SparesStatus ops) :
    (m.operateAll ops).reg .psr = Psr.withConditionOf psr ((m.results ops).getLastD v) := by
  induction ops generalizing m v with
  | nil => exact hm
  | cons op ops ih =>
      obtain ⟨hop, hops⟩ := h
      have happend : ((m.resultOf op ++ (m.operate op).results ops).getLastD v) =
          ((m.operate op).results ops).getLastD ((m.resultOf op).getLastD v) := by
        simp only [List.getLastD_eq_getLast?, List.getLast?_append, Option.getD_or]
      rw [results, happend]
      exact ih (psr_operate hm hop) hops

theorem IsFresh.psr (h : m.IsFresh) : m.reg .psr = Psr.initial m.flags.userMode := by
  obtain ⟨m, rfl⟩ := h.exists_powerOn
  rfl

/-! ## Branches -/

variable {mask : BitVec 8} {off : BitVec 9}

theorem takes_of_psr {psr : Psr} (hm : m.reg .psr = Psr.withConditionOf psr v) :
    m.takes mask = (mask.setWidth 3 &&& (Condition.ofValue v).bits != 0) := by
  have hcondition : Psr.condition? m.store.psr = some (.ofValue v) := by
    change Psr.condition? (m.reg .psr) = _
    rw [hm, Psr.condition?_withConditionOf]
  rw [takes, hcondition]

theorem pc_step_br (h : m.step.1.instr = .br mask off) : m.step.2.reg .pc =
    if m.takes mask then m.reg .pc + 1 + off.signExtend 16 else m.reg .pc + 1 := by
  have hpc : m.fetched.reg .pc = m.reg .pc + 1 :=
    congrArg (· + 1) (reg_exchange (m := m) (r := .pc))
  have htakes : m.fetched.takes mask = m.takes mask := by
    have hpsr : m.fetched.store.psr = m.store.psr := reg_exchange (m := m) (r := .psr)
    rw [takes, takes, hpsr]
  have haddress : m.fetched.address (Instr.br mask off).mode =
      m.reg .pc + 1 + off.signExtend 16 := congrArg (· + off.signExtend 16) hpc
  have hstep : m.step.2.reg .pc = m.executed.reg .pc := by
    rw [step_eq, reg_exchange]
    rfl
  rw [hstep, executed, h, haddress, execute, htakes]
  split
  · simp
  · exact hpc

/-- With a branch at the program counter. -/
def placeBr (m : Machine) (mask : BitVec 3) (off : BitVec 9) : Machine :=
  m.write (m.reg .pc) (Instr.br (mask.setWidth 8) off).encode

/-- The next step goes on at this distance from the next instruction. -/
def Branches (m : Machine) (off : BitVec 9) : Prop :=
  m.step.2.reg .pc = m.reg .pc + 1 + off.signExtend 16

theorem branches_placeBr {mask : BitVec 3} (hpc : m.reg .pc ∉ DeviceReg.updated) (hoff : off ≠ 0) :
    (m.placeBr mask off).Branches off ↔ m.takes (mask.setWidth 8) = true := by
  have hreg : ∀ r, (m.placeBr mask off).reg r = m.reg r := fun _ => reg_write
  have hword : (m.placeBr mask off).store.read (m.reg .pc) =
      (Instr.br (mask.setWidth 8) off).encode := read_write_self
  have hmask : (Instr.br (mask.setWidth 8) off).HasWord := by
    change (mask.setWidth 8).toNat < 8
    rw [BitVec.toNat_setWidth]
    omega
  have hinstr : (m.placeBr mask off).step.1.instr = .br (mask.setWidth 8) off := by
    change (m.placeBr mask off).exchange.fetch.1.decode.instr = _
    rw [(fetch_exchange (hreg .pc) hpc).1, hword]
    exact congrArg Decoded.instr (Word.decode_encode hmask)
  have htakes : (m.placeBr mask off).takes (mask.setWidth 8) = m.takes (mask.setWidth 8) := by
    have hpsr : (m.placeBr mask off).store.psr = m.store.psr := hreg .psr
    rw [takes, takes, hpsr]
  have hfar : m.reg .pc + 1 ≠ m.reg .pc + 1 + off.signExtend 16 := by
    intro heq
    have hzero : off.signExtend 16 = 0#16 := by simpa using heq.symm
    apply hoff
    apply BitVec.eq_of_toInt_eq
    rw [← BitVec.toInt_signExtend_of_le (by decide : 9 ≤ 16), hzero]
    rfl
  rw [Branches, pc_step_br hinstr, htakes, hreg]
  split
  · simp_all
  · simp_all

/-! ## Main statement -/

/-- After a run from power-on, the condition is that of the last result, or zero if there was none,
and the rest of the status is as it was. A branch with all conditions is taken and one with none is
not, and of two branches with opposite masks one is taken. -/
theorem status_of_run (hm : m.IsFresh) (hops : m.SparesStatus ops) :
    let m' := m.operateAll ops
    Psr.codes (m'.reg .psr) = (Condition.ofValue ((m.results ops).getLastD 0)).bits ∧
      (∃! i : Fin 3, (m'.reg .psr).getLsbD i = true) ∧
      (m'.reg .psr).extractLsb' 3 13 = (m.reg .psr).extractLsb' 3 13 ∧
      (∀ off, m'.step.1.instr = .br 7 off → m'.Branches off) ∧
      (∀ off, m'.step.1.instr = .br 0 off → m'.step.2.reg .pc = m'.reg .pc + 1) ∧
      ∀ mask off, off ≠ 0 → m'.reg .pc ∉ DeviceReg.updated →
        ((m'.placeBr mask off).Branches off ↔ ¬ (m'.placeBr (7 - mask) off).Branches off) := by
  intro m'
  have hfresh : m.reg .psr = Psr.withConditionOf (m.reg .psr) 0 := by
    rw [hm.psr, Psr.initial_eq]
  have hpsr := psr_operateAll hfresh hops
  generalize (m.results ops).getLastD 0 = last at hpsr ⊢
  have htakes : ∀ mask, m'.takes mask =
      (mask.setWidth 3 &&& (Condition.ofValue last).bits != 0) := fun _ => takes_of_psr hpsr
  have hcodes : Psr.codes (m'.reg .psr) = (Condition.ofValue last).bits := by
    rw [hpsr]
    exact BitVec.extractLsb'_append_eq_right
  refine ⟨hcodes, ?_, ?_, fun off hbr => ?_, fun off hbr => ?_, fun mask off hoff hpc => ?_⟩
  · obtain ⟨i, hi, hunique⟩ := (Condition.ofValue last).existsUnique_bit
    have hbit : ∀ i : Fin 3, (m'.reg .psr).getLsbD i = (Condition.ofValue last).bits.getLsbD i := by
      intro i
      rw [← hcodes]
      simp [Psr.codes]
    refine ⟨i, (hbit i).trans hi, fun j hj => hunique j ((hbit j).symm.trans hj)⟩
  · rw [hpsr, Psr.mode_withConditionOf]
  · have hall : m'.takes 7 = true := (htakes 7).trans Condition.selects_all
    rw [Branches, pc_step_br hbr, if_pos hall]
  · have hnone : m'.takes 0 = false := (htakes 0).trans Condition.selects_none
    rw [pc_step_br hbr, hnone]
    rfl
  · have hwidth : ∀ mask : BitVec 3, (mask.setWidth 8).setWidth 3 = mask := by simp
    rw [branches_placeBr hpc hoff, branches_placeBr hpc hoff, htakes, htakes, hwidth, hwidth,
      Condition.selects_opposite]
    cases mask &&& (Condition.ofValue last).bits != 0 <;> decide

/-- A negative result, and then a character that is read through a pointer. -/
theorem status_of_run_key :
    let m := new {} ⟨0x3000, [0x103D, 0xA202, 0x0000, 0x0000, 0xFE02], .empty⟩
    let ops : List Operation := [.act (.access (.type 0x61)), .act .step, .act .step]
    let m' := m.operateAll ops
    m.IsFresh ∧ m.SparesStatus ops ∧ m.results ops = [0xFFFD, 0x61] ∧
      Psr.codes (m'.reg .psr) = 0b001 ∧
      (m'.reg .psr).extractLsb' 3 13 = (m.reg .psr).extractLsb' 3 13 ∧
      ((m'.placeBr 1 5).Branches 5 ↔ ¬ (m'.placeBr 6 5).Branches 5) := by
  intro m ops m'
  have hm : m.IsFresh := .inl ⟨_, _, rfl⟩
  have hops : m.SparesStatus ops := by
    refine ⟨trivial, ?_, ?_, trivial⟩
    · change _ ≠ Instr.rti
      decide
    · change _ ≠ Instr.rti
      decide
  have hresults : m.results ops = [0xFFFD, 0x61] := by decide
  have hpc : m'.reg .pc ∉ DeviceReg.updated := by decide
  obtain ⟨hcodes, -, hmode, -, -, hbr⟩ := status_of_run hm hops
  rw [hresults] at hcodes
  exact ⟨hm, hops, hresults, hcodes, hmode, hbr 1 5 (by decide) hpc⟩

end Machine

end Lc3
