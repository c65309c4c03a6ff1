import Lc3.Machine.Step

/-!
# What an access leaves alone

A write changes one cell and no register, and the other way round. Between instructions the devices
write three of their own registers; nothing else of memory and no register of the machine changes.
-/

namespace Lc3

variable {a b v : Word} {r r' : Register}

/-! ## The store -/

namespace Store

variable {s : Store}

@[simp] theorem read_write : (s.write a v).read b = if a = b then v else s.read b :=
  Bank.get_set _ _ _ _

@[simp] theorem reg_write : (s.write a v).reg r = s.reg r := by cases r <;> rfl

@[simp] theorem read_setReg : (s.setReg r v).read a = s.read a := by cases r <;> rfl

@[simp] theorem reg_setReg : (s.setReg r v).reg r' = if r = r' then v else s.reg r' := by
  cases r with
  | general i =>
      cases r' with
      | general j => simp [setReg, emit, putReg, reg, Bank.get_set]
      | _ => rfl
  | _ => cases r' <;> rfl

@[simp] theorem read_dropInput : s.dropInput.read a = s.read a := rfl

@[simp] theorem reg_dropInput : s.dropInput.reg r = s.reg r := by cases r <;> rfl

@[simp] theorem read_output {ch : Byte} : (s.output ch).read a = s.read a := rfl

@[simp] theorem reg_output {ch : Byte} : (s.output ch).reg r = s.reg r := by cases r <;> rfl

@[simp] theorem reg_setReady {on : Bool} : (s.setReady a on).reg r = s.reg r := reg_write

theorem read_setReady_of_ne {on : Bool} (h : a ≠ b) : (s.setReady a on).read b = s.read b := by
  simp [setReady, h]

end Store

/-! ## The devices -/

/-- The registers that the devices write between instructions. -/
def DeviceReg.updated : List Word := [kbsr, kbdr, dsr]

namespace Devices

variable {d : Devices} {s s' : Store}

theorem reg_update : (d.update s).2.reg r = s.reg r := by
  have hk : (d.keyboard.update s).2.reg r = s.reg r := by
    unfold Keyboard.update
    split
    · rfl
    · split <;> simp
  have hd (s : Store) : (d.display.update s).2.reg r = s.reg r := by
    unfold Display.update
    split <;> simp
  exact (hd _).trans hk

theorem read_update (h : a ∉ DeviceReg.updated) : (d.update s).2.read a = s.read a := by
  simp only [DeviceReg.updated, List.mem_cons, List.not_mem_nil, or_false, not_or] at h
  obtain ⟨hkbsr, hkbdr, hdsr⟩ := h
  have hk : (d.keyboard.update s).2.read a = s.read a := by
    unfold Keyboard.update
    split
    · rfl
    · split
      · rfl
      · simp [Store.read_setReady_of_ne (Ne.symm hkbsr), Ne.symm hkbdr]
  have hd (s : Store) : (d.display.update s).2.read a = s.read a := by
    unfold Display.update
    split
    · rfl
    · simp [Store.read_setReady_of_ne (Ne.symm hdsr)]
  exact (hd _).trans hk

theorem reg_of_read (h : read s a = some (v, s')) : s'.reg r = s.reg r := by
  unfold read Keyboard.read Display.read at h
  grind [Store.reg_setReady]

theorem reg_of_written (h : written s a = some s') : s'.reg r = s.reg r := by
  unfold written Keyboard.written Display.written at h
  grind [Store.reg_setReady]

theorem read_of_written (h : written s a = some s') : s'.read a = s.read a := by
  unfold written Keyboard.written Display.written at h
  have hne : DeviceReg.dsr ≠ DeviceReg.ddr := by decide
  grind [Store.read_setReady_of_ne]

end Devices

/-! ## The machine -/

namespace Machine

variable {m : Machine}

@[simp] theorem reg_setReg : (m.setReg r v).reg r' = if r = r' then v else m.reg r' :=
  Store.reg_setReg

@[simp] theorem reg_exchange : m.exchange.reg r = m.reg r := Devices.reg_update

theorem read_exchange (h : a ∉ DeviceReg.updated) : m.exchange.store.read a = m.store.read a :=
  Devices.read_update h

@[simp] theorem reg_read : (m.read a).2.reg r = m.reg r := by
  unfold read
  split
  · rename_i hr
    exact Devices.reg_of_read hr
  · rfl

@[simp] theorem reg_write : (m.write a v).reg r = m.reg r := by
  cases hd : Devices.written (m.store.write a v) a with
  | none => simp [write, onStore, reg, hd]
  | some s => simp [write, onStore, reg, hd, Devices.reg_of_written hd]

/-- A cell holds what was written to it, whatever device it belongs to. -/
theorem read_write_self : (m.write a v).store.read a = v := by
  cases hd : Devices.written (m.store.write a v) a with
  | none => simp [write, onStore, hd]
  | some s => simp [write, onStore, hd, Devices.read_of_written hd]

@[simp] theorem reg_setResult {dr i : Reg} :
    (m.setResult dr v).reg (.general i) = if dr = i then v else m.reg (.general i) := by
  simp [setResult]

@[simp] theorem pc_call : (m.call a).reg .pc = a := by
  change ((m.setReg _ _).setReg .pc a).reg .pc = a
  simp

@[simp] theorem link_call : (m.call a).reg (.general Reg.link) = m.reg .pc := by
  change ((m.setReg _ (m.reg .pc)).setReg .pc a).reg (.general Reg.link) = _
  simp

end Machine

end Lc3
