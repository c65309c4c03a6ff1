import Lc3.Proofs.Replay

/-!
# Starting over

Main statement: whatever was done to a machine, resetting it makes it the machine that has just been
switched on, with the flags that it has now. Only its subscribers stay.
-/

namespace Lc3

namespace Store

variable {s s' : Store} {a b v : Word} {r r' : Register} {name : String}

/-! ## Stores that differ in their subscribers -/

/-- The stores are the same, but for who listens to them. -/
def Same (s s' : Store) : Prop := ∃ observer, s' = { s with observer }

namespace Same

theorem of_parts (hread : ∀ a, s'.read a = s.read a) (hreg : ∀ r, s'.reg r = s.reg r)
    (hlabels : s'.labels = s.labels) (hinput : s'.input = s.input) : s.Same s' := by
  have hmemory : s'.memory = s.memory := Bank.ext hread
  have hgeneral : s'.general = s.general := Bank.ext fun i => hreg (.general i)
  have hpc : s'.pc = s.pc := hreg .pc
  have hir : s'.ir = s.ir := hreg .ir
  have hpsr : s'.psr = s.psr := hreg .psr
  refine ⟨s'.observer, ?_⟩
  rw [← hmemory, ← hgeneral, ← hpc, ← hir, ← hpsr, ← hlabels, ← hinput]

theorem write (h : s.Same s') : (s.write a v).Same (s'.write a v) := by
  obtain ⟨observer, rfl⟩ := h
  exact ⟨_, rfl⟩

theorem setReg (h : s.Same s') : (s.setReg r v).Same (s'.setReg r v) := by
  obtain ⟨observer, rfl⟩ := h
  cases r <;> exact ⟨_, rfl⟩

theorem setLabel (h : s.Same s') : (s.setLabel name a).Same (s'.setLabel name a) := by
  obtain ⟨observer, rfl⟩ := h
  rw [setLabel_eq, setLabel_eq]
  exact ⟨_, rfl⟩

theorem setInput {input : List Byte} (h : s.Same s') : Same { s with input } { s' with input } := by
  obtain ⟨observer, rfl⟩ := h
  exact ⟨_, rfl⟩

theorem writeBlock {ws : List Word} (h : s.Same s') :
    (s.writeBlock a ws).Same (s'.writeBlock a ws) := by
  induction ws generalizing s s' a with
  | nil => exact h
  | cons w ws ih => exact ih h.write

theorem setLabels {bs : List (Word × String)} (h : s.Same s') :
    (s.setLabels bs).Same (s'.setLabels bs) := by
  induction bs generalizing s s' with
  | nil => exact h
  | cons b bs ih => exact ih h.setLabel

theorem load {o : ObjectFile} (h : s.Same s') : (s.load o).Same (s'.load o) :=
  h.writeBlock.setLabels

theorem powerOn {flags : Flags} {os : OsImage} (h : s.Same s') :
    (s.powerOn flags os).Same (s'.powerOn flags os) :=
  h.load.setReg.setReg.write

end Same

/-! ## Wiping a store -/

/-! ### Labels -/

theorem labels_unsetAddr : (s.unsetAddr a).labels = s.labels.eraseAddr a := by
  unfold unsetAddr
  split
  case h_1 => rfl
  case h_2 hnone =>
    apply LabelTable.eq_of_entries
    symm
    rw [LabelTable.eraseAddr, LabelTable.filter, List.filter_eq_self]
    intro e he
    exact decide_eq_true (LabelTable.nameAt?_eq_none_iff.1 hnone e he)

theorem not_mem_of_unsetAddrs {bs : List (Word × String)} {e : Word × String}
    (he : e ∈ (bs.foldl (fun s b => s.unsetAddr b.1) s).labels.entries) :
    e ∈ s.labels.entries ∧ e ∉ bs := by
  induction bs generalizing s with
  | nil => exact ⟨he, List.not_mem_nil⟩
  | cons b bs ih =>
      obtain ⟨hmem, hbs⟩ := ih he
      rw [labels_unsetAddr] at hmem
      obtain ⟨hmem, hne⟩ := List.mem_filter.1 hmem
      refine ⟨hmem, fun hb => ?_⟩
      rcases List.mem_cons.1 hb with rfl | hb
      · simp at hne
      · exact hbs hb

theorem labels_clearLabels : s.clearLabels.labels = .empty := by
  apply LabelTable.eq_of_entries
  apply List.eq_nil_iff_forall_not_mem.2
  intro e he
  obtain ⟨hmem, hnot⟩ := not_mem_of_unsetAddrs he
  exact hnot hmem

/-! ### Memory and registers -/

theorem read_ensure : (s.ensure a v).read b = if a = b then v else s.read b := by
  unfold ensure
  split
  · rename_i hsame
    split
    · rename_i hab
      rw [← hab, hsame]
    · rfl
  · exact read_write

theorem labels_ensure : (s.ensure a v).labels = s.labels := by
  unfold ensure
  split <;> rfl

theorem read_ensureReg : (s.ensureReg r v).read a = s.read a := by
  unfold ensureReg
  split
  · rfl
  · exact read_setReg

theorem reg_ensureReg : (s.ensureReg r v).reg r' = if r = r' then v else s.reg r' := by
  unfold ensureReg
  split
  · rename_i hsame
    split
    · rename_i hr
      rw [← hr, hsame]
    · rfl
  · exact reg_setReg

theorem labels_ensureReg : (s.ensureReg r v).labels = s.labels := by
  unfold ensureReg
  split
  · rfl
  · cases r <;> rfl

theorem mem_addresses : a ∈ addresses :=
  List.mem_map.2 ⟨a.toNat, List.mem_range.2 a.isLt, by simp⟩

theorem mem_registers : r ∈ Register.all := by
  cases r with
  | general i => revert i; decide
  | _ => decide

variable {fresh : Store} {as : List Word} {rs : List Register}

/-- With the cells and registers of some places as they are in another store. -/
def refill (s fresh : Store) (as : List Word) (rs : List Register) : Store :=
  rs.foldl (fun s r => s.ensureReg r (fresh.reg r))
    (as.foldl (fun s a => s.ensure a (fresh.read a)) s)

theorem read_refill (ha : a ∈ as) : (s.refill fresh as rs).read a = fresh.read a := by
  have hcells : ∀ s : Store, (as.foldl (fun s a => s.ensure a (fresh.read a)) s).read a =
      if a ∈ as then fresh.read a else s.read a := by
    clear ha
    induction as with
    | nil => exact fun _ => rfl
    | cons b as ih =>
        intro s
        rw [List.foldl_cons, ih, read_ensure]
        by_cases hb : b = a
        · simp [hb]
        · simp [hb, Ne.symm hb]
  have hregs : ∀ s : Store, (rs.foldl (fun s r => s.ensureReg r (fresh.reg r)) s).read a =
      s.read a := by
    induction rs with
    | nil => exact fun _ => rfl
    | cons r rs ih => exact fun s => (ih _).trans read_ensureReg
  rw [refill, hregs, hcells, if_pos ha]

theorem reg_refill (hr : r ∈ rs) : (s.refill fresh as rs).reg r = fresh.reg r := by
  suffices ∀ s : Store, (rs.foldl (fun s r => s.ensureReg r (fresh.reg r)) s).reg r =
      if r ∈ rs then fresh.reg r else s.reg r from (this _).trans (if_pos hr)
  clear hr
  induction rs with
  | nil => exact fun _ => rfl
  | cons r' rs ih =>
      intro s
      rw [List.foldl_cons, ih, reg_ensureReg]
      by_cases hr : r' = r
      · simp [hr]
      · simp [hr, Ne.symm hr]

theorem labels_refill : (s.refill fresh as rs).labels = s.labels := by
  have hcells : ∀ s : Store, (as.foldl (fun s a => s.ensure a (fresh.read a)) s).labels =
      s.labels := by
    induction as with
    | nil => exact fun _ => rfl
    | cons a as ih => exact fun s => (ih _).trans labels_ensure
  have hregs : ∀ s : Store, (rs.foldl (fun s r => s.ensureReg r (fresh.reg r)) s).labels =
      s.labels := by
    induction rs with
    | nil => exact fun _ => rfl
    | cons r rs ih => exact fun s => (ih _).trans labels_ensureReg
  rw [refill, hregs, hcells]

/-- When every place is refilled, nothing of the old store is left but its subscribers. -/
theorem same_refill (has : ∀ a, a ∈ as) (hrs : ∀ r, r ∈ rs) (hlabels : s.labels = fresh.labels) :
    Same { fresh with input := [] } { s.refill fresh as rs with input := [] } := by
  refine .of_parts (fun a => read_refill (has a)) (fun r => ?_) (labels_refill.trans hlabels) rfl
  have hreg : (s.refill fresh as rs).reg r = fresh.reg r := reg_refill (hrs r)
  cases r <;> exact hreg

/-- A store that was reset is a new one with the old subscribers. -/
theorem same_reset {fill : Fill} : (new fill).Same (s.reset fill) :=
  same_refill (fun _ => mem_addresses) (fun _ => mem_registers) labels_clearLabels

end Store

/-! ## Machines -/

/-- Nothing of the devices is left when they are reset. -/
theorem Devices.reset_eq (d : Devices) (s : Store) : d.reset s = Devices.new.reset s := rfl

namespace Machine

/-- The power coming on makes the same machine of any devices, and of stores that differ in their
subscribers machines that differ in them. -/
theorem powerOn_of_same {s : Store} (m : Machine) (devices : Devices) (h : m.store.Same s) :
    ∃ observer, powerOn { m with store := s, devices } =
      (powerOn m).onStore fun s => { s with observer } := by
  have hpower : (m.store.powerOn m.flags m.os).Same (s.powerOn m.flags m.os) := h.powerOn
  have hdevices : (m.devices.reset (m.store.powerOn m.flags m.os)).2.Same
      (m.devices.reset (s.powerOn m.flags m.os)).2 := hpower.setInput.write.write.write.write
  obtain ⟨observer, heq⟩ := hdevices
  refine ⟨observer, ?_⟩
  rw [powerOn, Devices.reset_eq devices]
  exact congrArg (fun s => { m with store := s, devices := ⟨.new, .new⟩ }) heq

/-- Resetting gives the machine that has just been switched on with the same flags and operating
system, whatever generator the flags fill it from: nothing waits, nothing was shown, and nothing was
counted. Every subscriber that still listens goes on listening. -/
theorem reset_eq_new (m : Machine) :
    (∃ observer, m.reset = (new m.flags m.os).onStore fun s => { s with observer }) ∧
      m.reset.store.input = [] ∧ m.reset.shown = [] ∧ m.reset.devices.keyboard.delivered = 0 ∧
      m.reset.callDepth = 0 ∧ m.reset.stepCount = 0 ∧
      ∃ es, ∀ sub ws, m.store.observer.waiting? sub = some ws →
        m.reset.store.observer.waiting? sub = some (ws ++ es) := by
  obtain ⟨es, hsends, -⟩ := tells_reset m
  exact ⟨powerOn_of_same (unused m.flags m.os) m.devices Store.same_reset, rfl, rfl, rfl, rfl, rfl,
    es, hsends⟩

/-- Memory and registers start out with words of a seed. A program has taken the label of the
operating system and changed a register, a character waits, and the flags have another program
counter. -/
theorem reset_eq_new_evicted :
    let fill : Fill := .seeded (fun seed i => BitVec.ofNat 16 (seed.toNat + i)) 7
    let os : OsImage := ⟨0, [0x1234], .ofList [("X", 0)]⟩
    let o : ObjectFile := ⟨0x3000, [0x1021], .ofList [("X", 0x3000)]⟩
    let used := (((new { fill } os).onStore (·.subscribe)).load o |>.type 0x61).step.2
    let m := { used with flags := { fill, startPc := 0x4000 } }
    m.store.labels.addrOf? "X" = some 0x3000 ∧ m.store.reg (.general 0) = 8 ∧
      m.reset.store.labels.addrOf? "X" = some 0 ∧ m.reset.store.reg (.general 0) = 7 ∧
      m.reset.store.read 0x3000 = 0x3007 ∧ m.reset.store.pc = 0x4000 ∧
      ∃ ws, m.reset.store.observer.waiting? 0 = some ws := by
  intro fill os o used m
  obtain ⟨⟨observer, hnew⟩, -, -, -, -, -, es, hsubs⟩ := reset_eq_new m
  have hheld : (m.store.observer.waiting? 0).isSome := by decide
  obtain ⟨ws, hws⟩ := Option.isSome_iff_exists.1 hheld
  have hfresh : (new m.flags m.os).store.labels.addrOf? "X" = some 0 ∧
      (new m.flags m.os).store.reg (.general 0) = 7 ∧
      (new m.flags m.os).store.read 0x3000 = 0x3007 ∧
      (new m.flags m.os).store.pc = 0x4000 := by
    decide
  -- None of these depends on who listens.
  have hsame : ∀ s : Store, ∀ observer, ({ s with observer } : Store).labels = s.labels ∧
      ({ s with observer } : Store).reg (.general 0) = s.reg (.general 0) ∧
      ({ s with observer } : Store).read 0x3000 = s.read 0x3000 ∧
      ({ s with observer } : Store).pc = s.pc :=
    fun _ _ => ⟨rfl, rfl, rfl, rfl⟩
  obtain ⟨hlabels, hreg, hread, hpc⟩ := hsame (new m.flags m.os).store observer
  have hwaiting := hsubs 0 ws hws
  rw [hnew, onStore] at hwaiting ⊢
  rw [hlabels, hreg, hread, hpc]
  exact ⟨by decide, by decide, hfresh.1, hfresh.2.1, hfresh.2.2.1, hfresh.2.2.2,
    ws ++ es, hwaiting⟩

end Machine

end Lc3
