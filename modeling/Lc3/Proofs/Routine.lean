import Lc3.Proofs.Image

/-!
# What service routines are made of

Waiting for a device, showing a character, reading one, and showing a string, wherever in the
operating system the code for it lies.
-/

namespace Lc3

open Os (Up Code)

/-- The words of a string lie at `a` and the addresses after it, with a zero word at the end. -/
structure IsString (inside : Word → Prop) (cell : Word → Word) (a : Word) (ws : List Word) :
    Prop where
  along : Along (fun a w => inside a ∧ cell a = w) a (ws ++ [0])
  nonzero : 0 ∉ ws

theorem IsString.imp {inside inside' : Word → Prop} {cell cell' : Word → Word} {a : Word}
    {ws : List Word} (h : IsString inside cell a ws)
    (himp : ∀ a, inside a → inside' a ∧ cell' a = cell a) : IsString inside' cell' a ws := by
  refine ⟨h.along.imp fun a w hw => ?_, h.nonzero⟩
  obtain ⟨hinside, rfl⟩ := hw
  exact himp a hinside

theorem Os.Message.isString {a : Word} {text : String} {cell : Word → Word}
    (h : Os.Message a text) (hup : Up cell) :
    IsString (· ∉ DeviceReg.ports) cell a (Text.utf16 text) :=
  ⟨h.along.imp fun a w hw => ⟨Os.not_mem_ports hw, hup.words a w hw⟩, h.nonzero⟩

theorem Condition.ofValue_of_msb {w : Word} (h : w.msb = true) : ofValue w = .negative := by
  have hne : w ≠ 0 := by
    rintro rfl
    cases h
  rw [ofValue, if_neg hne, if_pos h]

theorem Outline.takes_zero {o : Outline} {w : Word} (ho : o.condition = some (.ofValue w))
    (hw : w ≠ 0) : o.takes 0b010 = false := by
  rw [takes, ho, Condition.ofValue, if_neg hw]
  cases w.msb <;> rfl

theorem Outline.takes_always {o : Outline} {w : Word} (ho : o.condition = some (.ofValue w)) :
    o.takes 0b111 = true := by
  rw [takes, ho]
  cases Condition.ofValue w <;> rfl

namespace Outline.Leads

variable {o : Outline} {scratch shown ptr ch : Reg} {start a p w k : Word} {ks ws : List Word}

/-- Saving registers, each into a cell of its own. -/
theorem save (rs : List (Reg × Word)) (hup : Up o.cell) (hcode : Os.Placed o.pc (Os.saveCode rs))
    (hrs : ∀ e ∈ rs, e.2 ∈ Os.saved) (hdistinct : (rs.map (·.2)).Nodup) :
    ∃ cell, Up cell ∧ (∀ a ∉ rs.map (·.2), cell a = o.cell a) ∧
      (∀ e ∈ rs, cell e.2 = o.general e.1) ∧
      o.Leads { o with pc := skip o.pc (Os.saveCode rs), cell } := by
  induction rs generalizing o with
  | nil => exact ⟨o.cell, hup, fun _ _ => rfl, List.forall_mem_nil _, .refl o⟩
  | cons e rs ih =>
      obtain ⟨hfirst, hcode⟩ := hcode
      obtain ⟨ha, hrs⟩ := List.forall_mem_cons.1 hrs
      obtain ⟨hnew, hdistinct⟩ := List.nodup_cons.1 hdistinct
      obtain ⟨hport, hclock⟩ := Os.spared_of_mem_saved ha
      have hst : o.Leads { o.next with cell := Function.update o.cell e.2 (o.general e.1) } :=
        st (hup.lies hfirst) hport hclock
      obtain ⟨cell, hup', hother, hsaved, hsave⟩ := ih
        (o := { o.next with cell := Function.update o.cell e.2 (o.general e.1) })
        (hup.update ha) hcode hrs hdistinct
      refine ⟨cell, hup', fun a ha => ?_, List.forall_mem_cons.2 ⟨?_, hsaved⟩, hst.trans hsave⟩
      · obtain ⟨hne, ha⟩ := not_or.1 (mt List.mem_cons.2 ha)
        exact (hother a ha).trans (Function.update_of_ne hne _ _)
      · -- The registers after this one go into other cells.
        exact (hother e.2 hnew).trans (Function.update_self _ _ _)

/-- Restoring registers. -/
theorem restore (rs : List (Reg × Word)) (hcode : Code o.cell o.pc (Os.restoreCode rs))
    (hrs : ∀ e ∈ rs, e.2 ∈ Os.saved) (hdistinct : (rs.map (·.1)).Nodup) :
    ∃ general condition, (∀ e ∈ rs, general e.1 = o.cell e.2) ∧
      (∀ r ∉ rs.map (·.1), general r = o.general r) ∧
      o.Leads { o with pc := skip o.pc (Os.restoreCode rs), general, condition } := by
  induction rs generalizing o with
  | nil => exact ⟨o.general, o.condition, List.forall_mem_nil _, fun _ _ => rfl, .refl o⟩
  | cons e rs ih =>
      obtain ⟨hfirst, hcode⟩ := hcode
      obtain ⟨ha, hrs⟩ := List.forall_mem_cons.1 hrs
      obtain ⟨hnew, hdistinct⟩ := List.nodup_cons.1 hdistinct
      have hld := ld hfirst (Os.spared_of_mem_saved ha).1 rfl
      obtain ⟨general, condition, hrestored, hother, hrestore⟩ := ih
        (o := o.next.put e.1 (o.cell e.2)) hcode hrs hdistinct
      refine ⟨general, condition, List.forall_mem_cons.2 ⟨?_, hrestored⟩, fun r hr => ?_,
        hld.trans hrestore⟩
      · exact (hother e.1 hnew).trans (Function.update_self _ _ _)
      · obtain ⟨hne, hr⟩ := not_or.1 (mt List.mem_cons.2 hr)
        exact (hother r hr).trans (Function.update_of_ne hne _ _)

/-- Waiting for a device that is ready. -/
theorem wait (hcode : Code o.cell o.pc (Os.waitCode start scratch a)) (hport : a ∉ DeviceReg.ports)
    (hp : o.cell a = p) (hkbdr : p ≠ DeviceReg.kbdr) (hddr : p ≠ DeviceReg.ddr)
    (hready : (o.look p).msb = true) :
    o.Leads { o with
      pc := o.pc + 1 + 1
      general := Function.update o.general scratch (o.look p)
      condition := some .negative } := by
  obtain ⟨hldi, hbr, -⟩ := hcode
  have hafter : o.next.afterLook p = o.next := if_neg hkbdr
  have hload := ldi hldi hport hp ⟨hddr, fun h => absurd h hkbdr⟩
  rw [hafter, put, Condition.ofValue_of_msb hready] at hload
  exact hload.trans (pass hbr rfl)

/-- Waiting for the display, and showing a character. -/
theorem display (hup : Up o.cell) (hcode : Code o.cell o.pc (Os.showCode start scratch shown))
    (hne : shown ≠ scratch) (hw : o.general shown = w) :
    o.Leads { o with
      pc := o.pc + 1 + 1 + 1
      general := Function.update o.general scratch (o.cell DeviceReg.dsr)
      condition := some .negative
      shown := o.shown ++ [w.setWidth 8] } := by
  obtain ⟨hldi, hbr, hsti, -⟩ := hcode
  have hwait := wait ⟨hldi, hbr, trivial⟩ (by decide) hup.dsr (by decide) (by decide) hup.ready
  exact hwait.trans (sti hsti (by decide) hup.ddr ((Function.update_of_ne hne _ _).trans hw))

/-- Waiting for a character, and reading it. -/
theorem read (hup : Up o.cell) (hcode : Code o.cell o.pc (Os.readCode start))
    (hkeys : o.keys = k :: ks) :
    o.Leads { o with
      pc := o.pc + 1 + 1 + 1
      general := Function.update o.general 0 k
      condition := some (.ofValue k)
      keys := ks } := by
  obtain ⟨hldi, hbr, hldi', -⟩ := hcode
  have hready : (o.look DeviceReg.kbsr).msb = true := by
    have hlook : o.look DeviceReg.kbsr =
        Store.withReady (o.cell DeviceReg.kbsr) !o.keys.isEmpty := rfl
    rw [hlook, Store.msb_withReady, hkeys]
    rfl
  have hwait := wait ⟨hldi, hbr, trivial⟩ (by decide) hup.kbsr (by decide) (by decide) hready
  have hread := hwait.trans (ldi hldi' (by decide) hup.kbdr ⟨by decide, fun _ => by simp [hkeys]⟩)
  simpa [afterLook, look, put, next, hkeys] using hread

/-- One round of showing a string. -/
theorem printOne (hup : Up o.cell)
    (hcode : Code o.cell o.pc (Os.printCode o.pc ptr ch scratch a))
    (hregs : [ptr, ch, scratch].Nodup) (hport : o.general ptr ∉ DeviceReg.ports)
    (hw : o.cell (o.general ptr) = w) (hne : w ≠ 0) :
    ∃ general condition, (∀ r ∉ [ptr, ch, scratch], general r = o.general r) ∧
      general ptr = o.general ptr + 1 ∧
      o.Leads { o with general, condition, shown := o.shown ++ [w.setWidth 8] } := by
  obtain ⟨hldr, hbr, hldi, hwait, hsti, hadd, hloop, -⟩ := hcode
  have hch : ch ≠ scratch := by simp_all
  have hptr : ptr ≠ ch ∧ ptr ≠ scratch := by simp_all
  let general := Function.update (Function.update o.general ch w) scratch (o.cell DeviceReg.dsr)
  have hload : o.Leads { o with
      pc := o.pc + 1
      general := Function.update o.general ch w
      condition := some (.ofValue w) } :=
    ldr hldr (BitVec.add_zero _) hport hw
  have hpass := hload.trans (pass hbr (takes_zero rfl hne))
  have hshow : o.Leads { o with
      pc := o.pc + 1 + 1 + 1 + 1 + 1
      general
      condition := some .negative
      shown := o.shown ++ [w.setWidth 8] } :=
    hpass.trans (display hup ⟨hldi, hwait, hsti, trivial⟩ hch (Function.update_self _ _ _))
  have hnext : o.Leads { o with
      pc := o.pc + 1 + 1 + 1 + 1 + 1 + 1
      general := Function.update general ptr (o.general ptr + 1)
      condition := some (.ofValue (o.general ptr + 1))
      shown := o.shown ++ [w.setWidth 8] } := by
    refine hshow.trans (add hadd ?_)
    simp [general, source, hptr]
  refine ⟨_, _, fun r hr => ?_, Function.update_self _ _ _,
    hnext.trans (branch hloop (takes_always rfl))⟩
  simp only [List.mem_cons, List.not_mem_nil, or_false, not_or] at hr
  simp [hr]

/-- Showing a string. -/
theorem print (hup : Up o.cell) (hcode : Code o.cell o.pc (Os.printCode o.pc ptr ch scratch a))
    (hregs : [ptr, ch, scratch].Nodup)
    (hstring : IsString (· ∉ DeviceReg.ports) o.cell (o.general ptr) ws) :
    ∃ general, (∀ r ∉ [ptr, ch, scratch], general r = o.general r) ∧
      o.Leads { o with
        pc := a
        general
        condition := some .zero
        shown := o.shown ++ ws.map (·.setWidth 8) } := by
  obtain ⟨halong, hnonzero⟩ := hstring
  induction ws generalizing o with
  | nil =>
      obtain ⟨hldr, hbr, -⟩ := hcode
      obtain ⟨⟨hport, hzero⟩, -⟩ := halong
      have hload := ldr hldr (BitVec.add_zero _) hport hzero
      refine ⟨Function.update o.general ch 0, fun r hr => ?_, ?_⟩
      · have hne : r ≠ ch := fun hne => hr (by simp [hne])
        exact Function.update_of_ne hne _ _
      · rw [List.map_nil, List.append_nil]
        exact hload.trans (branch hbr rfl)
  | cons w ws ih =>
      obtain ⟨⟨hport, hw⟩, halong⟩ := halong
      obtain ⟨hne, hnonzero⟩ := not_or.1 (mt List.mem_cons.2 hnonzero)
      obtain ⟨general, condition, hkept, hnext, hone⟩ :=
        printOne hup hcode hregs hport hw (Ne.symm hne)
      -- After a round the rest of the string lies where the pointer points.
      rw [← hnext] at halong
      obtain ⟨general', hkept', hrest⟩ := ih
        (o := { o with general, condition, shown := o.shown ++ [w.setWidth 8] })
        hup hcode halong hnonzero
      refine ⟨general', fun r hr => (hkept' r hr).trans (hkept r hr), ?_⟩
      rw [List.map_cons, List.append_cons]
      exact hone.trans hrest

/-- Showing a string of the operating system. -/
theorem say {text : String} (hup : Up o.cell)
    (hcode : Os.Placed o.pc (.ref (.lea ptr) p :: Os.printCode (o.pc + 1) ptr ch scratch a))
    (hregs : [ptr, ch, scratch].Nodup) (hmessage : Os.Message p text) :
    ∃ general, (∀ r ∉ [ptr, ch, scratch], general r = o.general r) ∧
      o.Leads { o with
        pc := a
        general
        condition := some .zero
        shown := o.shown ++ (Text.utf16 text).map (·.setWidth 8) } := by
  obtain ⟨hlea, hcode⟩ := hcode
  have hpoint := lea (hup.lies hlea)
  have hstring := hmessage.isString hup
  rw [← Function.update_self ptr p o.general] at hstring
  obtain ⟨general, hkept, hprint⟩ := print (o := o.next.put ptr p) hup (hup.code hcode) hregs
    hstring
  refine ⟨general, fun r hr => ?_, hpoint.trans hprint⟩
  have hne : r ≠ ptr := fun hne => hr (by simp [hne])
  rw [hkept r hr]
  exact Function.update_of_ne hne _ _

end Outline.Leads

end Lc3
