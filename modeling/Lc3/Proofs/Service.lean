import Lc3.Proofs.Routine

/-!
# The service routines

Main statement: a program that traps into `GETC`, `OUT`, `PUTS` or `IN` gets what the routine
promises, and goes on after the trap as if nothing else had happened.
-/

namespace Lc3

open Os (Up Code)

/-- The part of memory that is for programs. -/
def UserSpace (a : Word) : Prop := 0x3000 ≤ a ∧ a ≤ 0xFDFF

instance : DecidablePred UserSpace := fun _ => inferInstanceAs (Decidable (_ ∧ _))

theorem UserSpace.not_mem_ports {a : Word} (h : UserSpace a) : a ∉ DeviceReg.ports :=
  (DeviceReg.spared_of_lt (Nat.lt_succ_of_le h.2)).1

theorem UserSpace.not_mem_saved {a : Word} (h : UserSpace a) : a ∉ Os.saved := by
  have hall : Os.saved.all (fun a => ¬ UserSpace a) = true := by decide
  exact fun ha => of_decide_eq_true (List.all_eq_true.1 hall a ha) h

/-- What a service gives to a program that has `arg` in `R0` while `keys` can be read: the result in
`R0`, what is shown, and what can be read afterwards. -/
inductive Service.Gives (cell : Word → Word) (arg : Word) :
    (keys : List Word) → Service → (result : Word) → (shown : List Byte) → (rest : List Word) → Prop
  | getc {k ks} : Gives cell arg (k :: ks) .getc k [] ks
  | out {ks} : Gives cell arg ks .out arg [arg.setWidth 8] ks
  | puts {ks ws} (h : IsString UserSpace cell arg ws) :
      Gives cell arg ks .puts arg (ws.map (·.setWidth 8)) ks
  | input {k ks} : Gives cell arg (k :: ks) .input k
      ((Text.utf16 Os.prompt).map (·.setWidth 8) ++ [k.setWidth 8]) ks

theorem Service.Gives.imp {s : Service} {cell cell' : Word → Word} {arg result : Word}
    {keys rest : List Word} {shown : List Byte} (h : s.Gives cell arg keys result shown rest)
    (himp : ∀ a, UserSpace a → cell' a = cell a) : s.Gives cell' arg keys result shown rest := by
  cases h with
  | getc => exact .getc
  | out => exact .out
  | puts h => exact .puts (h.imp fun a ha => ⟨ha, himp a ha⟩)
  | input => exact .input

namespace Outline

variable {o : Outline}

/-- The routine that starts at `o` returns with a result, what it has shown, and what is left to
read. Of memory it changes its save cells only. -/
def Returns (o : Outline) (s : Service) (result : Word) (shown : List Byte) (rest : List Word) :
    Prop :=
  ∃ cell condition, (∀ a ∉ (Os.slots s).map (·.2), cell a = o.cell a) ∧ o.Leads { o with
    pc := o.general Reg.link
    general := Function.update o.general 0 result
    condition
    cell
    depth := o.depth - 1
    shown := o.shown ++ shown
    keys := rest }

/-- A routine that saves registers, works with these only, and restores them. -/
theorem returns_of_body {s : Service} {stop result : Word} {shown : List Byte} {rest : List Word}
    (hup : Up o.cell) (hsave : Os.Placed (Os.entry s) (Os.saveCode (Os.slots s)))
    (hrestore : Os.Placed stop (Os.restoreCode (Os.slots s) ++ [Os.ret]))
    (hsaved : ∀ e ∈ Os.slots s, o.general e.1 = Function.update o.general 0 result e.1)
    (hbody : ∀ cell, Up cell → (∀ a ∉ Os.saved, cell a = o.cell a) → ∃ general condition,
      (∀ r ∉ (Os.slots s).map (·.1), general r = Function.update o.general 0 result r) ∧
      Leads { o with pc := skip (Os.entry s) (Os.saveCode (Os.slots s)), cell } { o with
        pc := stop, general, condition, cell, shown := o.shown ++ shown, keys := rest }) :
    { o with pc := Os.entry s }.Returns s result shown rest := by
  have hslots : ∀ e ∈ Os.slots s, e.2 ∈ Os.saved := fun e he =>
    List.mem_flatMap.2 ⟨s, by cases s <;> decide, List.mem_map_of_mem he⟩
  obtain ⟨cell, hup', hother, hkept, hbefore⟩ := Leads.save (o := { o with pc := Os.entry s })
    (Os.slots s) hup hsave hslots (by cases s <;> decide)
  obtain ⟨general, condition, hgeneral, hruns⟩ := hbody cell hup' fun a ha =>
    hother a fun hslot => ha (by
      obtain ⟨e, he, rfl⟩ := List.mem_map.1 hslot
      exact hslots e he)
  obtain ⟨hcode, hret, -⟩ := along_append.1 (hup'.code hrestore)
  obtain ⟨general', condition', hrestored, hother', hafter⟩ := Leads.restore
    (o := { o with pc := stop, general, condition, cell, shown := o.shown ++ shown, keys := rest })
    (Os.slots s) hcode hslots (by cases s <;> decide)
  -- A saved register is restored, and of every other one the body says what it holds.
  have hresult : general' = Function.update o.general 0 result := by
    funext r
    by_cases hr : r ∈ (Os.slots s).map (·.1)
    · obtain ⟨e, he, rfl⟩ := List.mem_map.1 hr
      exact (hrestored e he).trans ((hkept e he).trans (hsaved e he))
    · exact (hother' r hr).trans (hgeneral r hr)
  subst hresult
  exact ⟨cell, condition', hother, ((hbefore.trans hruns).trans hafter).trans (.ret hret rfl)⟩

theorem returns_getc {k : Word} {ks : List Word} (hup : Up o.cell) (hkeys : o.keys = k :: ks) :
    { o with pc := Os.entry .getc }.Returns .getc k [] ks := by
  obtain ⟨hldi, hbr, hldi', hret, -⟩ := Os.placed_getc
  refine returns_of_body hup trivial ⟨hret, trivial⟩ (List.forall_mem_nil _) fun cell hup' _ => ?_
  rw [List.append_nil]
  exact ⟨_, _, fun _ _ => rfl, .read hup' (hup'.code ⟨hldi, hbr, hldi', trivial⟩) hkeys⟩

theorem returns_out (hup : Up o.cell) :
    { o with pc := Os.entry .out }.Returns .out (o.general 0) [(o.general 0).setWidth 8]
      o.keys := by
  obtain ⟨hst, hldi, hbr, hsti, hrestore⟩ := Os.placed_out
  refine returns_of_body hup ⟨hst, trivial⟩ hrestore (by simp) fun cell hup' _ => ?_
  refine ⟨_, _, fun r hr => ?_,
    .display hup' (hup'.code ⟨hldi, hbr, hsti, trivial⟩) (by decide) rfl⟩
  rw [Function.update_eq_self]
  exact Function.update_of_ne (fun hr' => hr (by simp [hr', Os.slots])) _ _

theorem returns_puts {ws : List Word} (hup : Up o.cell)
    (hstring : IsString UserSpace o.cell (o.general 0) ws) :
    { o with pc := Os.entry .puts }.Returns .puts (o.general 0) (ws.map (BitVec.setWidth 8))
      o.keys := by
  obtain ⟨hst₀, hst₁, hst₂, hldr, hbr, hldi, hwait, hsti, hadd, hloop, hrestore⟩ := Os.placed_puts
  refine returns_of_body hup ⟨hst₀, hst₁, hst₂, trivial⟩ hrestore (by simp)
    fun cell hup' hcell => ?_
  obtain ⟨general, hgeneral, hprint⟩ := Leads.print
    (o := { o with pc := 0x215, cell }) hup'
    (hup'.code ⟨hldr, hbr, hldi, hwait, hsti, hadd, hloop, trivial⟩) (by decide)
    (hstring.imp fun a ha => ⟨ha.not_mem_ports, hcell a ha.not_mem_saved⟩)
  refine ⟨general, _, fun r hr => ?_, hprint⟩
  rw [Function.update_eq_self]
  exact hgeneral r hr

theorem returns_input {k : Word} {ks : List Word} (hup : Up o.cell) (hkeys : o.keys = k :: ks) :
    { o with pc := Os.entry .input }.Returns .input k
      ((Text.utf16 Os.prompt).map (BitVec.setWidth 8) ++ [k.setWidth 8]) ks := by
  obtain ⟨hst₁, hst₂, hlea, hldr, hbr, hldi, hwait, hsti, hadd, hloop, hkbsr, hwait', hkbdr, hdsr,
    hwait'', hddr, hrestore⟩ := Os.placed_input
  refine returns_of_body hup ⟨hst₁, hst₂, trivial⟩ hrestore (by simp [Os.slots])
    fun cell hup' hcell => ?_
  obtain ⟨general, hgeneral, hprint⟩ := Leads.say (o := { o with pc := 0x225, cell }) hup'
    ⟨hlea, hldr, hbr, hldi, hwait, hsti, hadd, hloop, trivial⟩ (by decide) Os.message_prompt
  let asked : Outline := { o with
    pc := 0x22D
    general
    condition := some .zero
    cell
    shown := o.shown ++ (Text.utf16 Os.prompt).map (BitVec.setWidth 8) }
  have hread : asked.Leads { asked with
      pc := 0x230
      general := Function.update general 0 k
      condition := some (.ofValue k)
      keys := ks } :=
    .read hup' (hup'.code ⟨hkbsr, hwait', hkbdr, trivial⟩) hkeys
  have hecho : asked.Leads { asked with
      pc := 0x233
      general := Function.update (Function.update general 0 k) 1 (cell DeviceReg.dsr)
      condition := some .negative
      shown := asked.shown ++ [k.setWidth 8]
      keys := ks } :=
    hread.trans (.display hup' (hup'.code ⟨hdsr, hwait'', hddr, trivial⟩) (by decide)
      (Function.update_self 0 k general))
  rw [List.append_assoc] at hecho
  refine ⟨_, _, fun r hr => ?_, hprint.trans hecho⟩
  obtain ⟨hptr, hscratch⟩ : r ≠ 1 ∧ r ≠ 2 := by simpa [Os.slots] using hr
  rw [Function.update_of_ne hptr]
  by_cases hresult : r = 0
  · rw [hresult, Function.update_self, Function.update_self]
  · have hkept : r ∉ ([1, 2, 0] : List Reg) := by
      simp only [List.mem_cons, hptr, hscratch, hresult, List.not_mem_nil, or_self,
        not_false_eq_true]
    rw [Function.update_of_ne hresult, Function.update_of_ne hresult, hgeneral r hkept]

theorem returns_of_gives {s : Service} {result : Word} {shown : List Byte} {rest : List Word}
    (hup : Up o.cell) (h : s.Gives o.cell (o.general 0) o.keys result shown rest) :
    { o with pc := Os.entry s }.Returns s result shown rest := by
  obtain ⟨keys, hkeys⟩ : ∃ keys, o.keys = keys := ⟨_, rfl⟩
  rw [hkeys] at h
  cases h with
  | getc => exact returns_getc hup hkeys
  | out => exact hkeys ▸ returns_out hup
  | puts hstring => exact hkeys ▸ returns_puts hup hstring
  | input => exact returns_input hup hkeys

/-- A trap into a routine that returns leads to the next instruction. -/
theorem leads_of_returns {s : Service} {result : Word} {shown : List Byte} {rest : List Word}
    (hup : Up o.cell) (hport : o.pc ∉ DeviceReg.ports) (htrap : o.instr = .trap s.vector)
    (h : (o.next.call (Os.entry s)).Returns s result shown rest) :
    ∃ general cell condition, (∀ r ≠ Reg.link, general r = Function.update o.general 0 result r) ∧
      (∀ a ∉ (Os.slots s).map (·.2), cell a = o.cell a) ∧ o.Leads { o with
        pc := o.pc + 1
        general, condition, cell
        shown := o.shown ++ shown
        keys := rest } := by
  have hentry : o.cell (s.vector.setWidth 16) = Os.entry s :=
    hup.words _ _ (by cases s <;> decide)
  have htrap : o.Leads (o.next.call (Os.entry s)) :=
    .trap ⟨hport, htrap, trivial⟩ rfl (by cases s <;> decide) hentry
  obtain ⟨cell, condition, hcell, hreturn⟩ := h
  -- Of the registers, the trap itself changes the link register only.
  refine ⟨_, cell, condition, fun r hr => ?_, hcell, htrap.trans hreturn⟩
  have hcomm := Function.update_comm (by decide : Reg.link ≠ 0) (o.pc + 1) result o.general
  exact (congrFun hcomm r).trans (Function.update_of_ne hr _ _)

end Outline

namespace Machine

variable {m : Machine}

/-- Between `m` and `m'` a service has put a result into `R0`, shown something, and left characters
to be read. It has used the link register, the condition, the cells where it saves registers, and
those of the keyboard and the display; nothing else has changed. -/
structure Served (m : Machine) (s : Service) (result : Word) (shown : List Byte) (rest : List Word)
    (m' : Machine) : Prop where
  pc : m'.reg .pc = m.reg .pc + 1
  result : m'.reg (.general 0) = result
  general : ∀ r, r ≠ 0 → r ≠ Reg.link → m'.reg (.general r) = m.reg (.general r)
  mode : (m'.reg .psr).extractLsb' 3 13 = (m.reg .psr).extractLsb' 3 13
  depth : m'.callDepth = m.callDepth
  memory : ∀ a, a ∉ Os.saveCells s → a ∉ DeviceReg.ports → m'.store.read a = m.store.read a
  shown : m'.shown = m.shown ++ shown
  rest : m'.keys = rest

/-- A service is served if its routine returns. -/
theorem served_of_returns {s : Service} {result : Word} {shown : List Byte} {rest : List Word}
    (hos : Os.InMemory m.store.read) (hready : m.store.isReady DeviceReg.dsr)
    (hpc : UserSpace (m.reg .pc))
    (htrap : (m.store.read (m.reg .pc)).decode.instr = .trap s.vector)
    (h : (m.outline.next.call (Os.entry s)).Returns s result shown rest) :
    ∃ n, m.Served s result shown rest (m.steps n) := by
  have hat : m.At m.outline := ⟨rfl, hready⟩
  have hinstr : m.outline.instr = .trap s.vector :=
    (instr_outline hpc.not_mem_ports).trans htrap
  obtain ⟨general, cell, condition, hgeneral, hmemory, hleads⟩ := Outline.leads_of_returns
    (up_outline hos hready) hpc.not_mem_ports hinstr h
  obtain ⟨n, hn, -⟩ := hat.leads hleads
  have hreg : ∀ r, (m.steps n).reg (.general r) = general r := fun _ => hn.general
  refine ⟨n, congrArg Outline.pc hn.outline, ?_, fun r hr hlink => ?_,
    congrArg Outline.mode hn.outline, congrArg Outline.depth hn.outline, fun a ha hport => ?_,
    congrArg Outline.shown hn.outline, congrArg Outline.keys hn.outline⟩
  · rw [hreg, hgeneral 0 (by decide), Function.update_self]
  · rw [hreg, hgeneral r hlink, Function.update_of_ne hr]
    rfl
  · rw [Os.saveCells_eq] at ha
    rw [hn.store_read hport]
    exact (hmemory a ha).trans (cell_of_not_mem hport)

/-- A trap into a service is served, from every state in which the operating system is in memory,
the display is ready, and the service can give what it promises. -/
theorem trap_served {s : Service} {result : Word} {shown : List Byte} {rest : List Word}
    (hos : Os.InMemory m.store.read) (hready : m.store.isReady DeviceReg.dsr)
    (hpc : UserSpace (m.reg .pc))
    (htrap : (m.store.read (m.reg .pc)).decode.instr = .trap s.vector)
    (h : s.Gives m.store.read (m.reg (.general 0)) m.keys result shown rest) :
    ∃ n, m.Served s result shown rest (m.steps n) := by
  have hgives : s.Gives m.outline.cell (m.outline.general 0) m.outline.keys result shown rest :=
    h.imp fun a ha => cell_of_not_mem ha.not_mem_ports
  have hreturns := Outline.returns_of_gives (o := m.outline.next.call (Os.entry s))
    (up_outline hos hready) hgives
  exact served_of_returns hos hready hpc htrap hreturns

/-- Right after power-on, a program asks for a character, and one has been typed. -/
theorem trap_served_input :
    let m := ((new {} Os.standard).onStore (·.write 0x3000 0xF023)).type 0x61
    Os.InMemory m.store.read ∧ m.store.isReady DeviceReg.dsr = true ∧ UserSpace (m.reg .pc) ∧
      (m.store.read (m.reg .pc)).decode.instr = .trap Service.input.vector ∧ m.keys = [0x61] ∧
      ∃ n, m.Served .input 0x61 ((Text.utf16 Os.prompt).map (·.setWidth 8) ++ [0x61]) []
        (m.steps n) := by
  have hread : ∀ (m : Machine) a, ((m.onStore (·.write 0x3000 0xF023)).type 0x61).store.read a =
      if 0x3000 = a then 0xF023 else m.store.read a := fun _ _ => Store.read_write
  have hpc : ∀ m : Machine, ((m.onStore (·.write 0x3000 0xF023)).type 0x61).reg .pc = m.reg .pc :=
    fun _ => rfl
  have hkeys : ∀ m : Machine, (m.onStore (·.write 0x3000 0xF023)).keys = m.keys := fun m =>
    keys_of_sameKeys (Store.SameKeys.write (by decide) (by decide))
  intro m
  have hos : Os.InMemory m.store.read := by
    intro e he hfree
    have hne : 0x3000 ≠ e.1 := by
      intro heq
      exact absurd (Os.toNat_lt_of_mem he) (by rw [← heq]; decide)
    rw [hread, if_neg hne]
    exact Os.inMemory_new e he hfree
  have hready : m.store.isReady DeviceReg.dsr = true := by
    rw [Store.isReady, hread, if_neg (by decide)]
    exact isReady_powerOn
  have hpc : m.reg .pc = 0x3000 := (hpc _).trans pc_powerOn
  have hkeys : m.keys = [0x61] := by
    rw [keys_type, hkeys, new, keys_powerOn]
    rfl
  have hspace : UserSpace (m.reg .pc) := by
    rw [hpc]
    decide
  have htrap : (m.store.read (m.reg .pc)).decode.instr = .trap Service.input.vector := by
    rw [hpc, hread, if_pos rfl]
    rfl
  refine ⟨hos, hready, hspace, htrap, hkeys, trap_served hos hready hspace htrap ?_⟩
  rw [hkeys]
  exact .input

end Machine

end Lc3
