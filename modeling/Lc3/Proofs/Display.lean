import Lc3.Proofs.Keyboard
import Lc3.Proofs.Replay

/-!
# What the display shows

Main statement: a step shows the character that its instruction stores into the display's data
register, or the one that is there already if the instruction makes the display not ready, and
nothing else; and the events say the same.
-/

namespace Lc3

/-- The character that an event says went out. -/
def Event.output? : Event → Option Byte
  | .output ch => some ch
  | _ => none

/-! ## Changes that leave the display's registers alone -/

/-- The display's registers are as they were. -/
structure Store.SameDisplay (s s' : Store) : Prop where
  status : s'.read DeviceReg.dsr = s.read DeviceReg.dsr
  data : s'.read DeviceReg.ddr = s.read DeviceReg.ddr

namespace Store.SameDisplay

variable {s s' s'' : Store} {a v : Word} {r : Register}

theorem refl (s : Store) : s.SameDisplay s := ⟨rfl, rfl⟩

theorem trans (h : s.SameDisplay s') (h' : s'.SameDisplay s'') : s.SameDisplay s'' :=
  ⟨h'.status.trans h.status, h'.data.trans h.data⟩

theorem ready (h : s.SameDisplay s') : s'.isReady DeviceReg.dsr = s.isReady DeviceReg.dsr :=
  congrArg BitVec.msb h.status

theorem write (hdsr : a ≠ DeviceReg.dsr) (hddr : a ≠ DeviceReg.ddr) : s.SameDisplay (s.write a v) :=
  ⟨by simp [hdsr], by simp [hddr]⟩

theorem setReg : s.SameDisplay (s.setReg r v) := ⟨by simp, by simp⟩

theorem update (k : Keyboard) (s : Store) : s.SameDisplay (k.update s).2 := by
  unfold Keyboard.update
  split
  · exact .refl s
  · split
    · exact .refl s
    · have hdrop : s.SameDisplay s.dropInput := ⟨rfl, rfl⟩
      exact hdrop.trans ((write (a := DeviceReg.kbdr) (by decide) (by decide)).trans
        (write (a := DeviceReg.kbsr) (by decide) (by decide)))

end Store.SameDisplay

namespace Machine

variable {m m' m'' : Machine} {bytes bytes' : List Byte} {a : Access} {as : List Access}

/-- An access that writes nothing, and is no exchange, leaves the display's registers alone. -/
theorem sameDisplay_access (ha : a.target? = none) (hx : a ≠ .exchange) :
    m.store.SameDisplay (m.access a).store := by
  cases a with
  | exchange => exact absurd rfl hx
  | read addr =>
      rw [access, read_eq]
      split
      · exact .write (by decide) (by decide)
      · exact .refl _
  | write addr value => cases ha
  | setReg r value => exact .setReg
  | setClock on => exact .write (by decide) (by decide)
  | type ch => exact ⟨rfl, rfl⟩

theorem sameDisplay_walk (has : ∀ a ∈ as, a.target? = none ∧ a ≠ .exchange) :
    m.store.SameDisplay (m.walk as).store := by
  induction as generalizing m with
  | nil => exact .refl _
  | cons a as ih =>
      obtain ⟨ha, hx⟩ := has a List.mem_cons_self
      exact (sameDisplay_access ha hx).trans (ih fun b hb => has b (List.mem_cons_of_mem a hb))

/-! ## Showing characters -/

/-- Between `m` and `m'` the display shows `bytes`, and the events say so. -/
structure Shows (m : Machine) (bytes : List Byte) (m' : Machine) : Prop where
  shown : m'.shown = m.shown ++ bytes
  told : ∃ es, m.store.Sends es m'.store ∧ es.filterMap Event.output? = bytes

theorem Shows.trans (h : m.Shows bytes m') (h' : m'.Shows bytes' m'') :
    m.Shows (bytes ++ bytes') m'' := by
  obtain ⟨es, hs, he⟩ := h.told
  obtain ⟨es', hs', he'⟩ := h'.told
  refine ⟨?_, es ++ es', hs.trans hs', ?_⟩
  · rw [h'.shown, h.shown, List.append_assoc]
  · rw [List.filterMap_append, he, he']

/-- A change that sends no character. -/
theorem Shows.nothing (es : List Event) (hd : m'.devices.display = m.devices.display)
    (hs : m'.store.observer = es.foldl Observer.emit m.store.observer)
    (he : es.filterMap Event.output? = []) : m.Shows [] m' := by
  refine ⟨?_, es, .of_emit hs, he⟩
  rw [Machine.shown, Machine.shown, hd, List.append_nil]

theorem Shows.refl (m : Machine) : m.Shows [] m := .nothing [] rfl rfl rfl

theorem Shows.of_alike (h : m.Shows bytes m') (ha : m''.Alike m') : m.Shows bytes m'' := by
  obtain ⟨es, hs, he⟩ := h.told
  refine ⟨?_, es, ha.store ▸ hs, he⟩
  rw [Machine.shown, ha.devices]
  exact h.shown

theorem shows_access (hx : a ≠ .exchange) : m.Shows [] (m.access a) := by
  cases a with
  | exchange => exact absurd rfl hx
  | read addr =>
      rw [access, read_eq]
      split
      · exact .nothing [.memory DeviceReg.kbsr _] rfl rfl rfl
      · exact .refl m
  | write addr value =>
      rw [access, write_eq]
      split
      · exact .nothing [.memory _ _, .memory DeviceReg.dsr _] rfl rfl rfl
      · exact .nothing [.memory _ _] rfl rfl rfl
  | setReg r value => exact .nothing [.register r value] rfl (by cases r <;> rfl) rfl
  | setClock on => exact .nothing [.memory DeviceReg.mcr _] rfl rfl rfl
  | type ch => exact .nothing [.input ch] rfl rfl rfl

theorem shows_walk (has : ∀ a ∈ as, a ≠ .exchange) : m.Shows [] (m.walk as) := by
  induction as generalizing m with
  | nil => exact .refl m
  | cons a as ih =>
      exact (shows_access (has a List.mem_cons_self)).trans
        (ih fun b hb => has b (List.mem_cons_of_mem a hb))

/-! ## The turn of the devices -/

/-- What the display shows in its turn: the character in the data register, if it is not ready. -/
def due (m : Machine) : List Byte :=
  if m.store.isReady DeviceReg.dsr then [] else [(m.store.read DeviceReg.ddr).setWidth 8]

theorem isReady_exchange : m.exchange.store.isReady DeviceReg.dsr = true := by
  rw [exchange_store]
  unfold Display.update
  split
  · assumption
  · exact Store.isReady_setReady_self

theorem sends_keyboard (k : Keyboard) (s : Store) :
    ∃ es, s.Sends es (k.update s).2 ∧ es.filterMap Event.output? = [] := by
  unfold Keyboard.update
  split
  · exact ⟨[], .of_emit rfl, rfl⟩
  · split
    · exact ⟨[], .of_emit rfl, rfl⟩
    · exact ⟨[.memory DeviceReg.kbdr _, .memory DeviceReg.kbsr _], .of_emit rfl, rfl⟩

theorem shows_exchange : m.Shows m.due m.exchange := by
  let s := (m.devices.keyboard.update m.store).2
  obtain ⟨es, hs, he⟩ := sends_keyboard m.devices.keyboard m.store
  have hsame := Store.SameDisplay.update m.devices.keyboard m.store
  have hexchange : m.exchange = { m with
      store := (m.devices.display.update s).2
      devices := ⟨(m.devices.keyboard.update m.store).1, (m.devices.display.update s).1⟩ } := rfl
  unfold due
  rw [hexchange, ← hsame.ready, ← hsame.data]
  unfold Display.update
  split
  · exact ⟨(List.append_nil _).symm, es, hs, he⟩
  · refine ⟨Array.toList_push, es ++ [.output _, .memory DeviceReg.dsr _],
      hs.trans (.of_emit rfl), ?_⟩
    rw [List.filterMap_append, he]
    rfl

theorem sameDisplay_exchange (h : m.store.isReady DeviceReg.dsr) :
    m.store.SameDisplay m.exchange.store := by
  have hk := Store.SameDisplay.update m.devices.keyboard m.store
  have hidle : m.exchange.store = (m.devices.keyboard.update m.store).2 := by
    rw [exchange_store, Display.update, if_pos (hk.ready.trans h)]
  exact hidle ▸ hk

theorem sameDisplay_fetched (h : m.store.isReady DeviceReg.dsr) :
    m.store.SameDisplay m.fetched.store :=
  (sameDisplay_exchange h).trans (.trans .setReg .setReg)

/-! ## Steps -/

variable {addr value : Word} {i : Instr}

/-- The address and the word that an instruction stores, if it is a store. -/
def storeOf (m : Machine) (addr : Word) : Instr → Option (Word × Word)
  | .st sr _ | .str sr _ _ => some (addr, m.reg (.general sr))
  | .sti sr _ => some ((m.read addr).1, m.reg (.general sr))
  | _ => none

/-- What is shown when `value` is stored at `addr`: its low byte, if it goes into the display's data
register, or the one that is there, if it makes the display not ready. -/
def shownFor (m : Machine) (addr value : Word) : List Byte :=
  if addr = DeviceReg.ddr then [value.setWidth 8]
  else if addr = DeviceReg.dsr ∧ value.msb = false then
    [(m.store.read DeviceReg.ddr).setWidth 8]
  else []

/-- What the next step shows. -/
def printed (m : Machine) : List Byte :=
  match m.fetched.storeOf (m.fetched.address m.step.1.instr.mode) m.step.1.instr with
  | some (addr, value) => m.shownFor addr value
  | none => []

theorem exchange_not_mem_accesses : .exchange ∉ m.accesses addr i := by
  cases i with
  | br mask off => simp only [accesses]; split <;> simp
  | jsr target => cases target <;> simp [accesses, callAccesses]
  | _ => simp [accesses, resultAccesses, callAccesses]

theorem target?_of_mem_accesses (h : m.storeOf addr i = none) (ha : a ∈ m.accesses addr i) :
    a.target? = none := by
  cases i with
  | st | str | sti => cases h
  | br mask off =>
      simp only [accesses] at ha
      split at ha
      · rw [List.mem_singleton.1 ha]
        rfl
      · cases ha
  | jsr target => cases target <;> grind [accesses, callAccesses, Access.target?]
  | _ => grind [accesses, resultAccesses, callAccesses, Access.target?]

theorem due_of_sameDisplay (h : m.store.SameDisplay m'.store) : m'.due = m.due := by
  rw [due, due, h.ready, h.data]

theorem due_of_ready (h : m.store.isReady DeviceReg.dsr) : m.due = [] := if_pos h

theorem shownFor_of_sameDisplay (h : m.store.SameDisplay m'.store) :
    m'.shownFor addr value = m.shownFor addr value := by
  rw [shownFor, shownFor, h.data]

theorem due_write (h : m.store.isReady DeviceReg.dsr) :
    (m.write addr value).due = m.shownFor addr value := by
  rw [write_eq, due, shownFor]
  by_cases hddr : addr = DeviceReg.ddr
  · subst hddr
    have hready : ((m.store.write DeviceReg.ddr value).setReady DeviceReg.dsr false).isReady
        DeviceReg.dsr = false := Store.isReady_setReady_self
    have hdata : ((m.store.write DeviceReg.ddr value).setReady DeviceReg.dsr false).read
        DeviceReg.ddr = value := by
      rw [Store.read_setReady_of_ne (by decide), Store.read_write, if_pos rfl]
    simp [onStore, hready, hdata]
  · by_cases hdsr : addr = DeviceReg.dsr
    · subst hdsr
      cases hv : value.msb <;> simp [onStore, hv, hddr]
    · simp [onStore, hddr, hdsr, h]

theorem due_execute (h : m.store.isReady DeviceReg.dsr) :
    (m.execute addr i).due =
      match m.storeOf addr i with
      | some (a, v) => m.shownFor a v
      | none => [] := by
  cases hi : m.storeOf addr i with
  | none =>
      have hsame : m.store.SameDisplay (m.walk (m.accesses addr i)).store :=
        sameDisplay_walk fun a ha =>
          ⟨target?_of_mem_accesses hi ha, fun hx => exchange_not_mem_accesses (hx ▸ ha)⟩
      rw [← execute_alike.store] at hsame
      rw [due_of_sameDisplay hsame, due_of_ready h]
  | some stored =>
      cases i with
      | st sr off | str sr base off =>
          cases hi
          exact due_write h
      | sti sr off =>
          cases hi
          -- The pointer may be a register of the keyboard: reading it leaves the display alone.
          have hsame := sameDisplay_access (m := m) (a := .read addr) rfl (by simp)
          have hreg : (m.access (.read addr)).reg (.general sr) = m.reg (.general sr) := reg_read
          have hexecute : m.execute addr (.sti sr off) = (m.access (.read addr)).write
              (m.read addr).1 ((m.access (.read addr)).reg (.general sr)) := rfl
          rw [hexecute, hreg, due_write (hsame.ready.trans h)]
          exact shownFor_of_sameDisplay hsame
      | _ => cases hi

/-- A step of a machine whose display is ready shows what its instruction makes it show. -/
theorem shows_step (h : m.store.isReady DeviceReg.dsr) : m.Shows m.printed m.step.2 := by
  have hfetched : m.fetched.store.isReady DeviceReg.dsr := (sameDisplay_fetched h).ready.trans h
  have hfetch : m.Shows [] m.fetched := by
    have hexchange := shows_exchange (m := m)
    rw [due_of_ready h] at hexchange
    exact (hexchange.trans (shows_access (a := .setReg .ir _) (by simp))).trans
      (shows_access (a := .setReg .pc _) (by simp))
  have hexecute : m.fetched.Shows [] m.executed := by
    refine .of_alike (shows_walk fun a ha hx => ?_) execute_alike
    exact exchange_not_mem_accesses (hx ▸ ha)
  -- What the instruction stored is due when the devices have their turn after it.
  have hdue : m.executed.due = m.printed := by
    rw [executed, due_execute hfetched, printed]
    split <;> simp [shownFor_of_sameDisplay (sameDisplay_fetched h)]
  have hlast : m.executed.Shows m.executed.due m.step.2 := by
    obtain ⟨hshown, htold⟩ :=
      shows_exchange (m := { m.executed with stepCount := m.executed.stepCount + 1 })
    exact ⟨hshown, htold⟩
  rw [← hdue]
  exact (hfetch.trans hexecute).trans hlast

theorem isReady_steps (h : m.store.isReady DeviceReg.dsr) :
    ∀ n, (m.steps n).store.isReady DeviceReg.dsr
  | 0 => h
  | _ + 1 => isReady_exchange

/-- What was shown stays shown. -/
theorem shown_steps_prefix {k n : Nat} (h : m.store.isReady DeviceReg.dsr) (hkn : k ≤ n) :
    (m.steps k).shown <+: (m.steps n).shown := by
  induction n, hkn using Nat.le_induction with
  | base => exact List.prefix_rfl
  | succ n _ ih =>
      have hstep := shows_step (isReady_steps h n)
      exact ih.trans ⟨_, hstep.shown.symm⟩

/-- After a turn of the devices, and so after a step, the display is ready. A step of a machine
whose display is ready shows exactly what its instruction stores for the display, and a run shows
that of its steps, one after the other; events tell the same. -/
theorem display_exact (m : Machine) :
    m.exchange.store.isReady DeviceReg.dsr ∧ m.step.2.store.isReady DeviceReg.dsr ∧
      (m.store.isReady DeviceReg.dsr → m.Shows m.printed m.step.2 ∧
        ∀ n, m.Shows ((List.range n).flatMap fun k => (m.steps k).printed) (m.steps n)) := by
  refine ⟨isReady_exchange, isReady_exchange, fun h => ⟨shows_step h, fun n => ?_⟩⟩
  have hready : ∀ k, (m.steps k).store.isReady DeviceReg.dsr := by
    intro k
    cases k with
    | zero => exact h
    | succ k => exact isReady_exchange
  induction n with
  | zero => exact .refl m
  | succ n ih =>
      rw [List.range_succ, List.flatMap_append, List.flatMap_singleton]
      exact ih.trans (shows_step (hready n))

/-- A character is stored through a pointer to the data register, and shown a second time when a
word with bit 15 clear goes to the status register. -/
theorem display_exact_pointers :
    let m := Machine.new {}
      ⟨0x3000, [0x2003, 0xB003, 0xB203, 0x0000, 0x1241, 0xFE06, 0xFE04], .empty⟩
    m.store.isReady DeviceReg.dsr = true ∧ m.Shows [0x41, 0x41] (m.steps 3) := by
  intro m
  have hready : m.store.isReady DeviceReg.dsr = true := by decide
  have hbytes : ((List.range 3).flatMap fun k => (m.steps k).printed) = [0x41, 0x41] := by
    decide
  exact ⟨hready, hbytes ▸ ((display_exact m).2.2 hready).2 3⟩

end Machine

end Lc3
