import Lc3.Proofs.Access

/-!
# Every keystroke arrives once

Main statement: as long as only the keyboard writes its registers, what was typed is what the
keyboard has delivered and then what waits, and what it has delivered is what programs took and then
what is ready to be taken.
-/

namespace Lc3

/-! ## The ready bit -/

namespace Store

variable {s : Store} {a b v : Word} {on : Bool}

@[simp] theorem msb_withReady : (withReady v on).msb = on := by
  rw [withReady, BitVec.msb_append]
  cases on <;> simp

@[simp] theorem isReady_write : (s.write a v).isReady b = if a = b then v.msb else s.isReady b := by
  rw [isReady, read_write]
  split <;> rfl

@[simp] theorem isReady_setReg {r : Register} : (s.setReg r v).isReady b = s.isReady b := by
  rw [isReady, read_setReg, isReady]

theorem isReady_setReady_self : (s.setReady a on).isReady a = on := by
  simp [setReady]

theorem isReady_setReady_of_ne (h : a ≠ b) : (s.setReady a on).isReady b = s.isReady b := by
  simp [setReady, h]

@[simp] theorem input_setReg {r : Register} : (s.setReg r v).input = s.input := by
  cases r <;> rfl

end Store

/-! ## What the keyboard sees of a change -/

/-- The input and the keyboard's registers are as they were. -/
structure Store.SameKeys (s s' : Store) : Prop where
  input : s'.input = s.input
  status : s'.read DeviceReg.kbsr = s.read DeviceReg.kbsr
  data : s'.read DeviceReg.kbdr = s.read DeviceReg.kbdr

namespace Store.SameKeys

variable {s s' s'' : Store} {a v : Word}

theorem refl (s : Store) : s.SameKeys s := ⟨rfl, rfl, rfl⟩

theorem trans (h : s.SameKeys s') (h' : s'.SameKeys s'') : s.SameKeys s'' :=
  ⟨h'.input.trans h.input, h'.status.trans h.status, h'.data.trans h.data⟩

theorem ready (h : s.SameKeys s') :
    s'.isReady DeviceReg.kbsr = s.isReady DeviceReg.kbsr :=
  congrArg BitVec.msb h.status

theorem write (hkbsr : a ≠ DeviceReg.kbsr) (hkbdr : a ≠ DeviceReg.kbdr) :
    s.SameKeys (s.write a v) := by
  refine ⟨rfl, ?_, ?_⟩
  · simp [hkbsr]
  · simp [hkbdr]

theorem setReg {r : Register} : s.SameKeys (s.setReg r v) := ⟨by simp, by simp, by simp⟩

end Store.SameKeys

/-- The first character of the input went into the keyboard's data register. -/
structure Store.Delivers (ch : Byte) (s s' : Store) : Prop where
  input : s.input = ch :: s'.input
  status : s'.read DeviceReg.kbsr = withReady (s.read DeviceReg.kbsr) true
  data : s'.read DeviceReg.kbdr = ch.setWidth 16

namespace Store.Delivers

variable {s s' s'' : Store} {ch : Byte}

theorem ready (h : s.Delivers ch s') : s'.isReady DeviceReg.kbsr = true := by
  rw [isReady, h.status, msb_withReady]

theorem sameKeys (h : s.Delivers ch s') (hs : s'.SameKeys s'') : s.Delivers ch s'' :=
  ⟨hs.input ▸ h.input, hs.status.trans h.status, hs.data.trans h.data⟩

end Store.Delivers

namespace Machine

variable {m : Machine} {addr value : Word}

theorem sameKeys_display (d : Display) (s : Store) : s.SameKeys (d.update s).2 := by
  unfold Display.update
  split
  · exact .refl s
  · have hout : s.SameKeys (s.output ((s.read DeviceReg.ddr).setWidth 8)) := ⟨rfl, rfl, rfl⟩
    exact hout.trans (.write (a := DeviceReg.dsr) (by decide) (by decide))

theorem sameKeys_write (hkbsr : addr ≠ DeviceReg.kbsr) (hkbdr : addr ≠ DeviceReg.kbdr) :
    m.store.SameKeys (m.write addr value).store := by
  rw [write_eq]
  split
  · exact (Store.SameKeys.write hkbsr hkbdr).trans (.write (by decide) (by decide))
  · exact .write hkbsr hkbdr

theorem exchange_store : m.exchange.store =
    (m.devices.display.update (m.devices.keyboard.update m.store).2).2 := rfl

/-- In its turn the keyboard does nothing, when a character was not taken yet or none waits, or it
delivers the next character. -/
theorem exchange_cases (m : Machine) :
    ((m.store.isReady DeviceReg.kbsr ∨ m.store.input = []) ∧
      m.store.SameKeys m.exchange.store ∧ m.exchange.devices.keyboard = m.devices.keyboard) ∨
    ∃ ch, m.store.isReady DeviceReg.kbsr = false ∧ m.store.Delivers ch m.exchange.store ∧
      m.exchange.devices.keyboard = ⟨m.devices.keyboard.delivered + 1⟩ := by
  by_cases hidle : m.store.isReady DeviceReg.kbsr ∨ m.store.input = []
  · left
    have hupdate : m.devices.keyboard.update m.store = (m.devices.keyboard, m.store) := by
      unfold Keyboard.update
      rcases hidle with h | h <;> simp [h]
    have hdevices : m.exchange.devices.keyboard = (m.devices.keyboard.update m.store).1 := rfl
    refine ⟨hidle, ?_, by rw [hdevices, hupdate]⟩
    rw [exchange_store, hupdate]
    exact sameKeys_display _ _
  · right
    obtain ⟨hready, hinput⟩ := not_or.1 hidle
    have hready : m.store.isReady DeviceReg.kbsr = false := by simpa using hready
    obtain ⟨ch, rest, hinput⟩ := List.exists_cons_of_ne_nil hinput
    let s := (m.store.dropInput.write DeviceReg.kbdr (ch.setWidth 16)).setReady DeviceReg.kbsr true
    have hupdate : m.devices.keyboard.update m.store = (⟨m.devices.keyboard.delivered + 1⟩, s) := by
      unfold Keyboard.update
      simp [hready, hinput, s]
    have hdevices : m.exchange.devices.keyboard = (m.devices.keyboard.update m.store).1 := rfl
    have hdelivers : m.store.Delivers ch s := by
      have hne : DeviceReg.kbdr ≠ DeviceReg.kbsr := by decide
      refine ⟨?_, ?_, ?_⟩
      · rw [hinput]
        exact congrArg (ch :: ·) (congrArg List.tail hinput).symm
      · simp [s, Store.setReady, hne]
      · simp [s, Store.setReady, hne.symm]
    refine ⟨ch, hready, ?_, by rw [hdevices, hupdate]⟩
    rw [exchange_store, hupdate]
    exact hdelivers.sameKeys (sameKeys_display _ _)

end Machine

/-! ## The record of keystrokes -/

/-- What was typed, what the keyboard delivered, and what was read while the keyboard was ready. -/
structure Keystrokes where
  typed : List Byte
  delivered : List Byte
  taken : List Word
  deriving DecidableEq

/-- The character that the next exchange moves into the data register, if it takes one off the
input. -/
def Machine.moved (m : Machine) : List Byte :=
  if m.exchange.store.input.length < m.store.input.length then
    [(m.exchange.store.read DeviceReg.kbdr).setWidth 8]
  else []

namespace Keystrokes

/-- Nothing has happened yet. -/
def none : Keystrokes := ⟨[], [], []⟩

/-- The record after an access to `m`. -/
def note (k : Keystrokes) (m : Machine) : Access → Keystrokes
  | .type ch => { k with typed := k.typed ++ [ch] }
  | .exchange => { k with delivered := k.delivered ++ m.moved }
  | .read addr =>
    if addr = DeviceReg.kbdr ∧ m.store.isReady DeviceReg.kbsr then
      { k with taken := k.taken ++ [(m.read addr).1] }
    else k
  | _ => k

/-- The record after accesses, of which the first is to `m`. -/
def along (k : Keystrokes) (m : Machine) : List Access → Keystrokes
  | [] => k
  | a :: as => (k.note m a).along (m.access a) as

/-- Nothing is lost, repeated or out of order: what was typed is what was delivered and then what
waits; what was delivered is what was taken and then what is ready; and the keyboard counts
right. -/
structure Accounts (k : Keystrokes) (m : Machine) : Prop where
  typed : k.typed = k.delivered ++ m.store.input
  delivered : k.delivered.map (·.setWidth 16) =
    k.taken ++ if m.store.isReady DeviceReg.kbsr then [m.store.read DeviceReg.kbdr] else []
  count : m.devices.keyboard.delivered = k.delivered.length

end Keystrokes

namespace Access

/-- The address that an access writes. -/
def target? : Access → Option Word
  | .write addr _ => some addr
  | _ => none

/-- The access does not write the keyboard's registers. -/
def SparesKeyboard (a : Access) : Prop :=
  a.target? ≠ some DeviceReg.kbsr ∧ a.target? ≠ some DeviceReg.kbdr

instance : DecidablePred SparesKeyboard := fun _ => inferInstanceAs (Decidable (_ ∧ _))

end Access

namespace Keystrokes.Accounts

variable {k : Keystrokes} {m m' : Machine} {a : Access}

theorem of_sameKeys (h : k.Accounts m) (hs : m.store.SameKeys m'.store)
    (hd : m'.devices.keyboard = m.devices.keyboard) : k.Accounts m' where
  typed := by rw [hs.input, h.typed]
  delivered := by rw [hs.ready, hs.data, h.delivered]
  count := by rw [hd, h.count]

theorem exchange (h : k.Accounts m) : (k.note m .exchange).Accounts m.exchange := by
  obtain ⟨-, hs, hd⟩ | ⟨ch, hready, hs, hd⟩ := Machine.exchange_cases m
  · have hmoved : m.moved = [] := by simp [Machine.moved, hs.input]
    have hnote : k.note m .exchange = k := by simp [note, hmoved]
    rw [hnote]
    exact h.of_sameKeys hs hd
  · have hmoved : m.moved = [ch] := by simp [Machine.moved, hs.input, hs.data]
    have htaken : k.taken = k.delivered.map (·.setWidth 16) := by simp [h.delivered, hready]
    refine ⟨?_, ?_, ?_⟩
    · simp [note, hmoved, h.typed, hs.input]
    · simp [note, hmoved, hs.ready, hs.data, htaken]
    · simp [note, hmoved, hd, h.count]

theorem read {addr : Word} (h : k.Accounts m) :
    (k.note m (.read addr)).Accounts (m.read addr).2 := by
  by_cases haddr : addr = DeviceReg.kbdr
  · subst haddr
    have hread : (m.read DeviceReg.kbdr).2 = m.onStore (·.setReady DeviceReg.kbsr false) := by
      rw [Machine.read_eq, if_pos rfl]
    have hafter : (m.onStore (·.setReady DeviceReg.kbsr false)).store.isReady DeviceReg.kbsr =
        false := Store.isReady_setReady_self
    rw [hread]
    cases hready : m.store.isReady DeviceReg.kbsr with
    | true =>
        have hnote : k.note m (.read DeviceReg.kbdr) =
            { k with taken := k.taken ++ [m.store.read DeviceReg.kbdr] } := by
          simp [note, hready, Machine.read_eq]
        rw [hnote]
        exact ⟨h.typed, by simpa [hready, hafter] using h.delivered, h.count⟩
    | false =>
        have hnote : k.note m (.read DeviceReg.kbdr) = k := by simp [note, hready]
        rw [hnote]
        exact ⟨h.typed, by simpa [hready, hafter] using h.delivered, h.count⟩
  · have hnote : k.note m (.read addr) = k := by simp [note, haddr]
    rw [hnote, Machine.read_eq, if_neg haddr]
    exact h

theorem type {ch : Byte} (h : k.Accounts m) : (k.note m (.type ch)).Accounts (m.type ch) where
  typed := by
    change k.typed ++ [ch] = k.delivered ++ (m.store.input ++ [ch])
    rw [h.typed, List.append_assoc]
  delivered := h.delivered
  count := h.count

/-- Every access keeps the account. -/
theorem access (h : k.Accounts m) (ha : a.SparesKeyboard) : (k.note m a).Accounts (m.access a) := by
  cases a with
  | exchange => exact h.exchange
  | read addr => exact h.read
  | write addr value =>
      have hkbsr : addr ≠ DeviceReg.kbsr := fun haddr => ha.1 (congrArg some haddr)
      have hkbdr : addr ≠ DeviceReg.kbdr := fun haddr => ha.2 (congrArg some haddr)
      exact h.of_sameKeys (Machine.sameKeys_write hkbsr hkbdr) rfl
  | setReg r value => exact h.of_sameKeys .setReg rfl
  | setClock on => exact h.of_sameKeys (.write (by decide) (by decide)) rfl
  | type ch => exact h.type

theorem walk {as : List Access} (h : k.Accounts m) (has : ∀ a ∈ as, a.SparesKeyboard) :
    (k.along m as).Accounts (m.walk as) := by
  induction as generalizing k m with
  | nil => exact h
  | cons a as ih =>
      exact ih (h.access (has a List.mem_cons_self)) fun b hb => has b (List.mem_cons_of_mem a hb)

theorem powerOn (m : Machine) : none.Accounts m.powerOn := by
  have hready : m.powerOn.store.isReady DeviceReg.kbsr = false := by
    simp +decide [Machine.powerOn, Devices.reset, Keyboard.reset, Display.reset]
  exact ⟨rfl, by rw [hready]; rfl, rfl⟩

end Keystrokes.Accounts

namespace Machine

/-- The machine is new or was just reset. -/
def IsFresh (m : Machine) : Prop := (∃ flags os, m = new flags os) ∨ ∃ m', m = reset m'

theorem IsFresh.exists_powerOn {m : Machine} (h : m.IsFresh) : ∃ m', m = powerOn m' := by
  obtain ⟨flags, os, rfl⟩ | ⟨m', rfl⟩ := h
  · exact ⟨_, rfl⟩
  · exact ⟨_, rfl⟩

/-- In a run from power-on or reset in which only the keyboard writes its registers, the record
accounts for the machine after the run, and between any two accesses of it. -/
theorem keystrokes_account {m : Machine} {acts : List Action} (hm : m.IsFresh)
    (hspare : ∀ a ∈ m.trail acts, a.SparesKeyboard) :
    (Keystrokes.none.along m (m.trail acts)).Accounts (m.run acts) ∧
      ∀ as, as <+: m.trail acts → (Keystrokes.none.along m as).Accounts (m.walk as) := by
  obtain ⟨m, rfl⟩ := hm.exists_powerOn
  have hstart := Keystrokes.Accounts.powerOn m
  constructor
  · obtain ⟨hs, hd⟩ : (m.powerOn.run acts).Alike (m.powerOn.walk (m.powerOn.trail acts)) :=
      run_alike
    have hwalk := hstart.walk hspare
    exact ⟨by rw [hs, hwalk.typed], by rw [hs, hwalk.delivered], by rw [hd, hwalk.count]⟩
  · intro as has
    exact hstart.walk fun a ha => hspare a (has.subset ha)

/-- Two characters are typed, and an instruction takes the first through a pointer: the turn of the
devices before it delivers the first, and the one after it the second. -/
theorem keystrokes_account_pointer :
    let m := Machine.new {} ⟨0x3000, [0xA001, 0x0000, 0xFE02], .empty⟩
    let acts : List Action := [.access (.type 0x61), .access (.type 0x62), .step]
    let record : Keystrokes := ⟨[0x61, 0x62], [0x61, 0x62], [0x61]⟩
    m.IsFresh ∧ (∀ a ∈ m.trail acts, a.SparesKeyboard) ∧
      Keystrokes.none.along m (m.trail acts) = record ∧ record.Accounts (m.run acts) := by
  intro m acts record
  have hm : m.IsFresh := .inl ⟨_, _, rfl⟩
  have hspare : ∀ a ∈ m.trail acts, a.SparesKeyboard := by decide
  have hrecord : Keystrokes.none.along m (m.trail acts) = record := by decide
  exact ⟨hm, hspare, hrecord, hrecord ▸ (keystrokes_account hm hspare).1⟩

end Machine

end Lc3
