import Mathlib.Data.Finset.Dedup
import Mathlib.Data.Finset.Erase
import Mathlib.Data.Finset.SDiff
import Lc3.Proofs.Access
import Lc3.Proofs.LabelTable

/-!
# Replaying events

A view is what a subscriber can know of the machine without looking at it. Main statement: a
subscriber that starts from a view of the machine and follows the events sees what the machine is,
whatever is done to it, and no event is out of place.
-/

namespace Lc3

/-- The part of a machine's state that events tell of. -/
structure View where
  memory : Memory
  register : Register → Word
  labels : Finset (Word × String)

namespace View

/-- What is seen after an event. -/
def follow (v : View) : Event → View
  | .memory addr value => { v with memory := v.memory.set addr value }
  | .register r value => { v with register := Function.update v.register r value }
  | .labelSet addr name => { v with labels := insert (addr, name) v.labels }
  | .labelUnset addr name => { v with labels := v.labels.erase (addr, name) }
  | .input _ | .output _ => v

/-- What is seen after some events. -/
def replay (v : View) (es : List Event) : View := es.foldl follow v

/-- An event is in place: a binding that it removes is there, and one that it adds collides with
none. -/
def Fits (v : View) : Event → Prop
  | .labelSet addr name => ∀ e ∈ v.labels, e.1 ≠ addr ∧ e.2 ≠ name
  | .labelUnset addr name => (addr, name) ∈ v.labels
  | _ => True

/-- Every event is in place when those before it have been followed. -/
def FitsAll (v : View) : List Event → Prop
  | [] => True
  | e :: es => v.Fits e ∧ (v.follow e).FitsAll es

variable {v : View} {es es' : List Event}

theorem replay_append : v.replay (es ++ es') = (v.replay es).replay es' := List.foldl_append

theorem FitsAll.append (h : v.FitsAll es) (h' : (v.replay es).FitsAll es') :
    v.FitsAll (es ++ es') := by
  induction es generalizing v with
  | nil => exact h'
  | cons e es ih => exact ⟨h.1, ih h.2 h'⟩

/-- The events that bindings are removed, one after the other. -/
def removals (bs : List (Word × String)) : List Event := bs.map fun b => .labelUnset b.1 b.2

theorem replay_removals {bs : List (Word × String)} :
    v.replay (removals bs) = { v with labels := v.labels \ bs.toFinset } := by
  induction bs generalizing v with
  | nil => simp [removals, replay]
  | cons b bs ih =>
      have hsdiff : v.labels.erase b \ bs.toFinset = v.labels \ (b :: bs).toFinset := by
        ext c
        simp only [Finset.mem_sdiff, Finset.mem_erase, List.mem_toFinset, List.mem_cons]
        tauto
      rw [← hsdiff]
      exact ih (v := { v with labels := v.labels.erase b })

theorem fitsAll_removals {bs : List (Word × String)} (hmem : ∀ b ∈ bs, b ∈ v.labels)
    (hnodup : bs.Nodup) : v.FitsAll (removals bs) := by
  induction bs generalizing v with
  | nil => trivial
  | cons b bs ih =>
      obtain ⟨hb, hnodup⟩ := List.nodup_cons.1 hnodup
      refine ⟨hmem b List.mem_cons_self, ih (fun c hc => ?_) hnodup⟩
      have hne : c ≠ b := fun h => hb (h ▸ hc)
      exact Finset.mem_erase.2 ⟨hne, hmem c (List.mem_cons_of_mem b hc)⟩

end View

/-! ## What subscribers hear -/

namespace Observer

variable {o : Observer} {sub : Nat} {ws : List Event}

theorem exists_held (h : o.waiting? sub = some ws) :
    ∃ box, o.boxes[sub]? = some (.held box) ∧ box.toList = ws := by
  obtain ⟨box, hbox, hw⟩ := Option.bind_eq_some_iff.1 h
  cases box with
  | held box => exact ⟨box, hbox, Option.some.inj hw⟩
  | abandoned => cases hw
  | closed => cases hw

theorem waiting?_emit {e : Event} (h : o.waiting? sub = some ws) :
    (o.emit e).waiting? sub = some (ws ++ [e]) := by
  obtain ⟨box, hbox, rfl⟩ := exists_held h
  simp [waiting?, emit, hbox, Mailbox.deliver, Mailbox.waiting?]

theorem waiting?_subscribe (h : o.waiting? sub = some ws) : o.subscribe.waiting? sub = some ws := by
  obtain ⟨box, hbox, rfl⟩ := exists_held h
  obtain ⟨hlt, -⟩ := List.getElem?_eq_some_iff.1 hbox
  rw [waiting?, subscribe, List.getElem?_append_left hlt, hbox]
  rfl

theorem waiting?_next : o.subscribe.waiting? o.next = some [] := by
  simp [waiting?, subscribe, next, Mailbox.waiting?]

end Observer

namespace Store

variable {s s' s'' : Store} {es es' : List Event} {e : Event}

/-- Every subscriber of `s` hears `es` on the way to `s'`. -/
def Sends (s : Store) (es : List Event) (s' : Store) : Prop :=
  ∀ sub ws, s.observer.waiting? sub = some ws → s'.observer.waiting? sub = some (ws ++ es)

theorem Sends.of_emit (h : s'.observer = es.foldl Observer.emit s.observer) : s.Sends es s' := by
  intro sub ws hw
  rw [h]
  clear h
  generalize s.observer = o at hw ⊢
  induction es generalizing o ws with
  | nil => rwa [List.append_nil]
  | cons e es ih =>
      rw [List.foldl_cons, List.append_cons]
      exact ih _ _ (Observer.waiting?_emit hw)

theorem Sends.trans (h : s.Sends es s') (h' : s'.Sends es' s'') : s.Sends (es ++ es') s'' := by
  intro sub ws hw
  rw [← List.append_assoc]
  exact h' sub _ (h sub ws hw)

/-! ## Changes that can be followed -/

/-- What events tell of a store. -/
def view (s : Store) : View := ⟨s.memory, s.reg, s.labels.entries.toFinset⟩

/-- A change of the store that `es` tell of. -/
structure Announces (s : Store) (es : List Event) (s' : Store) : Prop where
  sends : s.Sends es s'
  fits : s.view.FitsAll es
  view : s.view.replay es = s'.view

theorem Announces.trans (h : s.Announces es s') (h' : s'.Announces es' s'') :
    s.Announces (es ++ es') s'' where
  sends := h.sends.trans h'.sends
  fits := h.fits.append (h.view ▸ h'.fits)
  view := by rw [View.replay_append, h.view, h'.view]

theorem Announces.one (hsend : s'.observer = s.observer.emit e) (hfits : s.view.Fits e)
    (hview : s.view.follow e = s'.view) : s.Announces [e] s' :=
  ⟨.of_emit hsend, ⟨hfits, trivial⟩, hview⟩

/-- Subscribers can follow the change. -/
def Tells (s s' : Store) : Prop := ∃ es, s.Announces es s'

theorem Tells.of_silent (hsend : s.Sends [] s') (hview : s.view = s'.view) : s.Tells s' :=
  ⟨[], hsend, trivial, hview⟩

theorem Tells.refl (s : Store) : s.Tells s := .of_silent (.of_emit rfl) rfl

theorem Tells.trans (h : s.Tells s') (h' : s'.Tells s'') : s.Tells s'' := by
  obtain ⟨es, h⟩ := h
  obtain ⟨es', h'⟩ := h'
  exact ⟨es ++ es', h.trans h'⟩

theorem Tells.foldl {α : Type} {f : Store → α → Store} (h : ∀ (s : Store) a, s.Tells (f s a))
    (s : Store) (as : List α) : s.Tells (as.foldl f s) := by
  induction as generalizing s with
  | nil => exact .refl s
  | cons a as ih => exact (h s a).trans (ih (f s a))

/-! ### Memory, registers and characters -/

theorem tells_write (s : Store) (addr value : Word) : s.Tells (s.write addr value) := by
  refine ⟨_, .one rfl trivial ?_⟩
  have hreg : s.reg = (s.write addr value).reg := funext fun r => reg_write.symm
  rw [view, view, ← hreg]
  rfl

theorem tells_writeBlock (s : Store) (start : Word) (words : List Word) :
    s.Tells (s.writeBlock start words) := by
  induction words generalizing s start with
  | nil => exact .refl s
  | cons w ws ih => exact (tells_write s start w).trans (ih _ _)

theorem tells_setReg (s : Store) (r : Register) (value : Word) : s.Tells (s.setReg r value) := by
  refine ⟨_, .one (e := .register r value) (by cases r <;> rfl) trivial ?_⟩
  have hmem : (s.setReg r value).memory = s.memory := by cases r <;> rfl
  have hlabels : (s.setReg r value).labels = s.labels := by cases r <;> rfl
  have hreg : (s.setReg r value).reg = Function.update s.reg r value := by
    funext r'
    rw [reg_setReg, Function.update_apply]
    simp only [eq_comm]
  rw [view, view, hmem, hlabels, hreg]
  rfl

theorem tells_queue (s : Store) (ch : Byte) : s.Tells (s.queue ch) :=
  ⟨_, .one rfl trivial (by cases s; rfl)⟩

theorem tells_output (s : Store) (ch : Byte) : s.Tells (s.output ch) :=
  ⟨_, .one rfl trivial rfl⟩

theorem tells_setInput (s : Store) (input : List Byte) : s.Tells { s with input } :=
  .of_silent (.of_emit rfl) rfl

theorem tells_subscribe (s : Store) : s.Tells s.subscribe := by
  refine .of_silent (fun sub ws hw => ?_) rfl
  rw [List.append_nil]
  exact Observer.waiting?_subscribe hw

/-! ### Labels -/

theorem foldl_removals (s : Store) (bs : List (Word × String)) :
    bs.foldl (fun s b => s.emit (.labelUnset b.1 b.2)) s =
      { s with observer := (View.removals bs).foldl Observer.emit s.observer } := by
  induction bs generalizing s with
  | nil => rfl
  | cons b bs ih => exact ih (s.emit (.labelUnset b.1 b.2))

theorem setLabel_eq (s : Store) (name : String) (addr : Word) :
    s.setLabel name addr =
      { s with
        labels := s.labels.insert name addr
        observer := (View.removals (s.labels.evicted name addr) ++ [Event.labelSet addr name]).foldl
          Observer.emit s.observer } := by
  rw [setLabel, foldl_removals, List.foldl_append]
  rfl

theorem tells_setLabel (s : Store) (name : String) (addr : Word) :
    s.Tells (s.setLabel name addr) := by
  let bs := s.labels.evicted name addr
  have hmem (b : Word × String) :
      b ∈ bs ↔ b ∈ s.labels.entries ∧ (b.1 = addr ∨ b.2 = name) := LabelTable.mem_evicted
  have hrest : s.view.replay (View.removals bs) =
      { s.view with labels := s.view.labels \ bs.toFinset } := View.replay_removals
  rw [setLabel_eq]
  refine ⟨View.removals bs ++ [.labelSet addr name], .of_emit rfl, .append ?_ ⟨?_, trivial⟩, ?_⟩
  · exact View.fitsAll_removals (fun b hb => List.mem_toFinset.2 ((hmem b).1 hb).1)
      LabelTable.nodup_evicted
  · -- Every binding with this address or name has just been removed.
    intro b hb
    rw [hrest] at hb
    obtain ⟨hb, hnot⟩ := Finset.mem_sdiff.1 hb
    rw [List.mem_toFinset, hmem] at hnot
    have := List.mem_toFinset.1 hb
    tauto
  · have hlabels : insert (addr, name) (s.view.labels \ bs.toFinset) =
        (s.labels.insert name addr).entries.toFinset := by
      ext b
      simp only [view, Finset.mem_insert, Finset.mem_sdiff, List.mem_toFinset, hmem,
        LabelTable.mem_insert]
      tauto
    rw [View.replay_append, hrest]
    exact congrArg (View.mk s.memory s.reg) hlabels

theorem tells_unsetAddr (s : Store) (addr : Word) : s.Tells (s.unsetAddr addr) := by
  unfold unsetAddr
  split
  case h_1 name hname =>
    have hmem := LabelTable.nameAt?_eq_some_iff.1 hname
    have hlabels : s.view.labels.erase (addr, name) =
        (s.labels.eraseAddr addr).entries.toFinset := by
      ext b
      simp only [view, Finset.mem_erase, List.mem_toFinset, LabelTable.mem_eraseAddr hmem]
    refine ⟨_, .one rfl (List.mem_toFinset.2 hmem) ?_⟩
    rw [View.follow, hlabels]
    rfl
  case h_2 => exact .refl s

theorem tells_unsetName (s : Store) (name : String) : s.Tells (s.unsetName name) := by
  unfold unsetName
  split
  case h_1 addr haddr =>
    have hmem := LabelTable.addrOf?_eq_some_iff.1 haddr
    have hlabels : s.view.labels.erase (addr, name) =
        (s.labels.eraseName name).entries.toFinset := by
      ext b
      simp only [view, Finset.mem_erase, List.mem_toFinset, LabelTable.mem_eraseName hmem]
    refine ⟨_, .one rfl (List.mem_toFinset.2 hmem) ?_⟩
    rw [View.follow, hlabels]
    rfl
  case h_2 => exact .refl s

theorem tells_setLabels (s : Store) (bindings : List (Word × String)) :
    s.Tells (s.setLabels bindings) :=
  .foldl (fun s (b : Word × String) => tells_setLabel s b.2 b.1) s bindings

/-! ### Starting over -/

theorem tells_ensure (s : Store) (addr value : Word) : s.Tells (s.ensure addr value) := by
  unfold ensure
  split
  · exact .refl s
  · exact tells_write s addr value

theorem tells_ensureReg (s : Store) (r : Register) (value : Word) :
    s.Tells (s.ensureReg r value) := by
  unfold ensureReg
  split
  · exact .refl s
  · exact tells_setReg s r value

theorem tells_reset (s : Store) (fill : Fill) : s.Tells (s.reset fill) := by
  have hlabels : s.Tells s.clearLabels :=
    .foldl (fun s (b : Word × String) => tells_unsetAddr s b.1) s _
  have hmem := Tells.foldl (fun s a => tells_ensure s a ((new fill).read a)) s.clearLabels addresses
  have hregs := Tells.foldl (fun s r => tells_ensureReg s r ((new fill).reg r))
    (addresses.foldl (fun s a => s.ensure a ((new fill).read a)) s.clearLabels) Register.all
  exact ((hlabels.trans hmem).trans hregs).trans (tells_setInput _ [])

theorem tells_load (s : Store) (o : ObjectFile) : s.Tells (s.load o) :=
  (tells_writeBlock s _ _).trans (tells_setLabels _ _)

theorem tells_edit (s : Store) (e : Edit) : s.Tells (s.edit e) := by
  cases e with
  | write addr value => exact tells_write s addr value
  | writeBlock start words => exact tells_writeBlock s start words
  | setReg r value => exact tells_setReg s r value
  | setLabel name addr => exact tells_setLabel s name addr
  | unsetAddr addr => exact tells_unsetAddr s addr
  | unsetName name => exact tells_unsetName s name
  | queue ch => exact tells_queue s ch
  | dropInput => exact tells_setInput s _
  | output ch => exact tells_output s ch
  | subscribe => exact tells_subscribe s
  | reset fill => exact tells_reset s fill

end Store

/-! ## The machine -/

namespace Machine

variable {m : Machine}

theorem tells_exchange (m : Machine) : m.store.Tells m.exchange.store := by
  have hk : m.store.Tells (m.devices.keyboard.update m.store).2 := by
    unfold Keyboard.update
    split
    · exact .refl _
    · split
      · exact .refl _
      · exact ((Store.tells_setInput _ _).trans (Store.tells_write _ _ _)).trans
          (Store.tells_write _ _ _)
  have hd (s : Store) : s.Tells (m.devices.display.update s).2 := by
    unfold Display.update
    split
    · exact .refl _
    · exact (Store.tells_output _ _).trans (Store.tells_write _ _ _)
  exact hk.trans (hd _)

theorem tells_access (m : Machine) (a : Access) : m.store.Tells (m.access a).store := by
  cases a with
  | exchange => exact tells_exchange m
  | read addr =>
      rw [access, read_eq]
      split
      · exact Store.tells_write _ _ _
      · exact .refl _
  | write addr value =>
      rw [access, write_eq]
      split
      · exact (Store.tells_write _ _ _).trans (Store.tells_write _ _ _)
      · exact Store.tells_write _ _ _
  | setReg r value => exact Store.tells_setReg _ r value
  | setClock on => exact Store.tells_write _ _ _
  | type ch => exact Store.tells_queue _ ch

theorem tells_walk (m : Machine) (as : List Access) : m.store.Tells (m.walk as).store := by
  induction as generalizing m with
  | nil => exact .refl _
  | cons a as ih => exact (tells_access m a).trans (ih _)

theorem tells_powerOn (m : Machine) : m.store.Tells (powerOn m).store := by
  have hload := Store.tells_load m.store m.os
  have hpower : m.store.Tells (m.store.powerOn m.flags m.os) :=
    ((hload.trans (Store.tells_setReg _ _ _)).trans (Store.tells_setReg _ _ _)).trans
      (Store.tells_write _ _ _)
  have hkeyboard := (Store.tells_setInput (m.store.powerOn m.flags m.os) []).trans
    ((Store.tells_write _ DeviceReg.kbsr 0).trans (Store.tells_write _ DeviceReg.kbdr 0))
  exact (hpower.trans hkeyboard).trans
    ((Store.tells_write _ DeviceReg.dsr DeviceReg.readyBit).trans
      (Store.tells_write _ DeviceReg.ddr 0))

theorem tells_reset (m : Machine) : m.store.Tells m.reset.store :=
  (Store.tells_reset m.store m.flags.fill).trans
    (tells_powerOn { m with store := m.store.reset m.flags.fill, callDepth := 0, stepCount := 0 })

theorem tells_operate (m : Machine) (op : Operation) : m.store.Tells (m.operate op).store := by
  cases op with
  | act a =>
      cases a with
      | step => exact step_alike.store ▸ tells_walk m _
      | access a => exact tells_access m a
  | load o => exact Store.tells_load _ o
  | reset => exact tells_reset m
  | edit e => exact Store.tells_edit _ e
  | setFlags flags => exact .refl _

theorem tells_operateAll (m : Machine) (ops : List Operation) :
    m.store.Tells (m.operateAll ops).store := by
  induction ops generalizing m with
  | nil => exact .refl _
  | cons op ops ih => exact (tells_operate m op).trans (ih _)

/-- A subscriber that was told what a machine is when it came, and then follows every event, knows
what the machine is after any operations, and every binding is removed when it is there and added
when its address and its name are free. -/
theorem replay_operateAll (m : Machine) (ops : List Operation) :
    let m' := (m.onStore (·.subscribe)).operateAll ops
    ∃ es, m'.store.observer.waiting? m.store.observer.next = some es ∧
      m.store.view.FitsAll es ∧ m.store.view.replay es = m'.store.view := by
  intro m'
  obtain ⟨es, hsends, hfits, hview⟩ := tells_operateAll (m.onStore (·.subscribe)) ops
  exact ⟨es, hsends _ [] Observer.waiting?_next, hfits, hview⟩

end Machine

end Lc3
