import Lc3.Proofs.Image
import Lc3.Proofs.LabelMaps
import Lc3.Proofs.Status

/-!
# Loading

Main statement: loading a file puts its words where they go and binds its labels, and changes
nothing else. Of the labels that were there, those stay that no label of the file collides with, and
those that are labels of the file themselves.
-/

namespace Lc3

/-! ## Labels bound one after the other -/

namespace Store

variable {s : Store} {name : String} {addr start : Word} {ws : List Word}
  {bs : List (Word × String)} {e : Word × String}

@[simp] theorem labels_setLabel :
    (s.setLabel name addr).labels = s.labels.insert name addr := by
  rw [setLabel_eq]

theorem setLabels_cons {b : Word × String} :
    s.setLabels (b :: bs) = (s.setLabel b.2 b.1).setLabels bs := rfl

theorem labels_writeBlock : (s.writeBlock start ws).labels = s.labels := by
  induction ws generalizing s start with
  | nil => rfl
  | cons w ws ih => exact ih

/-- If no two of the new bindings collide, a later one never takes the place of an earlier one. -/
theorem mem_setLabels (hbs : bs.Pairwise fun a b => a.1 ≠ b.1 ∧ a.2 ≠ b.2) :
    e ∈ (s.setLabels bs).labels.entries ↔
      e ∈ bs ∨ e ∈ s.labels.entries ∧ ∀ b ∈ bs, e.1 ≠ b.1 ∧ e.2 ≠ b.2 := by
  induction hbs generalizing s with
  | nil => simp [setLabels]
  | @cons b bs hb _ ih =>
      have hself : e = b → ∀ b' ∈ bs, e.1 ≠ b'.1 ∧ e.2 ≠ b'.2 := by
        rintro rfl b' hb'
        exact hb b' hb'
      rw [setLabels_cons, ih, labels_setLabel, LabelTable.mem_insert, Prod.mk.eta, List.mem_cons,
        List.forall_mem_cons]
      tauto

theorem holds_setLabels {ms : LabelMaps} (h : ms.Holds s.labels) :
    (bs.foldl (fun ms b => (ms.insert b.2 b.1).2) ms).Holds (s.setLabels bs).labels := by
  induction bs generalizing ms s with
  | nil => exact h
  | cons b bs ih =>
      have hnext : (ms.insert b.2 b.1).2.Holds (s.setLabel b.2 b.1).labels := by
        rw [labels_setLabel]
        exact (h.insert b.2 b.1).2
      exact ih hnext

/-! ## What waits -/

theorem input_writeBlock : (s.writeBlock start ws).input = s.input := by
  induction ws generalizing s start with
  | nil => rfl
  | cons w ws ih => exact ih

theorem input_setLabels : (s.setLabels bs).input = s.input := by
  induction bs generalizing s with
  | nil => rfl
  | cons b bs ih =>
      rw [setLabels_cons, ih, setLabel_eq]

end Store

/-! ## Labels of a file -/

theorem Store.addrOf?_load {s : Store} {o : ObjectFile} {name : String} {addr : Word} :
    (s.load o).labels.addrOf? name = some addr ↔
      o.labels.addrOf? name = some addr ∨ s.labels.addrOf? name = some addr ∧
        o.labels.addrOf? name = none ∧ o.labels.nameAt? addr = none := by
  rw [load, LabelTable.addrOf?_eq_some_iff, mem_setLabels o.labels.pairwise_entries,
    labels_writeBlock, LabelTable.forall_ne_iff, LabelTable.addrOf?_eq_some_iff,
    LabelTable.addrOf?_eq_some_iff]

/-! ## Main statement -/

/-- `m'` is `m` with the words and the labels of a file. -/
structure Machine.Installs (m : Machine) (o : ObjectFile) (m' : Machine) : Prop where
  words : ∀ (i : Nat) (w : Word), o.words[i]? = some w →
    m'.store.read (o.orig + BitVec.ofNat 16 i) = w
  addressed : ∀ e ∈ o.addressed, m'.store.read e.1 = e.2
  elsewhere : ∀ a, (∀ i < o.words.length, o.orig + BitVec.ofNat 16 i ≠ a) →
    m'.store.read a = m.store.read a
  reg : ∀ r, m'.reg r = m.reg r
  input : m'.store.input = m.store.input
  devices : m'.devices = m.devices
  callDepth : m'.callDepth = m.callDepth
  stepCount : m'.stepCount = m.stepCount
  setup : m'.flags = m.flags ∧ m'.os = m.os
  symbols : ∀ name addr, o.labels.addrOf? name = some addr →
    m'.store.labels.addrOf? name = some addr ∧ m'.store.labels.nameAt? addr = some name
  kept : ∀ name addr, m.store.labels.addrOf? name = some addr →
    (m'.store.labels.addrOf? name = some addr ↔
      o.labels.addrOf? name = some addr ∨
        o.labels.addrOf? name = none ∧ o.labels.nameAt? addr = none)
  only : ∀ name addr, m'.store.labels.addrOf? name = some addr →
    o.labels.addrOf? name = some addr ∨ m.store.labels.addrOf? name = some addr
  inverse : ∀ name addr, m'.store.labels.addrOf? name = some addr ↔
    m'.store.labels.nameAt? addr = some name
  maps : ∀ ms : LabelMaps, ms.Holds m.store.labels →
    (o.labels.entries.foldl (fun ms e => (ms.insert e.2 e.1).2) ms).Holds m'.store.labels

namespace Machine

variable {m : Machine} {o : ObjectFile}

theorem read_load {i : Nat} {w : Word} (h : o.words.length ≤ memorySize)
    (hw : o.words[i]? = some w) :
    (m.load o).store.read (o.orig + BitVec.ofNat 16 i) = w :=
  Store.read_setLabels.trans (Store.read_writeBlock h hw)

/-- Loading a file of no more words than there are cells puts every word into its cell, the block
going on at address 0 after the last one. Every label of the file is bound, whatever was bound
before; a label from before goes exactly if one of the file has its name or its address, unless that
is the same label. -/
theorem load_installs (m : Machine) (o : ObjectFile) (h : o.words.length ≤ memorySize) :
    m.Installs o (m.load o) where
  words := fun _ _ hw => read_load h hw
  addressed := by
    intro e he
    obtain ⟨i, hw, heq⟩ := ObjectFile.mem_addressed.1 he
    rw [heq]
    exact read_load h hw
  elsewhere := fun _ ha => Store.read_setLabels.trans (Store.read_writeBlock_of_ne ha)
  reg := fun _ => Store.reg_load
  input := Store.input_setLabels.trans Store.input_writeBlock
  devices := rfl
  callDepth := rfl
  stepCount := rfl
  setup := ⟨rfl, rfl⟩
  symbols := by
    intro name addr hsymbol
    have hbound : (m.load o).store.labels.addrOf? name = some addr :=
      Store.addrOf?_load.2 (.inl hsymbol)
    exact ⟨hbound, LabelTable.addrOf?_iff_nameAt?.1 hbound⟩
  kept := by
    intro name addr hbefore
    refine Store.addrOf?_load.trans (or_congr_right ?_)
    exact and_iff_right hbefore
  only := by
    intro name addr hafter
    exact (Store.addrOf?_load.1 hafter).imp_right And.left
  inverse := fun _ _ => LabelTable.addrOf?_iff_nameAt?
  maps := by
    intro ms hms
    exact Store.holds_setLabels (Store.labels_writeBlock.symm ▸ hms)

/-- Two words around the end of memory, over an operating system with four labels: of these one
moves, one loses its address, one is a label of the file as well, and one is left alone. -/
theorem load_installs_wrapped :
    let os : OsImage := ⟨0, [0x1234, 0x5678],
      .ofList [("MOVED", 0x10), ("LOST", 0x11), ("BOTH", 0x12), ("FAR", 0x13)]⟩
    let o : ObjectFile :=
      ⟨0xFFFF, [0xAAAA, 0xBBBB], .ofList [("MOVED", 0x20), ("TAKEN", 0x11), ("BOTH", 0x12)]⟩
    let m := new {} os
    let m' := m.load o
    o.words.length ≤ memorySize ∧
      m'.store.read 0xFFFF = 0xAAAA ∧ m'.store.read 0 = 0xBBBB ∧ m'.store.read 1 = 0x5678 ∧
      m'.reg .pc = 0x3000 ∧
      m'.store.labels.addrOf? "MOVED" = some 0x20 ∧ m'.store.labels.nameAt? 0x11 = some "TAKEN" ∧
      m'.store.labels.addrOf? "LOST" ≠ some 0x11 ∧ m'.store.labels.addrOf? "BOTH" = some 0x12 ∧
      m'.store.labels.addrOf? "FAR" = some 0x13 := by
  intro os o m m'
  have hlen : o.words.length ≤ memorySize := by decide
  have h : m.Installs o m' := load_installs m o hlen
  have hfirst : m'.store.read 0xFFFF = 0xAAAA := h.addressed (0xFFFF, 0xAAAA) (by decide)
  have hsecond : m'.store.read 0 = 0xBBBB := h.addressed (0, 0xBBBB) (by decide)
  have hother : m'.store.read 1 = m.store.read 1 := h.elsewhere 1 (by decide)
  have hpc : m'.reg .pc = m.reg .pc := h.reg .pc
  have hmoved := h.symbols "MOVED" 0x20 (by decide)
  have htaken := h.symbols "TAKEN" 0x11 (by decide)
  have hlost := h.kept "LOST" 0x11 (by decide)
  have hboth := h.kept "BOTH" 0x12 (by decide)
  have hfar := h.kept "FAR" 0x13 (by decide)
  exact ⟨hlen, hfirst, hsecond, hother.trans (by decide), hpc.trans (by decide), hmoved.1,
    htaken.2, fun hbound => absurd (hlost.1 hbound) (by decide), hboth.2 (.inl (by decide)),
    hfar.2 (.inr (by decide))⟩

end Machine

end Lc3
