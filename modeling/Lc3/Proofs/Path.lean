import Mathlib.Logic.Relation
import Lc3.Proofs.Outline

/-!
# Paths

A path leads from one outline to another, by steps that outlines tell. There is one lemma for each
instruction, and longer paths are made of them. Main statement: a machine goes along the paths of
its outline.
-/

namespace Lc3

/-! ## Listings -/

/-- What is said of an address and a thing is so of `a` and the first thing, the next address and
the next thing, and so on. -/
def Along {α : Type} (p : Word → α → Prop) (a : Word) : List α → Prop
  | [] => True
  | x :: xs => p a x ∧ Along p (a + 1) xs

instance Along.decidable {α : Type} {p : Word → α → Prop} [∀ a x, Decidable (p a x)] :
    ∀ a xs, Decidable (Along p a xs)
  | _, [] => .isTrue trivial
  | a, x :: xs =>
    have := decidable (p := p) (a + 1) xs
    inferInstanceAs (Decidable (p a x ∧ Along p (a + 1) xs))

theorem Along.imp {α : Type} {p q : Word → α → Prop} {a : Word} {xs : List α} (h : Along p a xs)
    (hpq : ∀ a x, p a x → q a x) : Along q a xs := by
  induction xs generalizing a with
  | nil => exact trivial
  | cons x xs ih => exact ⟨hpq _ _ h.1, ih h.2⟩

/-- The address after things that lie at `a` and the addresses after it. -/
def skip {α : Type} (a : Word) : List α → Word
  | [] => a
  | _ :: xs => skip (a + 1) xs

theorem along_append {α : Type} {p : Word → α → Prop} {a : Word} {xs ys : List α} :
    Along p a (xs ++ ys) ↔ Along p a xs ∧ Along p (skip a xs) ys := by
  induction xs generalizing a with
  | nil => exact (and_iff_right trivial).symm
  | cons x xs ih => exact (and_congr_right fun _ => ih).trans and_assoc.symm

/-- An instruction in a listing: as it is, or with an address in the place of its offset. -/
inductive Listed where
  | plain (i : Instr)
  | ref (i : BitVec 9 → Instr) (target : Word)

namespace Listed

/-- The offset from an instruction at `a` to an address. -/
def offset (a target : Word) : BitVec 9 := (target - (a + 1)).setWidth 9

/-- The instruction, when it is at `a`. -/
def instr (a : Word) : Listed → Instr
  | plain i => i
  | ref i target => i (offset a target)

/-- The address that is meant is in reach of the instruction. -/
def Reaches (a : Word) : Listed → Prop
  | plain _ => True
  | ref _ target => a + 1 + (offset a target).signExtend 16 = target

instance (a : Word) : DecidablePred (Reaches a)
  | plain _ => .isTrue trivial
  | ref _ target => inferInstanceAs (Decidable (a + 1 + (offset a target).signExtend 16 = target))

/-- The instruction is in memory at `a`. -/
structure Lies (cell : Word → Word) (a : Word) (l : Listed) : Prop where
  port : a ∉ DeviceReg.ports
  instr : (cell a).decode.instr = l.instr a
  reaches : l.Reaches a

end Listed

/-! ## Paths -/

namespace Outline

variable {o o' o'' : Outline} {dr sr base : Reg} {src : Operand 5} {mask vector : BitVec 8}
  {a p w : Word}

/-- A step that outlines tell, and that leaves the clock alone. -/
structure Goes (o o' : Outline) : Prop where
  plain : o.Plain
  step : o.step = o'
  clock : o'.cell DeviceReg.mcr = o.cell DeviceReg.mcr

/-- Steps lead from one outline to another. -/
def Leads : Outline → Outline → Prop := Relation.ReflTransGen Goes

/-- The instruction is the next one. -/
abbrev Has (o : Outline) (l : Listed) : Prop := l.Lies o.cell o.pc

theorem readable_of_not_mem (ha : a ∉ DeviceReg.ports) : o.Readable a := by
  simp only [DeviceReg.ports, List.mem_cons, List.not_mem_nil, or_false, not_or] at ha
  exact ⟨ha.2.2.2, fun hkbdr => absurd hkbdr ha.2.1⟩

/-- A word of ordinary memory is read as it is. -/
theorem put_look_of_not_mem (ha : a ∉ DeviceReg.ports) :
    (o.afterLook a).put dr (o.look a) = o.put dr (o.cell a) := by
  simp only [DeviceReg.ports, List.mem_cons, List.not_mem_nil, or_false, not_or] at ha
  rw [look, afterLook, if_neg ha.2.1, if_neg ha.2.1, if_neg ha.1]

theorem cell_afterLook : (o.afterLook a).cell = o.cell := by
  unfold afterLook
  split <;> rfl

theorem step_of_has {l : Listed} (hl : o.Has l) (ha : o.next.address (l.instr o.pc).mode = a)
    (ht : o.next.Tells a (l.instr o.pc)) (hexec : o.next.exec a (l.instr o.pc) = o') :
    o.Plain ∧ o.step = o' := by
  have hi : o.instr = l.instr o.pc := hl.instr
  subst ha
  rw [← hi] at ht hexec
  exact ⟨⟨hl.port, ht⟩, hexec⟩

namespace Leads

theorem refl (o : Outline) : o.Leads o := Relation.ReflTransGen.refl

theorem trans (h : o.Leads o') (h' : o'.Leads o'') : o.Leads o'' := Relation.ReflTransGen.trans h h'

theorem of_has {l : Listed} (hl : o.Has l) (ha : o.next.address (l.instr o.pc).mode = a)
    (ht : o.next.Tells a (l.instr o.pc)) (hexec : o.next.exec a (l.instr o.pc) = o')
    (hclock : o'.cell DeviceReg.mcr = o.cell DeviceReg.mcr) : o.Leads o' := by
  obtain ⟨hplain, hstep⟩ := step_of_has hl ha ht hexec
  exact .single ⟨hplain, hstep, hclock⟩

/-! ## Instructions -/

theorem branch (hl : o.Has (.ref (.br mask) a)) (ht : o.takes mask = true) :
    o.Leads { o with pc := a } :=
  of_has hl hl.reaches trivial (if_pos ht) rfl

theorem pass (hl : o.Has (.ref (.br mask) a)) (ht : o.takes mask = false) : o.Leads o.next := by
  have hstay : ¬ o.next.takes mask = true := fun htakes => Bool.false_ne_true (ht.symm.trans htakes)
  exact of_has hl rfl trivial (if_neg hstay) rfl

theorem add (hl : o.Has (.plain (.add dr sr src))) (hw : o.general sr + o.source src = w) :
    o.Leads (o.next.put dr w) := by
  subst hw
  exact of_has hl rfl trivial (by cases src <;> rfl) rfl

theorem and (hl : o.Has (.plain (.and dr sr src))) (hw : o.general sr &&& o.source src = w) :
    o.Leads (o.next.put dr w) := by
  subst hw
  exact of_has hl rfl trivial (by cases src <;> rfl) rfl

theorem lea (hl : o.Has (.ref (.lea dr) a)) : o.Leads (o.next.put dr a) :=
  of_has hl hl.reaches trivial rfl rfl

theorem ret (hl : o.Has (.plain (.jmp Reg.link))) (ha : o.general Reg.link = a) :
    o.Leads { o with pc := a, depth := o.depth - 1 } := by
  subst ha
  exact of_has hl rfl trivial rfl rfl

theorem trap (hl : o.Has (.plain (.trap vector))) (ha : vector.setWidth 16 = a)
    (hport : a ∉ DeviceReg.ports) (hp : o.cell a = p) : o.Leads (o.next.call p) := by
  subst hp
  exact of_has hl ha hport rfl rfl

theorem ld (hl : o.Has (.ref (.ld dr) a)) (hport : a ∉ DeviceReg.ports) (hw : o.cell a = w) :
    o.Leads (o.next.put dr w) := by
  subst hw
  exact of_has hl hl.reaches (readable_of_not_mem hport)
    (put_look_of_not_mem (o := o.next) hport) rfl

theorem ldr {off : BitVec 6} (hl : o.Has (.plain (.ldr dr base off)))
    (ha : o.general base + off.signExtend 16 = a) (hport : a ∉ DeviceReg.ports)
    (hw : o.cell a = w) : o.Leads (o.next.put dr w) := by
  subst hw
  exact of_has hl ha (readable_of_not_mem hport) (put_look_of_not_mem (o := o.next) hport) rfl

theorem ldi (hl : o.Has (.ref (.ldi dr) a)) (hport : a ∉ DeviceReg.ports) (hp : o.cell a = p)
    (hread : o.Readable p) : o.Leads ((o.next.afterLook p).put dr (o.look p)) := by
  subst hp
  exact of_has hl hl.reaches ⟨hport, hread⟩ rfl (congrFun (cell_afterLook (o := o.next)) _)

theorem st (hl : o.Has (.ref (.st sr) a)) (hport : a ∉ DeviceReg.ports)
    (hclock : a ≠ DeviceReg.mcr) :
    o.Leads { o.next with cell := Function.update o.cell a (o.general sr) } := by
  simp only [DeviceReg.ports, List.mem_cons, List.not_mem_nil, or_false, not_or] at hport
  obtain ⟨hkbsr, hkbdr, hdsr, hddr⟩ := hport
  have hupdated : a ∉ DeviceReg.updated := by simp [DeviceReg.updated, hkbsr, hkbdr, hdsr]
  exact of_has hl hl.reaches hupdated (if_neg hddr) (Function.update_of_ne hclock.symm _ _)

/-- A character is shown through a pointer to the data register of the display. -/
theorem sti (hl : o.Has (.ref (.sti sr) a)) (hport : a ∉ DeviceReg.ports)
    (hp : o.cell a = DeviceReg.ddr) (hw : o.general sr = w) :
    o.Leads { o.next with shown := o.shown ++ [w.setWidth 8] } := by
  subst hw
  have hupdated : o.cell a ∉ DeviceReg.updated := by
    rw [hp]
    decide
  exact of_has hl hl.reaches ⟨hport, hupdated⟩ (if_pos hp) rfl

end Leads
end Outline

namespace Machine

variable {m : Machine} {o o' : Outline}

theorem At.isRunning (h : m.At o) : m.isRunning = (o.cell DeviceReg.mcr).msb :=
  congrArg BitVec.msb (h.store_read (by decide))

/-- A machine goes along every path of its outline, and its clock goes on as it did. -/
theorem At.leads (h : m.At o) (ho : o.Leads o') :
    ∃ n, (m.steps n).At o' ∧ ∀ k ≤ n, (m.steps k).isRunning = m.isRunning := by
  induction ho with
  | refl => exact ⟨0, h, fun k hk => by rw [Nat.le_zero.1 hk]; rfl⟩
  | tail _ hgoes ih =>
      obtain ⟨n, hn, hrunning⟩ := ih
      obtain ⟨hplain, rfl, hclock⟩ := hgoes
      have hstep : (m.steps (n + 1)).At _ := hn.step hplain
      refine ⟨n + 1, hstep, fun k hk => ?_⟩
      obtain hk | rfl := Nat.le_succ_iff.1 hk
      · exact hrunning k hk
      · rw [hstep.isRunning, hclock, ← hn.isRunning]
        exact hrunning n le_rfl

end Machine

end Lc3
