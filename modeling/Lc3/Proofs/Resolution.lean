import Lc3.ObjectFile
import Lc3.Proofs.Codec
import Lc3.Proofs.Field
import Lc3.Proofs.Reading

/-!
# What instructions mean

An instruction at an address means the machine instruction with the same operands, in which the
offset of a label leads from the address behind it to the label. Main statement: this is the
instruction that the assembler makes.
-/

namespace Lc3

/-- The field that a target stands for in an instruction at `a`. The way to a label may lead around
the end of memory. -/
def Target.Aims {n : Nat} (labels : LabelTable) (a : Word) : Target n → BitVec n → Prop
  | .offset v, off => off = v
  | .label l, off => labels.addrOf? l.name = some (a + 1 + off.signExtend 16)

/-- The machine instruction that an instruction at `a` stands for. -/
inductive SourceInstr.Means (labels : LabelTable) (a : Word) : SourceInstr → Instr → Prop
  | add {dr sr : Reg} {src : Operand 5} : Means labels a (.add dr sr src) (.add dr sr src)
  | and {dr sr : Reg} {src : Operand 5} : Means labels a (.and dr sr src) (.and dr sr src)
  | br {mask : BitVec 8} {t : Target 9} {off : BitVec 9} (h : t.Aims labels a off) :
      Means labels a (.br mask t) (.br mask off)
  | jmp {base : Reg} : Means labels a (.jmp base) (.jmp base)
  | jsr {t : Target 11} {off : BitVec 11} (h : t.Aims labels a off) :
      Means labels a (.jsr t) (.jsr (.imm off))
  | jsrr {base : Reg} : Means labels a (.jsrr base) (.jsr (.reg base))
  | ld {dr : Reg} {t : Target 9} {off : BitVec 9} (h : t.Aims labels a off) :
      Means labels a (.ld dr t) (.ld dr off)
  | ldi {dr : Reg} {t : Target 9} {off : BitVec 9} (h : t.Aims labels a off) :
      Means labels a (.ldi dr t) (.ldi dr off)
  | ldr {dr base : Reg} {off : BitVec 6} : Means labels a (.ldr dr base off) (.ldr dr base off)
  | lea {dr : Reg} {t : Target 9} {off : BitVec 9} (h : t.Aims labels a off) :
      Means labels a (.lea dr t) (.lea dr off)
  | not {dr sr : Reg} : Means labels a (.not dr sr) (.not dr sr)
  | ret : Means labels a .ret (.jmp 7)
  | rti : Means labels a .rti .rti
  | st {sr : Reg} {t : Target 9} {off : BitVec 9} (h : t.Aims labels a off) :
      Means labels a (.st sr t) (.st sr off)
  | sti {sr : Reg} {t : Target 9} {off : BitVec 9} (h : t.Aims labels a off) :
      Means labels a (.sti sr t) (.sti sr off)
  | str {sr base : Reg} {off : BitVec 6} : Means labels a (.str sr base off) (.str sr base off)
  | trap {vector : BitVec 8} : Means labels a (.trap vector) (.trap vector)
  | nop : Means labels a .nop (.br 0 0)
  | service {s : Service} : Means labels a (.service s) (.trap s.vector)

variable {labels : LabelTable} {a : Word}

/-! ## Offsets -/

/-- A distance, added around the end of memory, leads to where it was measured to. -/
theorem Word.add_distance {a b : Word} {d : Int} (h : d = (b.toNat : Int) - (a.toNat + 1 : Nat)) :
    a + 1 + BitVec.ofInt 16 d = b := by
  have ha : a + 1 = BitVec.ofInt 16 (a.toNat + 1 : Nat) := by
    rw [BitVec.ofInt_natCast, BitVec.ofNat_add, BitVec.ofNat_toNat, BitVec.setWidth_eq]
    rfl
  have hd : ((a.toNat + 1 : Nat) : Int) + d = b.toNat := by omega
  rw [ha, ← BitVec.ofInt_add, hd, BitVec.ofInt_natCast, BitVec.ofNat_toNat, BitVec.setWidth_eq]

theorem Target.aims_of_resolve {n : Nat} {t : Target n} {off : BitVec n} (hn : 0 < n)
    (h : t.resolve labels (a.toNat + 1) = .ok off) : t.Aims labels a off := by
  cases t with
  | offset v =>
      cases h
      rfl
  | label l =>
      simp only [resolve] at h
      split at h
      · cases h
      · rename_i addr haddr
        split at h
        · rename_i v hv
          cases h
          have hdist := Field.toInt_of_signed? hn hv
          rw [Aims, haddr, BitVec.signExtend, Word.add_distance hdist]
        · cases h

namespace SourceInstr

variable {i : SourceInstr} {instr : Instr}

theorem means_of_resolve (h : i.resolve labels (a.toNat + 1) = .ok instr) :
    i.Means labels a instr := by
  cases i with
  | br mask t | ld dr t | ldi dr t | lea dr t | st sr t | sti sr t =>
      obtain ⟨off, ht, rfl⟩ := map_eq_ok.1 h
      constructor
      exact Target.aims_of_resolve (by decide) ht
  | jsr t =>
      obtain ⟨off, ht, rfl⟩ := map_eq_ok.1 h
      exact .jsr (Target.aims_of_resolve (by decide) ht)
  | _ =>
      cases h
      constructor

theorem hasWord_of_means (h : i.Means labels a instr)
    (hm : ∀ mask t, i = .br mask t → mask.toNat < 8) : instr.HasWord := by
  cases h with
  | br => exact hm _ _ rfl
  | nop => exact (by decide : (0 : BitVec 8).toNat < 8)
  | _ => trivial

end SourceInstr

theorem Branch.mask_lt (b : Branch) : b.mask.toNat < 8 := by
  cases b <;> decide

/-- The engine's address of an instruction with a label operand is that of the label. -/
theorem SourceInstr.mode_of_means {i : SourceInstr} {instr : Instr} {l : Label}
    (h : i.Means labels a instr) (hl : i.label? = some l) :
    ∃ off, instr.mode = .pc off ∧ labels.addrOf? l.name = some (a + 1 + off) := by
  cases h with
  | br h | ld h | ldi h | lea h | st h | sti h =>
      rename_i t off
      cases t with
      | offset v => cases hl
      | label l' =>
          cases hl
          exact ⟨off.signExtend 16, rfl, h⟩
  | jsr h =>
      rename_i t off
      cases t with
      | offset v => cases hl
      | label l' =>
          cases hl
          exact ⟨off.signExtend 16, rfl, h⟩
  | _ => cases hl

end Lc3
