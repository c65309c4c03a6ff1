import Lc3.Proofs.Denotation
import Lc3.Proofs.Execution

/-!
# Places for numbers

A number is the last operand of its command, behind registers or nothing. Main statements: a command
is read with a number exactly if the number is in the range of its place; and the word of the
command gives the same number back.
-/

namespace Lc3

open Token

/-- A place for a number, behind the other operands of its command. -/
inductive Slot where
  | add (dr sr : Reg)
  | and (dr sr : Reg)
  | ldr (dr base : Reg)
  | str (sr base : Reg)
  | br (b : Branch)
  | ld (dr : Reg)
  | ldi (dr : Reg)
  | lea (dr : Reg)
  | st (sr : Reg)
  | sti (sr : Reg)
  | jsr
  | trap
  | fill
  | block
  deriving DecidableEq, Repr

namespace Slot

/-- The tokens in front of the number. -/
inductive Opens : Slot → List Token → Prop
  | add {dr sr : Reg} : Opens (.add dr sr) [.mnemonic .add, .reg dr, .reg sr]
  | and {dr sr : Reg} : Opens (.and dr sr) [.mnemonic .and, .reg dr, .reg sr]
  | ldr {dr base : Reg} : Opens (.ldr dr base) [.mnemonic .ldr, .reg dr, .reg base]
  | str {sr base : Reg} : Opens (.str sr base) [.mnemonic .str, .reg sr, .reg base]
  | br {b : Branch} : Opens (.br b) [.mnemonic (.branch b)]
  | ld {dr : Reg} : Opens (.ld dr) [.mnemonic .ld, .reg dr]
  | ldi {dr : Reg} : Opens (.ldi dr) [.mnemonic .ldi, .reg dr]
  | lea {dr : Reg} : Opens (.lea dr) [.mnemonic .lea, .reg dr]
  | st {sr : Reg} : Opens (.st sr) [.mnemonic .st, .reg sr]
  | sti {sr : Reg} : Opens (.sti sr) [.mnemonic .sti, .reg sr]
  | jsr : Opens .jsr [.mnemonic .jsr]
  | trap : Opens .trap [.mnemonic .trap]
  | fill {d : String} (hd : Text.upper d = "FILL") : Opens .fill [.directive d]
  | block {d : String} (hd : Text.upper d = "BLKW") : Opens .block [.directive d]

/-- The least number that the place takes. -/
def least : Slot → Int
  | .add _ _ | .and _ _ => -16
  | .ldr _ _ | .str _ _ => -32
  | .br _ | .ld _ | .ldi _ | .lea _ | .st _ | .sti _ => -256
  | .jsr => -1024
  | .trap => 0
  | .fill => -65536
  | .block => 0

/-- The greatest number that the place takes. -/
def greatest : Slot → Int
  | .add _ _ | .and _ _ => 15
  | .ldr _ _ | .str _ _ => 31
  | .br _ | .ld _ | .ldi _ | .lea _ | .st _ | .sti _ => 255
  | .jsr => 1023
  | .trap => 255
  | .fill => 65535
  | .block => 2147483647

/-- Whether the place takes a number. -/
def Takes (s : Slot) (v : Int) : Prop := s.least ≤ v ∧ v ≤ s.greatest

instance (s : Slot) (v : Int) : Decidable (s.Takes v) :=
  inferInstanceAs (Decidable (s.least ≤ v ∧ v ≤ s.greatest))

/-- The command with a number at the place. -/
def command (v : Int) : Slot → Command
  | .add dr sr => .instr (.add dr sr (.imm (BitVec.ofInt 5 v)))
  | .and dr sr => .instr (.and dr sr (.imm (BitVec.ofInt 5 v)))
  | .ldr dr base => .instr (.ldr dr base (BitVec.ofInt 6 v))
  | .str sr base => .instr (.str sr base (BitVec.ofInt 6 v))
  | .br b => .instr (.br b.mask (.offset (BitVec.ofInt 9 v)))
  | .ld dr => .instr (.ld dr (.offset (BitVec.ofInt 9 v)))
  | .ldi dr => .instr (.ldi dr (.offset (BitVec.ofInt 9 v)))
  | .lea dr => .instr (.lea dr (.offset (BitVec.ofInt 9 v)))
  | .st sr => .instr (.st sr (.offset (BitVec.ofInt 9 v)))
  | .sti sr => .instr (.sti sr (.offset (BitVec.ofInt 9 v)))
  | .jsr => .instr (.jsr (.offset (BitVec.ofInt 11 v)))
  | .trap => .instr (.trap (BitVec.ofInt 8 v))
  | .fill => .directive (.fill (.offset (BitVec.ofInt 17 v)))
  | .block => .directive (.block v.toNat)

/-- What is wrong with a number that the place does not take. -/
def cause (v : Int) : Slot → Cause
  | .add _ _ | .and _ _ => .immediateOutOfRange 5 v
  | .ldr _ _ | .str _ _ => .offsetOutOfRange 6 v
  | .br _ | .ld _ | .ldi _ | .lea _ | .st _ | .sti _ => .offsetOutOfRange 9 v
  | .jsr => .offsetOutOfRange 11 v
  | .trap => .trapOutOfRange v
  | .fill => .offsetOutOfRange 17 v
  | .block => .negativeBlock v

/-- The number in the field of an instruction of the machine. -/
def field : Slot → Instr → Option Int
  | .add _ _, .add _ _ (.imm x) => some x.toInt
  | .and _ _, .and _ _ (.imm x) => some x.toInt
  | .ldr _ _, .ldr _ _ x => some x.toInt
  | .str _ _, .str _ _ x => some x.toInt
  | .br _, .br _ x => some x.toInt
  | .ld _, .ld _ x => some x.toInt
  | .ldi _, .ldi _ x => some x.toInt
  | .lea _, .lea _ x => some x.toInt
  | .st _, .st _ x => some x.toInt
  | .sti _, .sti _ x => some x.toInt
  | .jsr, .jsr (.imm x) => some x.toInt
  | .trap, .trap x => some x.toNat
  | _, _ => none

/-- The words of a command that hold a number as it was written. -/
def Holds (v : Int) (ws : List Word) : Slot → Prop
  | .fill => ∃ w, ws = [w] ∧ (w.toNat : Int) = v % 2 ^ 16
  | .block => (ws.length : Int) = v ∧ ∀ w ∈ ws, w = 0
  | s => ∃ w, ws = [w] ∧ (Word.decode w).strict = true ∧ s.field (Word.decode w).instr = some v

end Slot

variable {s : Slot} {p : Piece} {ps : List Piece} {ts : List Token} {v : Int} {n addr : Nat}
  {labels : LabelTable} {ws : List Word}

/-! ## Numbers as operands -/

namespace Piece

theorem operand_literal {bits : Nat} (hp : p.value = .literal v) : p.operand bits =
    if Field.least bits ≤ v ∧ v ≤ Field.greatest bits then .ok (.imm (BitVec.ofInt bits v))
    else .error (.immediateOutOfRange bits v) := by
  simp only [operand, hp, Field.signed?]
  by_cases h : Field.least bits ≤ v ∧ v ≤ Field.greatest bits <;> simp [h]

theorem offset_literal {bits : Nat} (hp : p.value = .literal v) : p.offset bits =
    if Field.least bits ≤ v ∧ v ≤ Field.greatest bits then .ok (BitVec.ofInt bits v)
    else .error (.offsetOutOfRange bits v) := by
  simp only [offset, literal, hp, Field.signed?, Bind.bind, Except.bind]
  by_cases h : Field.least bits ≤ v ∧ v ≤ Field.greatest bits <;> simp [h]

theorem target_literal {bits : Nat} (hp : p.value = .literal v) : p.target bits =
    if Field.least bits ≤ v ∧ v ≤ Field.greatest bits then .ok (.offset (BitVec.ofInt bits v))
    else .error (.offsetOutOfRange bits v) := by
  simp only [target, hp, Field.signed?]
  by_cases h : Field.least bits ≤ v ∧ v ≤ Field.greatest bits <;> simp [h]

theorem vector_literal (hp : p.value = .literal v) : p.vector =
    if 0 ≤ v ∧ v ≤ 255 then .ok (BitVec.ofInt 8 v) else .error (.trapOutOfRange v) := by
  have hrange : (0 ≤ v ∧ v < (1 <<< 8 : Nat)) ↔ 0 ≤ v ∧ v ≤ 255 := by
    have : ((1 <<< 8 : Nat) : Int) = 256 := rfl
    omega
  simp only [vector, literal, hp, Field.unsigned?, Bind.bind, Except.bind, hrange]
  by_cases h : 0 ≤ v ∧ v ≤ 255 <;> simp [h]

end Piece

/-! ## Reading -/

/-- Whether pieces are a command, and what it is read as. -/
def ReadAs (ps : List Piece) (r : Except Cause Command) : Prop :=
  ∃ first ops, ps = first :: ops ∧ first.value.isCommand = true ∧ Command.read first ops = r

section Operands

variable (m : Mnemonic) {α : Type} {a b : Reg} {last : Piece → Except Cause α} {c : Prop}
  [Decidable c] {z : α} {e : Cause}

theorem readAs_three (mk : Reg → Reg → α → SourceInstr)
    (hps : ps.map Lexeme.value = [.mnemonic m, .reg a, .reg b])
    (hr : ∀ x y z, SourceInstr.read m [x, y, z] = do return mk (← x.reg) (← y.reg) (← last z))
    (hz : last p = if c then .ok z else .error e) :
    ReadAs (ps ++ [p]) (if c then .ok (.instr (mk a b z)) else .error e) := by
  simp only [List.map_eq_cons_iff, List.map_eq_nil_iff] at hps
  obtain ⟨f, _, rfl, hf, x, _, rfl, hx, y, _, rfl, hy, rfl⟩ := hps
  refine ⟨f, [x, y, p], rfl, by rw [hf]; rfl, ?_⟩
  simp only [Command.read, hf, hr, Piece.reg, hx, hy, hz]
  split <;> rfl

theorem readAs_two (mk : Reg → α → SourceInstr)
    (hps : ps.map Lexeme.value = [.mnemonic m, .reg a])
    (hr : ∀ x z, SourceInstr.read m [x, z] = do return mk (← x.reg) (← last z))
    (hz : last p = if c then .ok z else .error e) :
    ReadAs (ps ++ [p]) (if c then .ok (.instr (mk a z)) else .error e) := by
  simp only [List.map_eq_cons_iff, List.map_eq_nil_iff] at hps
  obtain ⟨f, _, rfl, hf, x, _, rfl, hx, rfl⟩ := hps
  refine ⟨f, [x, p], rfl, by rw [hf]; rfl, ?_⟩
  simp only [Command.read, hf, hr, Piece.reg, hx, hz]
  split <;> rfl

theorem readAs_one (mk : α → SourceInstr) (hps : ps.map Lexeme.value = [.mnemonic m])
    (hr : ∀ z, SourceInstr.read m [z] = do return mk (← last z))
    (hz : last p = if c then .ok z else .error e) :
    ReadAs (ps ++ [p]) (if c then .ok (.instr (mk z)) else .error e) := by
  simp only [List.map_eq_cons_iff, List.map_eq_nil_iff] at hps
  obtain ⟨f, _, rfl, hf, rfl⟩ := hps
  refine ⟨f, [p], rfl, by rw [hf]; rfl, ?_⟩
  simp only [Command.read, hf, hr, hz]
  split <;> rfl

end Operands

theorem readAs_directive {d key : String} {r : Except Cause Directive} (hd : Text.upper d = key)
    (hkey : key ∈ Directive.names) (hps : ps.map Lexeme.value = [.directive d])
    (hr : Directive.read d [p] = r) : ReadAs (ps ++ [p]) (r.map .directive) := by
  simp only [List.map_eq_cons_iff, List.map_eq_nil_iff] at hps
  obtain ⟨f, _, rfl, hf, rfl⟩ := hps
  refine ⟨f, [p], rfl, ?_, ?_⟩
  · rw [hf, Token.isCommand, hd]
    exact List.contains_iff_mem.2 hkey
  · simp only [Command.read, hf, hr]

theorem Directive.read_fill_eq {d : String} (hd : Text.upper d = "FILL") :
    Directive.read d [p] = (p.target 17).map .fill := by
  simp only [Directive.read, hd, ↓reduceIte, Piece.only, Bind.bind, Except.bind]
  cases p.target 17 <;> rfl

theorem Directive.read_block_eq {d : String} (hd : Text.upper d = "BLKW")
    (hp : p.value = .literal v) : Directive.read d [p] =
      if v < 0 then .error (.negativeBlock v) else .ok (.block v.toNat) := by
  simp [Directive.read, hd, Piece.only, Bind.bind, Except.bind, Piece.literal, hp, pure,
    Except.pure]

/-- A command is read with a number exactly if its place takes the number. -/
theorem Slot.Opens.readAs (h : s.Opens ts) (hps : ps.map Lexeme.value = ts)
    (hp : p.value = .literal v) (hv : Numeral.InRange v) :
    ReadAs (ps ++ [p]) (if s.Takes v then .ok (s.command v) else .error (s.cause v)) := by
  cases h with
  | add => exact readAs_three .add .add hps (fun _ _ _ => rfl) (Piece.operand_literal hp)
  | and => exact readAs_three .and .and hps (fun _ _ _ => rfl) (Piece.operand_literal hp)
  | ldr => exact readAs_three .ldr .ldr hps (fun _ _ _ => rfl) (Piece.offset_literal hp)
  | str => exact readAs_three .str .str hps (fun _ _ _ => rfl) (Piece.offset_literal hp)
  | @br b => exact readAs_one (.branch b) (.br b.mask) hps (fun _ => rfl) (Piece.target_literal hp)
  | ld => exact readAs_two .ld .ld hps (fun _ _ => rfl) (Piece.target_literal hp)
  | ldi => exact readAs_two .ldi .ldi hps (fun _ _ => rfl) (Piece.target_literal hp)
  | lea => exact readAs_two .lea .lea hps (fun _ _ => rfl) (Piece.target_literal hp)
  | st => exact readAs_two .st .st hps (fun _ _ => rfl) (Piece.target_literal hp)
  | sti => exact readAs_two .sti .sti hps (fun _ _ => rfl) (Piece.target_literal hp)
  | jsr => exact readAs_one .jsr .jsr hps (fun _ => rfl) (Piece.target_literal hp)
  | trap => exact readAs_one .trap .trap hps (fun _ => rfl) (Piece.vector_literal hp)
  | fill hd =>
      have := readAs_directive (p := p) hd (by decide) hps (Directive.read_fill_eq hd)
      rwa [Piece.target_literal hp, apply_ite (Except.map _), apply_ite (Except.map _)] at this
  | block hd =>
      have := readAs_directive (p := p) hd (by decide) hps (Directive.read_block_eq hd hp)
      -- No number is too large for a block.
      have htakes : Slot.block.Takes v ↔ ¬ v < 0 :=
        ⟨fun h => Int.not_lt.2 h.1, fun h => ⟨Int.not_lt.1 h, hv.2⟩⟩
      rw [apply_ite (Except.map _)] at this
      simp only [htakes, ite_not]
      exact this

/-! ## Writing -/

theorem Field.toInt_ofInt {bits : Nat} (hb : 0 < bits)
    (h : least bits ≤ v ∧ v ≤ greatest bits) : (BitVec.ofInt bits v).toInt = v :=
  toInt_of_signed? hb (signed?_eq_some.2 ⟨h.1, h.2, rfl⟩)

theorem Field.toNat_ofInt {bits : Nat} (h : 0 ≤ v) (hlt : v < 2 ^ bits) :
    ((BitVec.ofInt bits v).toNat : Int) = v := by
  rw [BitVec.toNat_ofInt, Int.toNat_of_nonneg (Int.emod_nonneg _ (by simp)), Int.emod_eq_of_lt h]
  exact_mod_cast hlt

theorem holds_instr {si : SourceInstr} {i : Instr}
    (h : (Command.instr si).words labels addr = .ok ws)
    (hr : si.resolve labels (addr + 1) = .ok i) (hw : i.HasWord) (hf : s.field i = some v) :
    ∃ w, ws = [w] ∧ (Word.decode w).strict = true ∧ s.field (Word.decode w).instr = some v := by
  rw [Command.words, hr] at h
  cases h
  exact ⟨i.encode, rfl, by rw [Word.decode_encode hw], by rw [Word.decode_encode hw, hf]⟩

/-- The words of a command hold the number that it was read with. -/
theorem Slot.holds_of_words (hv : s.Takes v) (h : (s.command v).words labels addr = .ok ws) :
    s.Holds v ws := by
  cases s with
  | add | and | ldr | str | ld | ldi | lea | st | sti | jsr =>
      exact holds_instr h rfl trivial (congrArg some (Field.toInt_ofInt (by decide) hv))
  | br b => exact holds_instr h rfl b.mask_lt (congrArg some (Field.toInt_ofInt (by decide) hv))
  | trap =>
      have hlt : v < 2 ^ 8 := Int.lt_of_le_of_lt hv.2 (by decide)
      exact holds_instr h rfl trivial (congrArg some (Field.toNat_ofInt hv.1 hlt))
  | fill =>
      cases h
      refine ⟨_, rfl, ?_⟩
      rw [BitVec.toNat_setWidth, BitVec.toNat_ofInt]
      omega
  | block =>
      cases h
      refine ⟨?_, fun w hw => List.eq_of_mem_replicate hw⟩
      rw [List.length_replicate, Int.toNat_of_nonneg hv.1]

end Lc3
