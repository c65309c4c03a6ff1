import Lc3.Instr.Code

/-!
# Encoding and decoding

Main statements: a strictly valid word is the word of its instruction, and every instruction that
can be written in a strictly valid word is read back from it unchanged.
-/

namespace Lc3

/-- An instruction that a strictly valid word can stand for: a mask has three bits, and the reserved
opcode has no word of its own. -/
def Instr.HasWord : Instr → Prop
  | .br mask _ => mask.toNat < 8
  | .reserved => False
  | _ => True

/-! ## From instructions to words and back -/

theorem Instr.opcode_encode (i : Instr) : i.encode.extractLsb' 12 4 = i.opcode := by
  unfold encode
  split <;> simp (disch := omega) only [BitVec.extractLsb'_append_eq_of_le, Nat.reduceSub,
    BitVec.extractLsb'_eq_self]

theorem Instr.encode_call (off : BitVec 11) :
    (Instr.jsr (.imm off)).encode = 0b0100#4 ++ 1#1 ++ off := rfl

theorem Instr.encode_callReg (base : Reg) :
    (Instr.jsr (.reg base)).encode = 0b0100#4 ++ 0#3 ++ base ++ 0#6 := rfl

theorem Word.src_append_srcBits (op : BitVec 4) (dr sr : Reg) (src : Operand 5) :
    Word.src (op ++ dr ++ sr ++ Instr.srcBits src) = (src, true) := by
  cases src with
  | imm v =>
      have h : (op ++ dr ++ sr ++ (1#1 ++ v)).getLsbD 5 = true := by
        simp only [BitVec.getLsbD_append]
        simp
      simp only [Word.src, Instr.srcBits, h, ↓reduceIte, BitVec.setWidth_append, Nat.reduceLeDiff,
        ↓reduceDIte, BitVec.setWidth_eq]
  | reg r =>
      have h : (op ++ dr ++ sr ++ (0#3 ++ r)).getLsbD 5 = false := by
        simp only [BitVec.getLsbD_append]
        simp
      simp (disch := omega) only [Word.src, Instr.srcBits, h, Word.regAt,
        BitVec.extractLsb'_append_eq_of_le, BitVec.extractLsb'_append_eq_of_add_le, Nat.reduceSub,
        BitVec.extractLsb'_eq_self]
      rfl

theorem Instr.setWidth_mask {mask : BitVec 8} (h : mask.toNat < 8) :
    (mask.setWidth 3).setWidth 8 = mask := by
  apply BitVec.eq_of_toNat_eq
  simp only [BitVec.toNat_setWidth]
  omega

theorem Word.instr_encode {i : Instr} (h : i.HasWord) : Word.instr i.encode = (i, true) := by
  have hop := i.opcode_encode
  cases i <;> rw [Word.instr, hop] <;>
    simp only [Instr.opcode, BitVec.ofNat_eq_ofNat, BitVec.toNat_ofNat, Nat.reducePow,
      Nat.reduceMod]
  case jsr target =>
    cases target with
    | imm off =>
        have hbit : (Instr.jsr (.imm off)).encode.getLsbD 11 = true := by
          simp only [Instr.encode_call, BitVec.getLsbD_append]
          simp
        rw [if_pos hbit, Instr.encode_call, BitVec.setWidth_append_eq_right]
    | reg base =>
        have hbit : ¬ (Instr.jsr (.reg base)).encode.getLsbD 11 = true := by
          simp only [Instr.encode_callReg, BitVec.getLsbD_append]
          simp
        rw [if_neg hbit]
        simp (disch := omega) only [Instr.encode_callReg, Word.regAt,
          BitVec.extractLsb'_append_eq_of_le, BitVec.extractLsb'_append_eq_of_add_le,
          Nat.reduceSub, BitVec.extractLsb'_eq_self]
        rfl
  case reserved => exact h.elim
  all_goals
    -- Unfolded here, for the equations of its nested patterns take long to make.
    unfold Instr.encode
    simp (disch := omega) only [Word.regAt, Word.src_append_srcBits,
      BitVec.extractLsb'_append_eq_of_le, BitVec.extractLsb'_append_eq_of_add_le, Nat.reduceSub,
      BitVec.extractLsb'_eq_self, BitVec.setWidth_append, Nat.reduceLeDiff, ↓reduceDIte,
      BitVec.setWidth_eq]
  case br mask off => rw [Instr.setWidth_mask h]
  all_goals rfl

theorem Word.decode_encode {i : Instr} (h : i.HasWord) :
    Word.decode i.encode = ⟨i.encode, i, true⟩ := by
  rw [Word.decode, Word.instr_encode h]

/-! ## From words to instructions and back -/

namespace Word

variable {w : Word}

/-- Neighbouring fields of a word, put together again. -/
theorem extract_append {low n high k : Nat} (h : high = low + n) :
    w.extractLsb' high k ++ w.extractLsb' low n = w.extractLsb' low (k + n) :=
  BitVec.extractLsb'_append_extractLsb'_eq_extractLsb' h

theorem extract_one (i : Nat) : w.extractLsb' i 1 = BitVec.ofBool (w.getLsbD i) := by
  apply BitVec.eq_of_getLsbD_eq
  intro j hj
  obtain rfl : j = 0 := by omega
  simp

theorem srcBits_src (h : w.src.2 = true) : Instr.srcBits w.src.1 = w.extractLsb' 0 6 := by
  unfold src at h ⊢
  split
  · rename_i hbit
    have hone : w.extractLsb' 5 1 = 1#1 := by
      rw [extract_one, hbit]
      rfl
    rw [Instr.srcBits, BitVec.setWidth_eq_extractLsb' (by decide), ← hone,
      extract_append (show 5 = 0 + 5 from rfl)]
  · rename_i hbit
    simp only [hbit, Bool.false_eq_true, ↓reduceIte, beq_iff_eq] at h
    have hthree : w.extractLsb' 3 3 = 0#3 := by
      rw [← extract_append (show 5 = 3 + 2 from rfl), extract_one, h]
      simp_all
    rw [Instr.srcBits, regAt, ← hthree, extract_append (show 3 = 0 + 3 from rfl)]

/-! Each format, with the opcode in front, is the whole word. -/

section Formats

variable {n : Nat}

theorem extract_opcode (h : (w.extractLsb' 12 4).toNat = n) :
    w.extractLsb' 12 4 = BitVec.ofNat 4 n := by
  rw [← h, BitVec.ofNat_toNat, BitVec.setWidth_eq]

theorem append_low_nine (h : (w.extractLsb' 12 4).toNat = n) :
    BitVec.ofNat 4 n ++ w.regAt 9 ++ w.setWidth 9 = w := by
  rw [← extract_opcode h, regAt, BitVec.setWidth_eq_extractLsb' (by decide)]
  simp (disch := rfl) only [extract_append]
  exact BitVec.extractLsb'_eq_self

theorem append_low_six (h : (w.extractLsb' 12 4).toNat = n) :
    BitVec.ofNat 4 n ++ w.regAt 9 ++ w.regAt 6 ++ w.extractLsb' 0 6 = w := by
  rw [← extract_opcode h]
  simp (disch := rfl) only [regAt, extract_append]
  exact BitVec.extractLsb'_eq_self

theorem append_low_eleven (h : (w.extractLsb' 12 4).toNat = n) :
    BitVec.ofNat 4 n ++ w.extractLsb' 11 1 ++ w.setWidth 11 = w := by
  rw [← extract_opcode h, BitVec.setWidth_eq_extractLsb' (by decide)]
  simp (disch := rfl) only [extract_append]
  exact BitVec.extractLsb'_eq_self

theorem append_low_eight (h : (w.extractLsb' 12 4).toNat = n) :
    BitVec.ofNat 4 n ++ w.extractLsb' 8 4 ++ w.setWidth 8 = w := by
  rw [← extract_opcode h, BitVec.setWidth_eq_extractLsb' (by decide)]
  simp (disch := rfl) only [extract_append]
  exact BitVec.extractLsb'_eq_self

theorem append_low_twelve (h : (w.extractLsb' 12 4).toNat = n) :
    BitVec.ofNat 4 n ++ w.extractLsb' 0 12 = w := by
  rw [← extract_opcode h]
  simp (disch := rfl) only [extract_append]
  exact BitVec.extractLsb'_eq_self

theorem append_middle (h : (w.extractLsb' 12 4).toNat = n) (hhigh : w.regAt 9 = 0#3)
    (hlow : w.extractLsb' 0 6 = 0#6) : BitVec.ofNat 4 n ++ 0#3 ++ w.regAt 6 ++ 0#6 = w := by
  have hw := append_low_six h
  rwa [hhigh, hlow] at hw

end Formats

theorem encode_instr (h : w.instr.2 = true) : w.instr.1.encode = w := by
  unfold instr at h ⊢
  split at h
  case h_1 _ hop =>
    have hmask : ((w.regAt 9).setWidth 8).setWidth 3 = w.regAt 9 := by
      apply BitVec.eq_of_toNat_eq
      simp only [BitVec.toNat_setWidth]
      omega
    change _ ++ ((w.regAt 9).setWidth 8).setWidth 3 ++ _ = w
    rw [hmask]
    exact append_low_nine hop
  case h_2 _ hop | h_6 _ hop =>
    change _ ++ _ ++ _ ++ Instr.srcBits w.src.1 = w
    rw [srcBits_src h]
    exact append_low_six hop
  case h_3 _ hop | h_4 _ hop | h_11 _ hop | h_12 _ hop | h_15 _ hop => exact append_low_nine hop
  case h_5 _ hop =>
    by_cases hbit : w.getLsbD 11 = true
    · simp only [hbit, ↓reduceIte]
      have hone : w.extractLsb' 11 1 = 1#1 := by
        rw [extract_one, hbit]
        rfl
      have hw := append_low_eleven hop
      rwa [hone] at hw
    · simp only [hbit, Bool.false_eq_true, ↓reduceIte, Bool.and_eq_true, beq_iff_eq] at h ⊢
      have hthree : w.extractLsb' 9 3 = 0#3 := by
        rw [← extract_append (show 11 = 9 + 2 from rfl), extract_one, h.1]
        simp_all
      exact append_middle hop hthree h.2
  case h_7 _ hop | h_8 _ hop =>
    refine Eq.trans ?_ (append_low_six hop)
    rw [← BitVec.setWidth_eq_extractLsb' (by decide)]
    rfl
  case h_9 _ hop =>
    have hw := append_low_twelve hop
    rwa [beq_iff_eq.1 h] at hw
  case h_10 _ hop =>
    have hw := append_low_six hop
    rwa [beq_iff_eq.1 h] at hw
  case h_13 _ hop =>
    rw [Bool.and_eq_true, beq_iff_eq, beq_iff_eq] at h
    exact append_middle hop h.1 h.2
  case h_14 => cases h
  case h_16 =>
    have hop : (w.extractLsb' 12 4).toNat = 15 := by
      have hlt := (w.extractLsb' 12 4).isLt
      simp only [imp_false] at *
      omega
    have hw := append_low_eight hop
    rwa [beq_iff_eq.1 h] at hw

theorem mask_lt_of_instr {mask : BitVec 8} {off : BitVec 9} (h : w.instr.1 = .br mask off) :
    mask.toNat < 8 := by
  unfold instr at h
  split at h
  case h_1 =>
    cases h
    simp only [BitVec.toNat_setWidth]
    omega
  case h_5 => split at h <;> cases h
  all_goals cases h

theorem instr_ne_reserved (h : w.instr.2 = true) : w.instr.1 ≠ .reserved := by
  unfold instr at h ⊢
  split at h
  case h_5 => split <;> simp
  case h_14 => cases h
  all_goals simp

theorem hasWord_instr (h : w.instr.2 = true) : w.instr.1.HasWord := by
  have hne := instr_ne_reserved h
  cases hi : w.instr.1 with
  | br mask off => exact mask_lt_of_instr hi
  | reserved => exact absurd hi hne
  | _ => trivial

end Word

end Lc3
