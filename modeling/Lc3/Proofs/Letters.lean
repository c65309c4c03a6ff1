import Mathlib.Data.List.Basic
import Lc3.Proofs.Lexing

/-!
# Letters

Names, numbers and mnemonics are spelled with ASCII letters, digits and underscores. Main statement:
which of them a run is does not depend on the case of its letters.
-/

namespace Lc3

open Token

variable {c : Char} {cs : List Char}

/-! ## Single characters -/

/-- Upper case changes the small letters only, by their distance from the capitals. -/
theorem Char.toUpper_cases (c : Char) :
    c.toUpper = c ∧ ¬ (97 ≤ c.toNat ∧ c.toNat ≤ 122) ∨
      (97 ≤ c.toNat ∧ c.toNat ≤ 122) ∧ c.toUpper.toNat = c.toNat - 32 := by
  have hrange : ('a'.val ≤ c.val ∧ c.val ≤ 'z'.val) ↔ 97 ≤ c.toNat ∧ c.toNat ≤ 122 := by
    simp only [UInt32.le_iff_toNat_le]
    exact Iff.rfl
  unfold Char.toUpper
  split
  · rename_i h
    have h := hrange.1 h
    refine .inr ⟨h, ?_⟩
    change (c.val + ('A'.val - 'a'.val)).toNat = c.val.toNat - 32
    have hc : 97 ≤ c.val.toNat ∧ c.val.toNat ≤ 122 := h
    rw [UInt32.toNat_add, show ('A'.val - 'a'.val).toNat = 4294967264 by decide]
    omega
  · rename_i h
    exact .inl ⟨rfl, fun hc => h (hrange.2 hc)⟩

theorem Char.isUpper_iff : c.isUpper = true ↔ 65 ≤ c.toNat ∧ c.toNat ≤ 90 :=
  decide_eq_true_iff

theorem Char.isLower_iff : c.isLower = true ↔ 97 ≤ c.toNat ∧ c.toNat ≤ 122 :=
  Bool.and_eq_true_iff.trans (and_congr decide_eq_true_iff decide_eq_true_iff)

namespace Token

theorem isNameChar_iff : isNameChar c = true ↔
    ((65 ≤ c.toNat ∧ c.toNat ≤ 90 ∨ 97 ≤ c.toNat ∧ c.toNat ≤ 122) ∨
      48 ≤ c.toNat ∧ c.toNat ≤ 57) ∨ c.toNat = 95 := by
  change (((c.isUpper || c.isLower) || c.isDigit) || c == '_') = true ↔ _
  simp only [Bool.or_eq_true, beq_iff_eq, ← Char.toNat_inj, Char.isUpper_iff, Char.isLower_iff,
    Char.isDigit_iff_toNat]
  exact Iff.rfl

theorem isNameChar_toUpper : isNameChar c.toUpper = isNameChar c := by
  rcases Char.toUpper_cases c with ⟨h, -⟩ | ⟨hl, hu⟩
  · rw [h]
  · rw [Bool.eq_iff_iff, isNameChar_iff, isNameChar_iff]
    omega

theorem isBlank_of_isNameChar (h : isNameChar c = true) : Text.isBlank c = false := by
  have := isNameChar_iff.1 h
  simp [Text.isBlank, Text.blanks]
  omega

theorem isRunChar_of_isNameChar (h : isNameChar c = true) : isRunChar c = true := by
  have hne {d : Char} (hd : isNameChar d = false) : c ≠ d := by
    rintro rfl
    cases h.symm.trans hd
  have hcomma : c ≠ ',' := hne (by decide)
  have hsemi : c ≠ ';' := hne (by decide)
  have hquote : c ≠ '"' := hne (by decide)
  simp [isRunChar, isBlank_of_isNameChar h, hcomma, hsemi, hquote]

theorem isRunChar_toUpper : isRunChar c.toUpper = isRunChar c := by
  rcases Char.toUpper_cases c with ⟨h, -⟩ | ⟨hl, hu⟩
  · rw [h]
  · rw [isRunChar_of_isNameChar (isNameChar_iff.2 (by omega)),
      isRunChar_of_isNameChar (isNameChar_iff.2 (by omega))]

end Token

theorem Char.toUpper_eq_iff {d : Char} (hd : ¬ (65 ≤ d.toNat ∧ d.toNat ≤ 90))
    (hd' : ¬ (97 ≤ d.toNat ∧ d.toNat ≤ 122)) : c.toUpper = d ↔ c = d := by
  rcases Char.toUpper_cases c with ⟨h, -⟩ | ⟨hl, hu⟩
  · rw [h]
  · rw [← Char.toNat_inj, ← Char.toNat_inj]
    omega

namespace Numeral

theorem digit?_eq {radix : Nat} : digit? radix c =
    (if 48 ≤ c.toNat ∧ c.toNat ≤ 57 then some (c.toNat - 48)
      else if 97 ≤ c.toNat ∧ c.toNat ≤ 102 then some (c.toNat - 97 + 10)
      else if 65 ≤ c.toNat ∧ c.toNat ≤ 70 then some (c.toNat - 65 + 10)
      else none).filter (· < radix) := by
  simp only [digit?, Char.le_def, UInt32.le_iff_toNat_le]
  rfl

theorem digit?_toUpper {radix : Nat} : digit? radix c.toUpper = digit? radix c := by
  rcases Char.toUpper_cases c with ⟨h, -⟩ | ⟨hl, hu⟩
  · rw [h]
  · rw [digit?_eq, digit?_eq]
    by_cases hf : c.toNat ≤ 102
    · have hvalue : c.toUpper.toNat - 65 + 10 = c.toNat - 97 + 10 := by omega
      rw [if_neg (by omega), if_neg (by omega), if_pos (by omega), if_neg (by omega),
        if_pos (by omega), hvalue]
    · rw [if_neg (by omega), if_neg (by omega), if_neg (by omega), if_neg (by omega),
        if_neg (by omega), if_neg (by omega)]

theorem radix?_toUpper : radix? c.toUpper = radix? c := by
  rcases Char.toUpper_cases c with ⟨h, -⟩ | ⟨hl, hu⟩
  · rw [h]
  · have hhash : c.toUpper ≠ '#' ∧ c ≠ '#' := by
      simp only [ne_eq, ← Char.toNat_inj]
      exact ⟨by change ¬ c.toUpper.toNat = 35; omega, by change ¬ c.toNat = 35; omega⟩
    have hx : (c.toUpper = 'x' ∨ c.toUpper = 'X') ↔ (c = 'x' ∨ c = 'X') := by
      simp only [← Char.toNat_inj]
      change (c.toUpper.toNat = 120 ∨ c.toUpper.toNat = 88) ↔ (c.toNat = 120 ∨ c.toNat = 88)
      omega
    have hb : (c.toUpper = 'b' ∨ c.toUpper = 'B') ↔ (c = 'b' ∨ c = 'B') := by
      simp only [← Char.toNat_inj]
      change (c.toUpper.toNat = 98 ∨ c.toUpper.toNat = 66) ↔ (c.toNat = 98 ∨ c.toNat = 66)
      omega
    simp only [radix?, hhash, hx, hb, ↓reduceIte]

theorem digits?_toUpper {radix value : Nat} :
    digits? radix value (cs.map Char.toUpper) = digits? radix value cs := by
  induction cs generalizing value with
  | nil => rfl
  | cons c cs ih => simp only [List.map_cons, digits?, digit?_toUpper, ih]

theorem natural?_toUpper {radix : Nat} :
    natural? radix (cs.map Char.toUpper) = natural? radix cs := by
  cases cs with
  | nil => rfl
  | cons c cs =>
      have h : digits? radix 0 ((c :: cs).map Char.toUpper) = digits? radix 0 (c :: cs) :=
        digits?_toUpper
      exact h

theorem integer?_of_ne {radix : Nat} (h : c ≠ '-') :
    integer? radix (c :: cs) = (natural? radix (c :: cs)).map fun n => (n : Int) := by
  unfold integer?
  split
  · rename_i heq
    exact absurd (List.cons_eq_cons.1 heq).1 h
  · rfl

theorem integer?_toUpper {radix : Nat} :
    integer? radix (cs.map Char.toUpper) = integer? radix cs := by
  cases cs with
  | nil => rfl
  | cons c cs =>
      by_cases hc : c = '-'
      · subst hc
        simp only [List.map_cons, show '-'.toUpper = '-' by decide, integer?, natural?_toUpper]
      · have hc' : c.toUpper ≠ '-' := fun h =>
          hc ((Char.toUpper_eq_iff (by decide) (by decide)).1 h)
        have hnat : natural? radix ((c :: cs).map Char.toUpper) = natural? radix (c :: cs) :=
          natural?_toUpper
        rw [List.map_cons] at hnat ⊢
        rw [integer?_of_ne hc', integer?_of_ne hc, hnat]

theorem literal?_toUpper : literal? (cs.map Char.toUpper) = literal? cs := by
  cases cs with
  | nil => rfl
  | cons c cs => simp only [List.map_cons, literal?, radix?_toUpper, integer?_toUpper]

end Numeral

/-! ## Runs -/

namespace Token

theorem reg?_toUpper : reg? (cs.map Char.toUpper) = reg? cs := by
  obtain _ | ⟨r, _ | ⟨d, _ | ⟨e, cs⟩⟩⟩ := cs
  · rfl
  · rfl
  · have hr : (r.toUpper = 'R' ∨ r.toUpper = 'r') ↔ (r = 'R' ∨ r = 'r') := by
      simp only [← Char.toNat_inj]
      change (r.toUpper.toNat = 82 ∨ r.toUpper.toNat = 114) ↔ (r.toNat = 82 ∨ r.toNat = 114)
      rcases Char.toUpper_cases r with ⟨h, -⟩ | ⟨hl, hu⟩
      · rw [h]
      · omega
    rcases Char.toUpper_cases d with ⟨h, -⟩ | ⟨hl, hu⟩
    · simp only [List.map_cons, List.map_nil, reg?, hr, h]
    · have hd : ¬ d ≤ '7' := by
        rw [Char.le_def, UInt32.le_iff_toNat_le]
        change ¬ d.toNat ≤ 55
        omega
      have hd' : ¬ d.toUpper ≤ '7' := by
        rw [Char.le_def, UInt32.le_iff_toNat_le]
        change ¬ d.toUpper.toNat ≤ 55
        omega
      simp only [List.map_cons, List.map_nil, reg?, hd, hd', and_false, ↓reduceIte]
  · rfl

end Token

/-! ## Names -/

theorem Text.upperChar_of_lt (h : c.toNat < 0x80) : upperChar c = [c.toUpper] := by
  unfold upperChar
  split <;> first | rfl | omega

theorem Text.upper_ofList (h : ∀ c ∈ cs, isNameChar c = true) :
    upper (String.ofList cs) = String.ofList (cs.map Char.toUpper) := by
  rw [upper, String.toList_ofList, List.map_eq_flatMap]
  refine congrArg _ (List.flatMap_congr fun c hc => upperChar_of_lt ?_)
  have := isNameChar_iff.1 (h c hc)
  omega

theorem Token.directive?_eq_some {d : String} : directive? cs = some d ↔
    ∃ name, name ≠ [] ∧ (∀ c ∈ name, isNameChar c = true) ∧ cs = '.' :: name ∧
      d = String.ofList name := by
  constructor
  · intro h
    unfold directive? at h
    split at h
    · rename_i c rest
      split at h
      · rename_i hname
        cases h
        exact ⟨c :: rest, by simp, List.all_eq_true.1 hname, rfl, rfl⟩
      · cases h
    · cases h
  · rintro ⟨name, hne, hname, rfl, rfl⟩
    obtain ⟨c, rest, rfl⟩ := List.exists_cons_of_ne_nil hne
    exact if_pos (List.all_eq_true.2 hname)

/-! ## Other letters -/

/-- Texts that differ in the case of their letters only. -/
def SameLetters (cs cs' : List Char) : Prop := cs'.map Char.toUpper = cs.map Char.toUpper

namespace SameLetters

variable {cs' : List Char} {t : Token}

theorem of_all {P : Char → Bool} (hP : ∀ c, P c.toUpper = P c) (h : SameLetters cs cs')
    (hc : ∀ c ∈ cs, P c = true) : ∀ c ∈ cs', P c = true := by
  have hall (ds : List Char) : (ds.map Char.toUpper).all P = ds.all P := by
    simp only [List.all_map, Function.comp_def, hP]
  rw [← List.all_eq_true, ← hall] at hc ⊢
  rwa [h]

theorem isNameChar (h : SameLetters cs cs') : (∀ c ∈ cs, Token.isNameChar c = true) →
    ∀ c ∈ cs', Token.isNameChar c = true :=
  h.of_all fun _ => isNameChar_toUpper

theorem isRunChar (h : SameLetters cs cs') : (∀ c ∈ cs, Token.isRunChar c = true) →
    ∀ c ∈ cs', Token.isRunChar c = true :=
  h.of_all fun _ => isRunChar_toUpper

theorem literal? (h : SameLetters cs cs') : Numeral.literal? cs' = Numeral.literal? cs := by
  rw [← Numeral.literal?_toUpper, h, Numeral.literal?_toUpper]

theorem reg? (h : SameLetters cs cs') : Token.reg? cs' = Token.reg? cs := by
  rw [← reg?_toUpper, h, reg?_toUpper]

theorem upper (h : SameLetters cs cs') (hn : ∀ c ∈ cs, Token.isNameChar c = true) :
    Text.upper (String.ofList cs') = Text.upper (String.ofList cs) := by
  rw [Text.upper_ofList hn, Text.upper_ofList (h.isNameChar hn), h]

theorem ne_nil (h : SameLetters cs cs') (hne : cs ≠ []) : cs' ≠ [] := by
  rintro rfl
  exact hne (List.map_eq_nil_iff.1 h.symm)

theorem ofRun_literal {z : Int} (h : SameLetters cs cs') (ht : ofRun cs = .ok (.literal z)) :
    ofRun cs' = .ok (.literal z) := by
  cases of_ofRun ht with
  | literal hl => simp only [ofRun, h.literal?, hl]

theorem ofRun_mnemonic {m : Mnemonic} (h : SameLetters cs cs') (ht : ofRun cs = .ok (.mnemonic m)) :
    ofRun cs' = .ok (.mnemonic m) := by
  cases of_ofRun ht with
  | mnemonic hl hr hn hm =>
      have hall : cs'.all Token.isNameChar = true := List.all_eq_true.2 (h.isNameChar hn)
      have hm' : Mnemonic.ofName? (String.ofList cs') = some m := by
        rwa [Mnemonic.ofName?, h.upper hn]
      simp only [ofRun, h.literal?, hl, h.reg?, hr, hall, ↓reduceIte, ofName, hm']

theorem ofRun_directive {d : String} (h : SameLetters cs cs')
    (ht : ofRun cs = .ok (.directive d)) :
    ∃ d', ofRun cs' = .ok (.directive d') ∧ Text.upper d' = Text.upper d := by
  cases of_ofRun ht with
  | directive hd =>
      obtain ⟨name, hne, hn, rfl, rfl⟩ := directive?_eq_some.1 hd
      obtain ⟨dot, name', rfl, hdot, hletters⟩ := List.map_eq_cons_iff.1 h
      obtain rfl : dot = '.' := (Char.toUpper_eq_iff (by decide) (by decide)).1 hdot
      have hletters : SameLetters name name' := hletters
      have hl : Numeral.literal? ('.' :: name') = none := rfl
      have hr : Token.reg? ('.' :: name') = none := by
        rw [Token.reg?.eq_def]
        split
        · rename_i heq
          obtain ⟨rfl, -⟩ := List.cons_eq_cons.1 heq
          exact if_neg fun hc => absurd hc.1 (by decide)
        · rfl
      have hall : ('.' :: name').all Token.isNameChar = false := rfl
      have hd' :=
        directive?_eq_some.2 ⟨name', hletters.ne_nil hne, hletters.isNameChar hn, rfl, rfl⟩
      refine ⟨String.ofList name', ?_, hletters.upper hn⟩
      simp only [ofRun, hl, hr, hall, Bool.false_eq_true, ↓reduceIte, hd']

end SameLetters

end Lc3
