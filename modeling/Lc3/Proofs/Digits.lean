import Lc3.Field
import Lc3.Numeral
import Lc3.Word
import Lc3.Token.Lexer

/-!
# Numbers read back

The digits that a number is printed with, in decimal or in hexadecimal, are read as that number, and
so are the literals made of them.
-/

namespace Lc3.Numeral

variable {radix n value width : Nat} {c : Char} {cs ds : List Char} {z : Int}

/-! ## Digits -/

theorem digits?_append :
    digits? radix value (cs ++ ds) = (digits? radix value cs).bind (digits? radix · ds) := by
  induction cs generalizing value with
  | nil => rfl
  | cons c cs ih =>
      simp only [List.cons_append, digits?]
      cases digit? radix c with
      | none => rfl
      | some d => exact ih

/-- A way of writing the digits below a radix by which they are read again. -/
def Legible (radix : Nat) (f : Char → Char) : Prop :=
  ∀ d, d < radix → digit? radix (f d.digitChar) = some d

theorem legible_decimal : Legible 10 id := by
  unfold Legible
  decide

theorem legible_lower : Legible 16 id := by
  unfold Legible
  decide

theorem legible_upper : Legible 16 Char.toUpper := by
  unfold Legible
  decide

theorem digits?_toDigits {f : Char → Char} (hr : 1 < radix) (hf : Legible radix f) :
    digits? radix 0 ((Nat.toDigits radix n).map f) = some n := by
  induction n using Nat.strongRecOn with
  | ind n ih =>
      rw [Nat.toDigits_eq_if hr]
      split
      · rename_i hn
        simp [digits?, hf n hn]
      · rename_i hn
        have hpos : 0 < n := by omega
        have hmod := Nat.mod_lt n (Nat.lt_trans Nat.zero_lt_one hr)
        rw [List.map_append, digits?_append, ih (n / radix) (Nat.div_lt_self hpos hr)]
        simp [digits?, hf _ hmod, Nat.div_add_mod']

theorem digits?_zeros : digits? 16 0 (List.replicate width '0' ++ cs) = digits? 16 0 cs := by
  have hzero : digit? 16 '0' = some 0 := by decide
  induction width with
  | zero => rfl
  | succ k ih => simpa only [List.replicate_succ, List.cons_append, digits?, hzero] using ih

theorem natural?_of_digits? (hne : cs ≠ []) (h : digits? radix 0 cs = some n) :
    natural? radix cs = some n := by
  cases cs with
  | nil => exact absurd rfl hne
  | cons c rest => exact h

theorem natural?_decimal : natural? 10 (Nat.toDigits 10 n) = some n := by
  have := digits?_toDigits (n := n) (by decide) legible_decimal
  rw [List.map_id] at this
  exact natural?_of_digits? (by simp) this

theorem natural?_hex : natural? 16 (Text.hex width n).toList = some n := by
  rw [Text.hex, String.toList_ofList, List.leftpad]
  refine natural?_of_digits? (by simp) ?_
  rw [digits?_zeros]
  exact digits?_toDigits (by decide) legible_upper

theorem natural?_lowerHex : natural? 16 (Text.lowerHex n).toList = some n := by
  have := digits?_toDigits (n := n) (by decide) legible_lower
  rw [List.map_id] at this
  rw [Text.lowerHex, String.toList_ofList]
  exact natural?_of_digits? (by simp) this

theorem isSome_of_digits? (h : digits? radix value cs = some n) (hc : c ∈ cs) :
    (digit? radix c).isSome = true := by
  induction cs generalizing value with
  | nil => cases hc
  | cons c' rest ih =>
      simp only [digits?] at h
      cases hd : digit? radix c' with
      | none => simp [hd] at h
      | some d =>
          rw [hd] at h
          rcases List.mem_cons.1 hc with rfl | hc
          · simp [hd]
          · exact ih h hc

theorem isSome_of_natural? (h : natural? radix cs = some n) (hc : c ∈ cs) :
    (digit? radix c).isSome = true := by
  cases cs with
  | nil => cases h
  | cons c rest => exact isSome_of_digits? h hc

theorem isRunChar_of_digit (h : (digit? radix c).isSome = true) : Token.isRunChar c = true := by
  have hrange : 0x30 ≤ c.toNat ∧ c.toNat ≤ 0x39 ∨ 0x41 ≤ c.toNat ∧ c.toNat ≤ 0x46 ∨
      0x61 ≤ c.toNat ∧ c.toNat ≤ 0x66 := by
    unfold digit? at h
    simp only [Char.le_def, UInt32.le_iff_toNat_le] at h
    split at h
    · exact .inl ‹_›
    · split at h
      · exact .inr (.inr ‹_›)
      · split at h
        · exact .inr (.inl ‹_›)
        · simp at h
  have hne (d : Char) (hd : d.toNat < 0x30 ∨ d.toNat = 0x3B) : c ≠ d := by
    rintro rfl
    omega
  simp only [Token.isRunChar, Text.isBlank, Text.blanks, List.any_cons, List.any_nil]
  simp [hne]
  omega

/-! ## Literals -/

/-- Whether a number is within the signed 32-bit range. -/
def InRange (z : Int) : Prop := -2147483648 ≤ z ∧ z ≤ 2147483647

theorem inRange_eq_ok : inRange z = .ok z ↔ InRange z := by
  unfold inRange InRange
  split
  · simp only [reduceCtorEq, false_iff]
    omega
  · split
    · simp only [reduceCtorEq, false_iff]
      omega
    · simp only [true_iff]
      omega

theorem inRange_of_literal? (h : literal? cs = some (.ok z)) : InRange z := by
  have hkeep {y : Int} (hy : inRange y = .ok z) : InRange z := by
    obtain rfl : y = z := by
      unfold inRange at hy
      split at hy
      · cases hy
      · split at hy
        · cases hy
        · exact Except.ok.inj hy
    exact inRange_eq_ok.1 hy
  unfold literal? at h
  split at h
  · cases h
  · split at h
    · obtain ⟨y, -, hy⟩ := Option.map_eq_some_iff.1 h
      exact hkeep hy
    · cases h

theorem integer?_of_natural? (h : natural? radix cs = some n) :
    integer? radix cs = some (n : Int) := by
  unfold integer?
  split
  · rename_i rest
    have := isSome_of_natural? h (List.mem_cons_self : '-' ∈ '-' :: rest)
    simp [digit?, show ¬ '0' ≤ '-' by decide, show ¬ 'a' ≤ '-' by decide,
      show ¬ 'A' ≤ '-' by decide] at this
  · rw [h]
    rfl

theorem integer?_decimal : integer? 10 (toString z).toList = some z := by
  rw [Int.toString_eq_repr, Int.repr_eq_if]
  split
  · rw [Nat.toList_repr, integer?_of_natural? natural?_decimal, Int.toNat_of_nonneg ‹_›]
  · rw [String.toList_append, Nat.toList_repr, show "-".toList = ['-'] by decide]
    simp only [List.singleton_append, integer?, natural?_decimal]
    change some (-((-z).toNat : Int)) = some z
    rw [Option.some.injEq]
    omega

theorem toList_text : (Field.text z).toList = '#' :: (toString z).toList := by
  rw [Field.text, String.toList_append]
  rfl

/-- A number that is printed as an operand is read as a literal. -/
theorem literal?_text (h : InRange z) : literal? (Field.text z).toList = some (.ok z) := by
  have hradix : radix? '#' = some 10 := by decide
  simp only [toList_text, literal?, hradix, integer?_decimal, Option.map_some, inRange_eq_ok.2 h]

theorem literal?_hex (hn : n ≤ 2147483647) (h : natural? 16 cs = some n) :
    literal? ('x' :: cs) = some (.ok n) := by
  have hradix : radix? 'x' = some 16 := by decide
  have hin : InRange n := ⟨by omega, by omega⟩
  simp only [literal?, hradix, integer?_of_natural? h, Option.map_some, inRange_eq_ok.2 hin]

theorem isRunChar_of_text (hc : c ∈ (Field.text z).toList) : Token.isRunChar c = true := by
  have hdigit {n : Nat} (hc : c ∈ Nat.toDigits 10 n) : Token.isRunChar c = true :=
    isRunChar_of_digit (isSome_of_natural? natural?_decimal hc)
  rw [toList_text, Int.toString_eq_repr, Int.repr_eq_if] at hc
  rcases List.mem_cons.1 hc with rfl | hc
  · decide
  · split at hc
    · exact hdigit (Nat.toList_repr ▸ hc)
    · rw [String.toList_append, Nat.toList_repr] at hc
      rcases List.mem_cons.1 hc with rfl | hc
      · decide
      · exact hdigit hc

theorem isRunChar_of_hex (h : natural? 16 cs = some n) (hc : c ∈ 'x' :: cs) :
    Token.isRunChar c = true := by
  rcases List.mem_cons.1 hc with rfl | hc
  · decide
  · exact isRunChar_of_digit (isSome_of_natural? h hc)

end Lc3.Numeral
