import Mathlib.Data.List.Forall2
import Mathlib.Data.Nat.Digits.Defs
import Mathlib.Tactic.Ring
import Lc3.Proofs.Letters

/-!
# What a literal denotes

A literal is a letter, perhaps a minus sign, and digits, and denotes an integer however many digits
there are. Main statement: a text is taken as a literal exactly if it has this form, and is then the
integer that it denotes, kept to the signed 32-bit range.
-/

namespace Lc3.Numeral

/-- The letters of the radixes. -/
inductive Letter : Char → Nat → Prop
  | decimal : Letter '#' 10
  | hex : Letter 'x' 16
  | upperHex : Letter 'X' 16
  | binary : Letter 'b' 2
  | upperBinary : Letter 'B' 2

/-- A digit of a radix, in either case. -/
structure Digit (radix : Nat) (c : Char) (d : Nat) : Prop where
  lt : d < radix
  spelled : c = d.digitChar ∨ c = d.digitChar.toUpper

/-- A literal and the integer that its digits make. -/
inductive Denotes : List Char → Int → Prop
  | positive {a : Char} {radix : Nat} {cs : List Char} {ds : List Nat} (ha : Letter a radix)
      (hd : List.Forall₂ (Digit radix) cs ds) (hne : cs ≠ []) :
      Denotes (a :: cs) (Nat.ofDigits radix ds.reverse : Nat)
  | negative {a : Char} {radix : Nat} {cs : List Char} {ds : List Nat} (ha : Letter a radix)
      (hd : List.Forall₂ (Digit radix) cs ds) (hne : cs ≠ []) :
      Denotes (a :: '-' :: cs) (-(Nat.ofDigits radix ds.reverse : Nat))

variable {radix d n value : Nat} {c : Char} {cs : List Char} {v v' : Int}

theorem Letter.le (h : Letter c radix) : radix ≤ 16 := by cases h <;> decide

theorem radix?_eq_some : radix? c = some radix ↔ Letter c radix := by
  constructor
  · intro h
    unfold radix? at h
    split at h
    · rename_i hc
      subst hc
      cases h
      exact .decimal
    · split at h
      · rename_i hc
        cases h
        rcases hc with rfl | rfl
        · exact .hex
        · exact .upperHex
      · split at h
        · rename_i hc
          cases h
          rcases hc with rfl | rfl
          · exact .binary
          · exact .upperBinary
        · cases h
  · rintro ⟨⟩ <;> rfl

/-! ## Digits -/

theorem toNat_digitChar (hd : d < 16) :
    d.digitChar.toNat = (if d < 10 then 48 + d else 87 + d) ∧
      d.digitChar.toUpper.toNat = if d < 10 then 48 + d else 55 + d := by
  revert d
  decide

theorem digit?_eq_some (hr : radix ≤ 16) : digit? radix c = some d ↔ Digit radix c d := by
  rw [digit?_eq, Option.filter_eq_some_iff]
  constructor
  · rintro ⟨hc, hlt⟩
    have hlt : d < radix := by simpa using hlt
    obtain ⟨hlower, hupper⟩ := toNat_digitChar (Nat.lt_of_lt_of_le hlt hr)
    refine ⟨hlt, ?_⟩
    rw [← Char.toNat_inj, ← Char.toNat_inj, hlower, hupper]
    split at hc
    · obtain rfl := Option.some.inj hc
      rw [if_pos (by omega)]
      omega
    · split at hc
      · obtain rfl := Option.some.inj hc
        rw [if_neg (by omega)]
        omega
      · split at hc
        · obtain rfl := Option.some.inj hc
          rw [if_neg (by omega), if_neg (by omega)]
          omega
        · cases hc
  · rintro ⟨hlt, hc⟩
    obtain ⟨hlower, hupper⟩ := toNat_digitChar (Nat.lt_of_lt_of_le hlt hr)
    rw [← Char.toNat_inj, ← Char.toNat_inj, hlower, hupper] at hc
    refine ⟨?_, by simpa using hlt⟩
    by_cases hten : d < 10
    · simp only [hten, ↓reduceIte, or_self] at hc
      rw [if_pos (by omega), Option.some.injEq]
      omega
    · simp only [hten, ↓reduceIte] at hc
      rw [if_neg (by omega)]
      rcases hc with hc | hc
      · rw [if_pos (by omega), Option.some.injEq]
        omega
      · rw [if_neg (by omega), if_pos (by omega), Option.some.injEq]
        omega

theorem digits?_eq_some (hr : radix ≤ 16) : digits? radix value cs = some n ↔
    ∃ ds, List.Forall₂ (Digit radix) cs ds ∧
      n = value * radix ^ cs.length + Nat.ofDigits radix ds.reverse := by
  induction cs generalizing value with
  | nil => simp [digits?, eq_comm]
  | cons c cs ih =>
      have hvalue {d : Nat} {ds : List Nat} (hlen : cs.length = ds.length) :
          (value * radix + d) * radix ^ cs.length + Nat.ofDigits radix ds.reverse =
            value * radix ^ (c :: cs).length + Nat.ofDigits radix (d :: ds).reverse := by
        rw [List.reverse_cons, Nat.ofDigits_append, Nat.ofDigits_singleton, List.length_reverse,
          List.length_cons, hlen]
        ring
      simp only [digits?]
      constructor
      · intro h
        cases hd : digit? radix c with
        | none => simp [hd] at h
        | some d =>
            rw [hd] at h
            obtain ⟨ds, hds, rfl⟩ := ih.1 h
            exact ⟨d :: ds, .cons ((digit?_eq_some hr).1 hd) hds, hvalue hds.length_eq⟩
      · rintro ⟨_, _ | ⟨hd, hds⟩, rfl⟩
        rw [(digit?_eq_some hr).2 hd]
        exact ih.2 ⟨_, hds, (hvalue hds.length_eq).symm⟩

theorem natural?_eq_some (hr : radix ≤ 16) : natural? radix cs = some n ↔
    cs ≠ [] ∧ ∃ ds, List.Forall₂ (Digit radix) cs ds ∧ n = Nat.ofDigits radix ds.reverse := by
  cases cs with
  | nil => simp [natural?]
  | cons c cs => simp [natural?, digits?_eq_some hr]

theorem integer?_eq_some : integer? radix cs = some v ↔
    (∃ n : Nat, natural? radix cs = some n ∧ v = n) ∨
      ∃ (rest : List Char) (n : Nat), cs = '-' :: rest ∧ natural? radix rest = some n ∧ v = -n := by
  constructor
  · intro h
    unfold integer? at h
    split at h
    · rename_i rest
      cases hn : natural? radix rest with
      | none => simp [hn] at h
      | some n =>
          simp only [hn] at h
          cases h
          exact .inr ⟨rest, n, rfl, hn, rfl⟩
    · cases hn : natural? radix cs with
      | none => simp [hn] at h
      | some n =>
          simp only [hn] at h
          cases h
          exact .inl ⟨n, rfl, rfl⟩
  · rintro (⟨n, hn, rfl⟩ | ⟨rest, n, rfl, hn, rfl⟩)
    · exact integer?_of_natural? hn
    · simp only [integer?, hn]
      rfl

/-! ## Literals -/

/-- A text is a literal exactly if it denotes an integer. -/
theorem literal?_eq_some {r : Except Overflow Int} :
    literal? cs = some r ↔ ∃ v, Denotes cs v ∧ r = inRange v := by
  constructor
  · intro h
    unfold literal? at h
    split at h
    · cases h
    split at h
    · rename_i radix hradix
      have ha := radix?_eq_some.1 hradix
      obtain ⟨v, hv, rfl⟩ := Option.map_eq_some_iff.1 h
      refine ⟨v, ?_, rfl⟩
      rcases integer?_eq_some.1 hv with ⟨n, hn, rfl⟩ | ⟨rest, n, rfl, hn, rfl⟩
      · obtain ⟨hne, ds, hds, rfl⟩ := (natural?_eq_some ha.le).1 hn
        exact .positive ha hds hne
      · obtain ⟨hne, ds, hds, rfl⟩ := (natural?_eq_some ha.le).1 hn
        exact .negative ha hds hne
    · cases h
  · rintro ⟨v, hv, rfl⟩
    cases hv with
    | positive ha hds hne =>
        have hn := (natural?_eq_some ha.le).2 ⟨hne, _, hds, rfl⟩
        simp only [literal?, radix?_eq_some.2 ha, integer?_eq_some.2 (.inl ⟨_, hn, rfl⟩),
          Option.map_some]
    | negative ha hds hne =>
        have hn := (natural?_eq_some ha.le).2 ⟨hne, _, hds, rfl⟩
        simp only [literal?, radix?_eq_some.2 ha,
          integer?_eq_some.2 (.inr ⟨_, _, rfl, hn, rfl⟩), Option.map_some]

theorem inRange_eq_ok_iff : inRange v = .ok v' ↔ InRange v ∧ v = v' := by
  constructor
  · intro h
    have hin : InRange v := by
      by_contra hout
      unfold inRange at h
      split at h
      · cases h
      · split at h
        · cases h
        · exact hout ⟨by omega, by omega⟩
    rw [inRange_eq_ok.2 hin] at h
    exact ⟨hin, Except.ok.inj h⟩
  · rintro ⟨hin, rfl⟩
    exact inRange_eq_ok.2 hin

theorem exists_overflow (h : ¬ InRange v) : ∃ o, inRange v = .error o := by
  cases hr : inRange v with
  | ok v' => exact absurd (inRange_eq_ok_iff.1 hr).1 h
  | error o => exact ⟨o, rfl⟩

theorem denotes_of_literal? (h : literal? cs = some (.ok v)) : Denotes cs v := by
  obtain ⟨v', hv', hr⟩ := literal?_eq_some.1 h
  obtain ⟨-, rfl⟩ := inRange_eq_ok_iff.1 hr.symm
  exact hv'

namespace Denotes

theorem ne_nil (h : Denotes cs v) : cs ≠ [] := by cases h <;> simp

theorem isRunChar (h : Denotes cs v) : ∀ c ∈ cs, Token.isRunChar c = true := by
  have hletter {a : Char} {radix : Nat} (ha : Letter a radix) : Token.isRunChar a = true := by
    cases ha <;> decide
  have hdigits {radix : Nat} {cs : List Char} {ds : List Nat} (ha : radix ≤ 16)
      (hds : List.Forall₂ (Digit radix) cs ds) (hne : cs ≠ []) :
      ∀ c ∈ cs, Token.isRunChar c = true := fun c hc =>
    isRunChar_of_digit (isSome_of_natural? ((natural?_eq_some ha).2 ⟨hne, ds, hds, rfl⟩) hc)
  cases h with
  | positive ha hds hne => exact List.forall_mem_cons.2 ⟨hletter ha, hdigits ha.le hds hne⟩
  | negative ha hds hne =>
      exact List.forall_mem_cons.2 ⟨hletter ha,
        List.forall_mem_cons.2 ⟨by decide, hdigits ha.le hds hne⟩⟩

theorem literal? (h : Denotes cs v) (hv : InRange v) : literal? cs = some (.ok v) :=
  literal?_eq_some.2 ⟨v, h, (inRange_eq_ok.2 hv).symm⟩

theorem ofRun (h : Denotes cs v) (hv : InRange v) : Token.ofRun cs = .ok (.literal v) := by
  simp [Token.ofRun, h.literal? hv]

end Denotes

end Lc3.Numeral
