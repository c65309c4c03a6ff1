import Lc3.Proofs.Denotation
import Lc3.Proofs.Spacing
import Lc3.Token.Pattern

/-!
# What the patterns match

Main statements: a pattern that is to be taken at a place takes the whole of what any pattern of its
kind matches there, and a run that is so taken is read as the token of that run. The engine that
tries everything takes the longest match.
-/

/-- A list is cut in one way only so that the first part goes on as long as a property holds. -/
theorem List.append_inj_of_stops {α : Type} {a b c d : List α} {P : α → Prop}
    (h : a ++ b = c ++ d) (hlen : a.length ≤ c.length) (hc : ∀ x ∈ c, P x)
    (hstop : ∀ x ∈ b.head?, ¬ P x) : a = c ∧ b = d := by
  rcases List.append_eq_append_cases h with ⟨m, rfl, rfl⟩ | ⟨m, hm, rfl, -⟩
  · obtain _ | ⟨x, m⟩ := m
    · simp
    · exact absurd (hc x (by simp)) (hstop x rfl)
  · have := List.length_pos_of_ne_nil hm
    rw [List.length_append] at hlen
    omega

namespace Lc3

/-! ## Regular expressions -/

namespace Text

variable {p q : Char → Bool} {f : Factor} {fs : Regex} {c : Char} {cs : List Char}

theorem Factor.accepts_one :
    (Factor.one p).accepts cs = true ↔ ∃ c, cs = [c] ∧ p c = true := by
  simp only [accepts, Bool.and_eq_true, beq_iff_eq, List.length_eq_one_iff, List.all_eq_true]
  constructor
  · rintro ⟨⟨c, rfl⟩, hall⟩
    exact ⟨c, rfl, hall c (.head _)⟩
  · rintro ⟨c, rfl, hc⟩
    exact ⟨⟨c, rfl⟩, by simpa using hc⟩

theorem Factor.accepts_plus :
    (Factor.plus p).accepts cs = true ↔ cs ≠ [] ∧ ∀ c ∈ cs, p c = true := by
  simp [accepts]

theorem Factor.accepts_star : (Factor.star p).accepts cs = true ↔ ∀ c ∈ cs, p c = true := by
  simp [accepts]

namespace Regex

theorem accepts_cons : accepts (f :: fs) cs = true ↔
    ∃ as bs, cs = as ++ bs ∧ f.accepts as = true ∧ accepts fs bs = true := by
  simp only [accepts, List.any_eq_true, List.mem_range, Bool.and_eq_true]
  constructor
  · rintro ⟨n, -, hf, hfs⟩
    exact ⟨_, _, (List.take_append_drop n cs).symm, hf, hfs⟩
  · rintro ⟨as, bs, rfl, hf, hfs⟩
    refine ⟨as.length, ?_, ?_⟩
    · rw [List.length_append]
      omega
    · rw [List.take_left, List.drop_left]
      exact ⟨hf, hfs⟩

theorem accepts_single : accepts [f] cs = true ↔ f.accepts cs = true := by
  rw [accepts_cons]
  constructor
  · rintro ⟨as, bs, rfl, hf, hnil⟩
    obtain rfl : bs = [] := by simpa [accepts] using hnil
    rwa [List.append_nil]
  · intro hf
    exact ⟨cs, [], (List.append_nil cs).symm, hf, rfl⟩

theorem accepts_one_cons : accepts (.one p :: fs) cs = true ↔
    ∃ c bs, cs = c :: bs ∧ p c = true ∧ accepts fs bs = true := by
  simp only [accepts_cons, Factor.accepts_one]
  constructor
  · rintro ⟨_, bs, rfl, ⟨c, rfl, hc⟩, hbs⟩
    exact ⟨c, bs, rfl, hc, hbs⟩
  · rintro ⟨c, bs, rfl, hc, hbs⟩
    exact ⟨[c], bs, rfl, ⟨c, rfl, hc⟩, hbs⟩

theorem accepts_optional_cons : accepts (.optional p :: fs) cs = true ↔
    accepts fs cs = true ∨ ∃ c bs, cs = c :: bs ∧ p c = true ∧ accepts fs bs = true := by
  rw [accepts_cons]
  constructor
  · rintro ⟨as, bs, rfl, hf, hbs⟩
    obtain _ | ⟨c, _ | ⟨d, as⟩⟩ := as
    · exact .inl hbs
    · exact .inr ⟨c, bs, rfl, by simpa [Factor.accepts] using hf, hbs⟩
    · simp [Factor.accepts] at hf
  · rintro (hcs | ⟨c, bs, rfl, hc, hbs⟩)
    · exact ⟨[], cs, rfl, rfl, hcs⟩
    · exact ⟨[c], bs, rfl, by simpa [Factor.accepts] using hc, hbs⟩

end Regex

end Text

namespace Token.Pattern

variable {c : Char} {p q : Pattern} {word rest w t cs ds : List Char} {letter digit : Char → Bool}

/-! ## Patterns and runs -/

theorem accepts_literalRegex : (literalRegex letter digit).accepts word = true ↔
    ∃ a ds, letter a = true ∧ (ds ≠ [] ∧ ∀ c ∈ ds, digit c = true) ∧
      (word = a :: ds ∨ word = a :: '-' :: ds) := by
  simp only [literalRegex, Text.Regex.accepts_one_cons, Text.Regex.accepts_optional_cons,
    Text.Regex.accepts_single, Text.Factor.accepts_plus]
  constructor
  · rintro ⟨a, bs, rfl, ha, hbs | ⟨c, ds, rfl, hc, hds⟩⟩
    · exact ⟨a, bs, ha, hbs, .inl rfl⟩
    · obtain rfl : c = '-' := by simpa using hc
      exact ⟨a, ds, ha, hds, .inr rfl⟩
  · rintro ⟨a, ds, ha, hds, rfl | rfl⟩
    · exact ⟨a, ds, rfl, ha, .inl hds⟩
    · exact ⟨a, _, rfl, ha, .inr ⟨'-', ds, rfl, rfl, hds⟩⟩

/-! ### Literals -/

theorem isSome_digit? {radix : Nat} : (Numeral.digit? radix c).isSome = true ↔
    (48 ≤ c.toNat ∧ c.toNat ≤ 57 ∧ c.toNat - 48 < radix) ∨
      (97 ≤ c.toNat ∧ c.toNat ≤ 102 ∧ c.toNat - 87 < radix) ∨
        (65 ≤ c.toNat ∧ c.toNat ≤ 70 ∧ c.toNat - 55 < radix) := by
  rw [Numeral.digit?_eq, Option.isSome_filter]
  split
  · simp
    omega
  · split
    · simp
      omega
    · split
      · simp
        omega
      · simp
        omega

theorem isDigit_iff : c.isDigit = true ↔ (Numeral.digit? 10 c).isSome = true := by
  rw [Char.isDigit_iff_toNat, isSome_digit?]
  change 48 ≤ c.toNat ∧ c.toNat ≤ 57 ↔ _
  omega

theorem isHexDigit_iff : isHexDigit c = true ↔ (Numeral.digit? 16 c).isSome = true := by
  have hupper : 'A' ≤ c ∧ c ≤ 'F' ↔ 65 ≤ c.toNat ∧ c.toNat ≤ 70 := Iff.rfl
  have hlower : 'a' ≤ c ∧ c ≤ 'f' ↔ 97 ≤ c.toNat ∧ c.toNat ≤ 102 := Iff.rfl
  have hdigit : c.isDigit = true ↔ 48 ≤ c.toNat ∧ c.toNat ≤ 57 := Char.isDigit_iff_toNat
  simp only [isHexDigit, Bool.or_eq_true, Bool.and_eq_true, decide_eq_true_eq, hupper, hlower,
    hdigit, isSome_digit?]
  omega

theorem isBinaryDigit_iff :
    (c == '0' || c == '1') = true ↔ (Numeral.digit? 2 c).isSome = true := by
  have hzero : c = '0' ↔ c.toNat = 48 := by rw [← Char.toNat_inj]; rfl
  have hone : c = '1' ↔ c.toNat = 49 := by rw [← Char.toNat_inj]; rfl
  simp only [Bool.or_eq_true, beq_iff_eq, hzero, hone, isSome_digit?]
  omega

theorem isSome_digits? {radix value : Nat} : (Numeral.digits? radix value cs).isSome = true ↔
    ∀ c ∈ cs, (Numeral.digit? radix c).isSome = true := by
  induction cs generalizing value with
  | nil => simp [Numeral.digits?]
  | cons c cs ih =>
      rw [Numeral.digits?, List.forall_mem_cons]
      cases Numeral.digit? radix c with
      | none => simp
      | some d => simp [ih]

theorem isSome_natural? {radix : Nat} : (Numeral.natural? radix cs).isSome = true ↔
    cs ≠ [] ∧ ∀ c ∈ cs, (Numeral.digit? radix c).isSome = true := by
  cases cs with
  | nil => simp [Numeral.natural?]
  | cons c cs => simp [Numeral.natural?, isSome_digits?]

theorem isSome_integer? {radix : Nat} : (Numeral.integer? radix cs).isSome = true ↔
    ∃ ds, (Numeral.natural? radix ds).isSome = true ∧ (cs = ds ∨ cs = '-' :: ds) := by
  simp only [Option.isSome_iff_exists, Numeral.integer?_eq_some]
  constructor
  · rintro ⟨_, ⟨n, hn, -⟩ | ⟨ds, n, rfl, hn, -⟩⟩
    · exact ⟨cs, ⟨n, hn⟩, .inl rfl⟩
    · exact ⟨ds, ⟨n, hn⟩, .inr rfl⟩
  · rintro ⟨ds, ⟨n, hn⟩, rfl | rfl⟩
    · exact ⟨n, .inl ⟨n, hn, rfl⟩⟩
    · exact ⟨-n, .inr ⟨ds, n, rfl, hn, rfl⟩⟩

/-- A pattern of literals matches the letter of its radix before an integer in that radix. -/
theorem accepts_literalRegex_iff {radix : Nat}
    (hl : ∀ a, letter a = true ↔ Numeral.radix? a = some radix)
    (hd : ∀ c, digit c = true ↔ (Numeral.digit? radix c).isSome = true) :
    (literalRegex letter digit).accepts word = true ↔
      ∃ a cs, word = a :: cs ∧ Numeral.radix? a = some radix ∧
        (Numeral.integer? radix cs).isSome = true := by
  simp only [accepts_literalRegex, hl, hd, isSome_integer?, isSome_natural?]
  constructor
  · rintro ⟨a, ds, ha, hds, rfl | rfl⟩
    · exact ⟨a, ds, rfl, ha, ds, hds, .inl rfl⟩
    · exact ⟨a, _, rfl, ha, ds, hds, .inr rfl⟩
  · rintro ⟨a, cs, rfl, ha, ds, hds, hcs⟩
    exact ⟨a, ds, ha, hds, hcs.imp (congrArg _) (congrArg _)⟩

theorem radix?_eq_ten : (c == '#') = true ↔ Numeral.radix? c = some 10 := by
  rw [Numeral.radix?_eq_some, beq_iff_eq]
  constructor
  · rintro rfl
    exact .decimal
  · rintro ⟨⟩
    rfl

theorem radix?_eq_sixteen : (c == 'X' || c == 'x') = true ↔ Numeral.radix? c = some 16 := by
  rw [Numeral.radix?_eq_some, Bool.or_eq_true, beq_iff_eq, beq_iff_eq]
  constructor
  · rintro (rfl | rfl)
    · exact .upperHex
    · exact .hex
  · rintro ⟨⟩ <;> simp

theorem radix?_eq_two : (c == 'B' || c == 'b') = true ↔ Numeral.radix? c = some 2 := by
  rw [Numeral.radix?_eq_some, Bool.or_eq_true, beq_iff_eq, beq_iff_eq]
  constructor
  · rintro (rfl | rfl)
    · exact .upperBinary
    · exact .binary
  · rintro ⟨⟩ <;> simp

/-- A text is a literal exactly if one of the three patterns of literals matches it. -/
theorem isSome_literal? : (Numeral.literal? word).isSome = true ↔
    decimal.regex.accepts word = true ∨ hexadecimal.regex.accepts word = true ∨
      binary.regex.accepts word = true := by
  have hliteral : (Numeral.literal? word).isSome = true ↔ ∃ radix a cs, word = a :: cs ∧
      Numeral.radix? a = some radix ∧ (Numeral.integer? radix cs).isSome = true := by
    cases word with
    | nil => simp [Numeral.literal?]
    | cons a cs =>
        rw [Numeral.literal?]
        cases ha : Numeral.radix? a <;> simp [ha]
  simp only [hliteral, regex,
    accepts_literalRegex_iff (fun _ => radix?_eq_ten) fun _ => isDigit_iff,
    accepts_literalRegex_iff (fun _ => radix?_eq_sixteen) fun _ => isHexDigit_iff,
    accepts_literalRegex_iff (fun _ => radix?_eq_two) fun _ => isBinaryDigit_iff]
  constructor
  · rintro ⟨radix, a, cs, rfl, ha, hcs⟩
    cases Numeral.radix?_eq_some.1 ha with
    | decimal => exact .inl ⟨_, cs, rfl, ha, hcs⟩
    | hex | upperHex => exact .inr (.inl ⟨_, cs, rfl, ha, hcs⟩)
    | binary | upperBinary => exact .inr (.inr ⟨_, cs, rfl, ha, hcs⟩)
  · rintro (h | h | h)
    · exact ⟨10, h⟩
    · exact ⟨16, h⟩
    · exact ⟨2, h⟩

theorem readLiteral_eq (h : (Numeral.literal? word).isSome = true) :
    readLiteral word = ofRun word := by
  obtain ⟨r, hr⟩ := Option.isSome_iff_exists.1 h
  cases r <;> simp [readLiteral, ofRun, hr]

/-! ### Other runs -/

theorem accepts_register : register.regex.accepts word = true ↔
    ∃ a d, word = [a, d] ∧ (a = 'R' ∨ a = 'r') ∧ '0' ≤ d ∧ d ≤ '7' := by
  simp only [regex, Text.Regex.accepts_one_cons, Text.Regex.accepts_single, Text.Factor.accepts_one,
    Bool.or_eq_true, beq_iff_eq, Bool.and_eq_true, decide_eq_true_eq]
  constructor
  · rintro ⟨a, _, rfl, ha, d, rfl, hd⟩
    exact ⟨a, d, rfl, ha, hd⟩
  · rintro ⟨a, d, rfl, ha, hd⟩
    exact ⟨a, [d], rfl, ha, d, rfl, hd⟩

theorem reg?_of_accepts (h : register.regex.accepts word = true) :
    (reg? word).map Token.reg = some (readRegister word) := by
  obtain ⟨a, d, rfl, ha, hd⟩ := accepts_register.1 h
  have hlow : 48 ≤ d.toNat := hd.1
  have hhigh : d.toNat ≤ 55 := hd.2
  have hlt : d.toNat - '0'.toNat < 8 := show d.toNat - 48 < 8 by omega
  rw [reg?, if_pos ⟨ha, hd⟩, Reg.ofNumber?, if_pos hlt]
  rfl

theorem accepts_of_reg? {r : Reg} (h : reg? word = some r) :
    register.regex.accepts word = true := by
  rw [accepts_register]
  unfold reg? at h
  split at h
  · rename_i a d
    split at h
    · rename_i hc
      exact ⟨a, d, rfl, hc⟩
    · cases h
  · cases h

theorem accepts_name :
    name.regex.accepts word = true ↔ word ≠ [] ∧ ∀ c ∈ word, isNameChar c = true := by
  rw [regex, Text.Regex.accepts_single, Text.Factor.accepts_plus]

theorem accepts_directive : directive.regex.accepts word = true ↔
    ∃ name, word = '.' :: name ∧ name ≠ [] ∧ ∀ c ∈ name, isNameChar c = true := by
  simp only [regex, Text.Regex.accepts_one_cons, Text.Regex.accepts_single,
    Text.Factor.accepts_plus, beq_iff_eq]
  constructor
  · rintro ⟨_, name, rfl, rfl, hname⟩
    exact ⟨name, rfl, hname⟩
  · rintro ⟨name, rfl, hname⟩
    exact ⟨'.', name, rfl, rfl, hname⟩

theorem directive?_of_accepts (h : directive.regex.accepts word = true) :
    directive? word = some (String.ofList word.tail) := by
  obtain ⟨name, rfl, hne, hname⟩ := accepts_directive.1 h
  exact directive?_eq_some.2 ⟨name, hne, hname, rfl, rfl⟩

theorem accepts_of_directive? {d : String} (h : directive? word = some d) :
    directive.regex.accepts word = true := by
  obtain ⟨name, hne, hname, hword, -⟩ := directive?_eq_some.1 h
  exact accepts_directive.2 ⟨name, hword, hne, hname⟩

theorem accepts_unknown :
    unknown.regex.accepts word = true ↔ word ≠ [] ∧ ∀ c ∈ word, isRunChar c = true := by
  rw [regex, Text.Regex.accepts_single, Text.Factor.accepts_plus]

/-! ### What is not a run -/

theorem accepts_separators :
    separators.regex.accepts word = true ↔ word ≠ [] ∧ ∀ c ∈ word, isSeparator c = true := by
  rw [regex, Text.Regex.accepts_single, Text.Factor.accepts_plus]

theorem accepts_quote : quote.regex.accepts word = true ↔ word = ['"'] := by
  simp [regex, Text.Regex.accepts_single, Text.Factor.accepts_one]

theorem accepts_comment :
    comment.regex.accepts word = true ↔ ∃ cs, word = ';' :: cs ∧ ∀ c ∈ cs, c ≠ '\n' := by
  simp only [regex, Text.Regex.accepts_one_cons, Text.Regex.accepts_single,
    Text.Factor.accepts_star, beq_iff_eq, bne_iff_ne]
  constructor
  · rintro ⟨_, cs, rfl, rfl, hcs⟩
    exact ⟨cs, rfl, hcs⟩
  · rintro ⟨cs, rfl, hcs⟩
    exact ⟨';', cs, rfl, rfl, hcs⟩

/-! ## Kinds of patterns -/

/-- What begins where the patterns match that have a first character in common. -/
inductive Kind where
  | separators
  | string
  | comment
  | run
  deriving DecidableEq, Repr

/-- The kind of a pattern. -/
def kind : Pattern → Kind
  | .separators => .separators
  | .quote => .string
  | .comment => .comment
  | _ => .run

namespace Kind

/-- The characters that a match begins with. -/
def opens : Kind → Char → Bool
  | .separators => isSeparator
  | .string => (· == '"')
  | .comment => (· == ';')
  | .run => isRunChar

/-- The characters that a match goes on with. -/
def goesOn : Kind → Char → Bool
  | .separators => isSeparator
  | .string => fun _ => false
  | .comment => (· != '\n')
  | .run => isRunChar

theorem eq_of_opens {k k' : Kind} (h : k.opens c = true) (h' : k'.opens c = true) : k = k' := by
  have hquote (k : Kind) : k.opens '"' = true → k = .string := by cases k <;> decide
  have hsemi (k : Kind) : k.opens ';' = true → k = .comment := by cases k <;> decide
  have hstring (h : Kind.string.opens c = true) : c = '"' := by simpa [opens] using h
  have hcomment (h : Kind.comment.opens c = true) : c = ';' := by simpa [opens] using h
  have hrun (h : isSeparator c = true) (h' : isRunChar c = true) : False := by
    cases (not_isRunChar_of_isSeparator h).symm.trans h'
  cases k with
  | string =>
      rw [hstring h] at h'
      exact (hquote k' h').symm
  | comment =>
      rw [hcomment h] at h'
      exact (hsemi k' h').symm
  | separators | run =>
      cases k' with
      | string =>
          rw [hstring h'] at h
          exact hquote _ h
      | comment =>
          rw [hcomment h'] at h
          exact hsemi _ h
      | separators | run => first | rfl | exact (hrun h h').elim | exact (hrun h' h).elim

end Kind

/-- A match is a character that the matches of its kind begin with, and characters that they go on
with. -/
theorem exists_of_accepts (h : p.regex.accepts word = true) :
    ∃ c cs, word = c :: cs ∧ p.kind.opens c = true ∧ ∀ d ∈ cs, p.kind.goesOn d = true := by
  -- What is not of another kind is a run.
  have hrun (hne : word ≠ []) (hword : ∀ c ∈ word, isRunChar c = true) :
      ∃ c cs, word = c :: cs ∧ Kind.run.opens c = true ∧ ∀ d ∈ cs, Kind.run.goesOn d = true := by
    obtain ⟨c, cs, rfl⟩ := List.exists_cons_of_ne_nil hne
    exact ⟨c, cs, rfl, hword c (.head _), fun d hd => hword d (.tail _ hd)⟩
  have hliteral (h : (Numeral.literal? word).isSome = true) :
      ∃ c cs, word = c :: cs ∧ Kind.run.opens c = true ∧ ∀ d ∈ cs, Kind.run.goesOn d = true := by
    obtain ⟨r, hr⟩ := Option.isSome_iff_exists.1 h
    obtain ⟨v, hv, -⟩ := Numeral.literal?_eq_some.1 hr
    exact hrun hv.ne_nil hv.isRunChar
  have hname {name : List Char} (h : ∀ c ∈ name, isNameChar c = true) :
      ∀ c ∈ name, isRunChar c = true := fun c hc => isRunChar_of_isNameChar (h c hc)
  cases p with
  | separators =>
      obtain ⟨hne, hall⟩ := accepts_separators.1 h
      obtain ⟨c, cs, rfl⟩ := List.exists_cons_of_ne_nil hne
      exact ⟨c, cs, rfl, hall c (.head _), fun d hd => hall d (.tail _ hd)⟩
  | decimal => exact hliteral (isSome_literal?.2 (.inl h))
  | hexadecimal => exact hliteral (isSome_literal?.2 (.inr (.inl h)))
  | binary => exact hliteral (isSome_literal?.2 (.inr (.inr h)))
  | register =>
      obtain ⟨a, d, rfl, ha, hd⟩ := accepts_register.1 h
      have hlow : 48 ≤ d.toNat := hd.1
      have hhigh : d.toNat ≤ 55 := hd.2
      have hletter : isNameChar a = true := by rcases ha with rfl | rfl <;> decide
      have hdigit : isNameChar d = true := isNameChar_iff.2 (.inl (.inr ⟨hlow, by omega⟩))
      exact hrun (by simp) (hname (by simp [hletter, hdigit]))
  | name =>
      obtain ⟨hne, hword⟩ := accepts_name.1 h
      exact hrun hne (hname hword)
  | directive =>
      obtain ⟨name, rfl, -, hall⟩ := accepts_directive.1 h
      exact hrun (by simp) (List.forall_mem_cons.2 ⟨by decide, hname hall⟩)
  | quote =>
      obtain rfl := accepts_quote.1 h
      exact ⟨'"', [], rfl, rfl, by simp⟩
  | comment =>
      obtain ⟨cs, rfl, hcs⟩ := accepts_comment.1 h
      exact ⟨';', cs, rfl, rfl, fun d hd => bne_iff_ne.2 (hcs d hd)⟩
  | unknown =>
      obtain ⟨hne, hall⟩ := accepts_unknown.1 h
      exact hrun hne hall

/-! ## The pattern to take -/

/-- The pattern to take at a place takes the whole of what any pattern of its kind matches there. -/
theorem Wins.cut (h : p.Wins w t) (hq : q.regex.accepts word = true)
    (heq : word ++ rest = w ++ t) (hstop : ∀ c ∈ rest.head?, q.kind.goesOn c = false) :
    w = word ∧ t = rest ∧ p.kind = q.kind := by
  have hlen := h.longest q word rest heq.symm hq
  obtain ⟨c, cs, rfl, hopens, hall⟩ := exists_of_accepts h.accepts
  obtain ⟨d, ds, rfl, hopens', -⟩ := exists_of_accepts hq
  simp only [List.cons_append, List.cons.injEq] at heq
  obtain ⟨rfl, hrest⟩ := heq
  have hkind := Kind.eq_of_opens hopens hopens'
  rw [hkind] at hall
  obtain ⟨rfl, rfl⟩ := List.append_inj_of_stops hrest (Nat.le_of_succ_le_succ hlen) hall
    fun c hc => by simp [hstop c hc]
  exact ⟨rfl, rfl, hkind⟩

/-- A run for which the pattern is taken is read as its token. -/
theorem Wins.read_run (h : p.Wins word rest) (hk : p.kind = .run) :
    p.read word rest = (some (ofRun word), 0) := by
  have hprefers {q : Pattern} {i j : Nat} (hp : p.priority? = some i) (hq : q.priority? = some j)
      (hlt : i < j) : ¬ q.regex.accepts word = true := fun hacc =>
    Nat.not_le.2 hlt (h.preferred q i j hacc hp hq)
  have hliteral {i : Nat} (hp : p.priority? = some i) (hlt : i < 3) :
      Numeral.literal? word = none := by
    rw [← Option.not_isSome_iff_eq_none, isSome_literal?]
    rintro (hacc | hacc | hacc)
    · exact hprefers hp rfl hlt hacc
    · exact hprefers hp rfl (Nat.lt_succ_of_lt hlt) hacc
    · exact hprefers hp rfl (Nat.lt_succ_of_lt hlt) hacc
  have hregister {i : Nat} (hp : p.priority? = some i) (hlt : i < 5) : reg? word = none := by
    rw [Option.eq_none_iff_forall_ne_some]
    exact fun r hr => hprefers hp rfl hlt (accepts_of_reg? hr)
  cases p with
  | separators | quote | comment => cases hk
  | decimal => rw [read, readLiteral_eq (isSome_literal?.2 (.inl h.accepts))]
  | hexadecimal => rw [read, readLiteral_eq (isSome_literal?.2 (.inr (.inl h.accepts)))]
  | binary => rw [read, readLiteral_eq (isSome_literal?.2 (.inr (.inr h.accepts)))]
  | register =>
      obtain ⟨a, d, rfl, ha, -⟩ := accepts_register.1 h.accepts
      have hnone : Numeral.literal? [a, d] = none := by rcases ha with rfl | rfl <;> rfl
      obtain ⟨r, hr, hreg⟩ := Option.map_eq_some_iff.1 (reg?_of_accepts h.accepts)
      simp only [read, ofRun, hnone, hr, hreg]
  | name =>
      have hall := (accepts_name.1 h.accepts).2
      simp only [read, ofRun, hliteral rfl (by decide), hregister rfl (by decide),
        List.all_eq_true.2 hall, ↓reduceIte]
  | directive =>
      have hdirective := directive?_of_accepts h.accepts
      obtain ⟨name, rfl, -⟩ := accepts_directive.1 h.accepts
      have hnone : Numeral.literal? ('.' :: name) = none := rfl
      have hdot : ('.' :: name).all isNameChar = false := rfl
      simp only [read, ofRun, hnone, hregister rfl (by decide), hdot, Bool.false_eq_true,
        ↓reduceIte, hdirective]
  | unknown =>
      have hname : ¬ word.all isNameChar = true := fun hall => by
        obtain ⟨c, cs, rfl, -⟩ := exists_of_accepts h.accepts
        exact hprefers rfl rfl (by decide) (accepts_name.2 ⟨by simp, List.all_eq_true.1 hall⟩)
      have hdirective : directive? word = none := by
        rw [Option.eq_none_iff_forall_ne_some]
        exact fun d hd => hprefers rfl rfl (by decide) (accepts_of_directive? hd)
      simp only [read, ofRun, hliteral rfl (by decide), hregister rfl (by decide), hname,
        Bool.false_eq_true, ↓reduceIte, hdirective]

end Token.Pattern

/-! ## The engine that tries everything -/

namespace Token.Engine

open Pattern

variable {c : Char} {p q : Pattern} {rest w t : List Char} {n : Nat}

theorem mem_byPriority : q ∈ byPriority := by cases q <;> decide

theorem ordered_byPriority : byPriority.Pairwise fun p q =>
    ∀ i j, p.priority? = some i → q.priority? = some j → j ≤ i := by
  simp [byPriority, priority?]

/-- A match is the first character and some of those behind it. -/
theorem exists_take (hq : q.regex.accepts w = true) (heq : c :: rest = w ++ t) :
    ∃ m, m ≤ rest.length ∧ w = c :: rest.take m := by
  obtain ⟨d, ds, rfl, -⟩ := exists_of_accepts hq
  simp only [List.cons_append, List.cons.injEq] at heq
  obtain ⟨rfl, rfl⟩ := heq
  exact ⟨ds.length, by simp, by simp⟩

/-- What is tried before some number is all that is greater. -/
theorem mem_of_lt {k m n : Nat} {ms ns : List Nat} (h : (List.range k).reverse = ms ++ n :: ns)
    (hm : m < k) (hlt : n < m) : m ∈ ms := by
  have hmem : m ∈ (List.range k).reverse := by simpa using hm
  have hordered : (List.range k).reverse.Pairwise (· > ·) :=
    List.pairwise_reverse.2 List.pairwise_lt_range
  rw [h] at hmem hordered
  have hbehind := (List.pairwise_cons.1 (List.pairwise_append.1 hordered).2.1).1
  rcases List.mem_append.1 hmem with hmem | hmem
  · exact hmem
  · rcases List.mem_cons.1 hmem with rfl | hmem
    · exact absurd hlt (Nat.lt_irrefl _)
    · exact absurd hlt (Nat.lt_asymm (hbehind m hmem))

theorem search_longestMatch : search.LongestMatch where
  wins := by
    intro c rest p n h
    obtain ⟨ms, k, ns, hrange, hfound, hbefore⟩ := List.findSome?_eq_some_iff.1 h
    obtain ⟨p', hfind, heq⟩ := Option.map_eq_some_iff.1 hfound
    cases heq
    obtain ⟨hacc, ps, qs, hps, hnot⟩ := List.find?_eq_some_iff_append.1 hfind
    have hn : n ≤ rest.length := by
      have : n ∈ (List.range (rest.length + 1)).reverse := by simp [hrange]
      simpa [Nat.lt_succ_iff] using this
    refine ⟨hacc, fun q w t heq hq => ?_, fun q i j hq hp hj => ?_⟩
    · rw [List.cons_append, List.take_append_drop] at heq
      obtain ⟨m, hm, rfl⟩ := exists_take hq heq
      by_contra hlen
      have hlt : n < m := by
        simp only [List.length_cons, List.length_take] at hlen
        omega
      have hnone := hbefore m (mem_of_lt hrange (Nat.lt_succ_of_le hm) hlt)
      have := List.find?_eq_none.1 (Option.map_eq_none_iff.1 hnone) q mem_byPriority
      exact this hq
    · have hmem : q ∈ ps ++ p :: qs := hps ▸ mem_byPriority
      have hordered := hps ▸ ordered_byPriority
      rcases List.mem_append.1 hmem with hmem | hmem
      · simpa [hq] using hnot q hmem
      · rcases List.mem_cons.1 hmem with rfl | hmem
        · cases hp.symm.trans hj
          exact Nat.le_refl _
        · exact (List.pairwise_cons.1 (List.pairwise_append.1 hordered).2.1).1 q hmem i j hp hj
  stuck := by
    intro c rest h q w t heq
    rw [← Bool.not_eq_true]
    intro hq
    obtain ⟨m, hm, rfl⟩ := exists_take hq heq
    have hnone := List.findSome?_eq_none_iff.1 h m (by simpa [Nat.lt_succ_iff] using hm)
    exact List.find?_eq_none.1 (Option.map_eq_none_iff.1 hnone) q mem_byPriority hq

end Token.Engine

end Lc3
