import Lc3.Program

/-!
# What reading gives

Every statement of a program comes from a line of its source, and is the label and the command that
the tokens of the line spell.
-/

namespace Lc3

theorem bind_eq_ok {ε α β : Type} {x : Except ε α} {f : α → Except ε β} {b : β} :
    (x >>= f) = .ok b ↔ ∃ a, x = .ok a ∧ f a = .ok b := by
  cases x <;> simp [Bind.bind, Except.bind]

theorem map_eq_ok {ε α β : Type} {x : Except ε α} {f : α → β} {b : β} :
    x.map f = .ok b ↔ ∃ a, x = .ok a ∧ f a = b := by
  cases x <;> simp [Except.map]

theorem pure_eq_ok {ε α : Type} {a b : α} : (pure a : Except ε α) = .ok b ↔ a = b := by
  simp [pure, Except.pure]

theorem bind_eq_error {ε α β : Type} {x : Except ε α} {f : α → Except ε β} {e : ε} :
    (x >>= f) = .error e ↔ x = .error e ∨ ∃ a, x = .ok a ∧ f a = .error e := by
  cases x <;> simp [Bind.bind, Except.bind]

theorem map_eq_error {ε α β : Type} {x : Except ε α} {f : α → β} {e : ε} :
    (f <$> x) = .error e ↔ x = .error e := by
  cases x <;> simp [Functor.map, Except.map]

theorem pure_ne_error {ε α : Type} {a : α} {e : ε} : (pure a : Except ε α) ≠ .error e := nofun

/-! ## Programs -/

namespace Program

variable {source : String} {p : Program}

theorem read_eq_ok : read source = .ok p ↔
    ∃ lines origin, Line.readAll source = .ok lines ∧ Origin.find lines = .ok origin ∧
      Stmt.readAll (lines.drop origin.begin) = .ok p.stmts ∧ origin.orig = p.orig := by
  simp only [read, bind_eq_ok, pure_eq_ok]
  constructor
  · rintro ⟨lines, hl, origin, ho, stmts, hs, rfl⟩
    exact ⟨lines, origin, hl, ho, hs, rfl⟩
  · rintro ⟨lines, origin, hl, ho, hs, h⟩
    exact ⟨lines, hl, origin, ho, p.stmts, hs, by rw [h]⟩

end Program

/-! ## Statements -/

namespace Stmt

variable {l : Line} {lines : List Line} {s : Stmt} {stmts : List Stmt} {c : Command}

/-- The statements of some lines, by what the first line is. -/
theorem readAll_cons : readAll (l :: lines) = .ok stmts ↔
    read l = .ok none ∧ readAll lines = .ok stmts ∨
      ∃ s, read l = .ok (some s) ∧ (s.isEnd = true ∧ stmts = [s] ∨
        s.isEnd = false ∧ ∃ rest, readAll lines = .ok rest ∧ stmts = s :: rest) := by
  simp only [readAll, bind_eq_ok]
  constructor
  · rintro ⟨_ | s, hl, h⟩
    · exact .inl ⟨hl, h⟩
    · refine .inr ⟨s, hl, ?_⟩
      cases he : s.isEnd with
      | true =>
          simp only [he, ↓reduceIte, pure_eq_ok] at h
          exact .inl ⟨rfl, h.symm⟩
      | false =>
          simp only [he, Bool.false_eq_true, ↓reduceIte, bind_eq_ok, pure_eq_ok] at h
          obtain ⟨rest, hr, rfl⟩ := h
          exact .inr ⟨rfl, rest, hr, rfl⟩
  · rintro (⟨hl, h⟩ | ⟨s, hl, ⟨he, rfl⟩ | ⟨he, rest, hr, rfl⟩⟩)
    · exact ⟨none, hl, h⟩
    · exact ⟨some s, hl, by simp [he, pure, Except.pure]⟩
    · exact ⟨some s, hl, by simp [he, hr, Functor.map, Except.map]⟩

theorem exists_line (h : readAll lines = .ok stmts) (hs : s ∈ stmts) :
    ∃ l ∈ lines, read l = .ok (some s) := by
  induction lines generalizing stmts with
  | nil =>
      cases h
      cases hs
  | cons l rest ih =>
      obtain ⟨-, hr⟩ | ⟨s', hl, ⟨-, rfl⟩ | ⟨-, more, hr, rfl⟩⟩ := readAll_cons.1 h
      · obtain ⟨l', hl', h'⟩ := ih hr hs
        exact ⟨l', .tail _ hl', h'⟩
      · cases List.mem_singleton.1 hs
        exact ⟨l, .head _, hl⟩
      · rcases List.mem_cons.1 hs with rfl | hs
        · exact ⟨l, .head _, hl⟩
        · obtain ⟨l', hl', h'⟩ := ih hr hs
          exact ⟨l', .tail _ hl', h'⟩

theorem readCommand_eq_ok {line : Nat} {ps : List Piece} {c? : Option Command} :
    readCommand line ps = .ok c? ↔
      ps = [] ∧ c? = none ∨
        ∃ first ops c, ps = first :: ops ∧ Command.read first ops = .ok c ∧ c? = some c := by
  cases ps with
  | nil => simp [readCommand, eq_comm]
  | cons first ops =>
      cases hc : Command.read first ops with
      | error e => simp [readCommand, hc]
      | ok c =>
          simp only [readCommand, hc, reduceCtorEq, false_and, false_or, Except.ok.injEq]
          constructor
          · rintro rfl
            exact ⟨first, ops, c, rfl, hc, rfl⟩
          · rintro ⟨_, _, c', ⟨rfl, rfl⟩, hc', rfl⟩
            cases hc.symm.trans hc'
            rfl

theorem readLabel_eq_ok {line : Nat} {first : Piece} {label : Label} :
    readLabel line first = .ok label ↔
      ((∃ x, first.value = .name x) ∨ ∃ r, first.value = .reg r) ∧
        label = ⟨first.text, first.span⟩ := by
  unfold readLabel
  split
  · rename_i hv
    simp [hv, eq_comm]
  · rename_i hv
    simp [hv, eq_comm]
  · rename_i hn hr
    simp only [reduceCtorEq, false_iff]
    rintro ⟨⟨x, hx⟩ | ⟨r, hr'⟩, -⟩
    · exact hn x hx
    · exact hr r hr'

theorem read_eq_some : read l = .ok (some s) ↔
    (∃ first ops c, l.tokens = first :: ops ∧ first.value.isCommand = true ∧
      Command.read first ops = .ok c ∧ s = ⟨none, some c, l.number⟩) ∨
    ∃ first rest label c?, l.tokens = first :: rest ∧ first.value.isCommand = false ∧
      readLabel l.number first = .ok label ∧ readCommand l.number rest = .ok c? ∧
        s = ⟨some label, c?, l.number⟩ := by
  unfold read
  split
  · rename_i ht
    simp [ht]
  · rename_i first rest ht
    cases hc : first.value.isCommand with
    | true =>
        simp only [↓reduceIte, bind_eq_ok, readCommand_eq_ok, pure_eq_ok, Option.some.injEq,
          reduceCtorEq, false_and, false_or]
        constructor
        · rintro ⟨_, ⟨_, _, c, ⟨rfl, rfl⟩, hr, rfl⟩, rfl⟩
          exact .inl ⟨_, _, c, ht, hc, hr, rfl⟩
        · rintro (⟨_, _, c, ht', -, hr, rfl⟩ | ⟨_, _, _, _, ht', hc', -⟩)
          · cases ht.symm.trans ht'
            exact ⟨some c, ⟨_, _, c, rfl, hr, rfl⟩, rfl⟩
          · cases ht.symm.trans ht'
            cases hc.symm.trans hc'
    | false =>
        simp only [Bool.false_eq_true, ↓reduceIte, bind_eq_ok, pure_eq_ok, Option.some.injEq]
        constructor
        · rintro ⟨label, hl, c?, hr, rfl⟩
          exact .inr ⟨first, rest, label, c?, ht, hc, hl, hr, rfl⟩
        · rintro (⟨_, _, _, ht', hc', -⟩ | ⟨_, _, label, c?, ht', -, hl, hr, rfl⟩)
          · cases ht.symm.trans ht'
            cases hc.symm.trans hc'
          · cases ht.symm.trans ht'
            exact ⟨label, hl, c?, hr, rfl⟩

theorem exists_pieces (h : read l = .ok (some s)) (hc : s.command = some c) :
    ∃ first ops, (∀ p ∈ first :: ops, p ∈ l.tokens) ∧ Command.read first ops = .ok c := by
  obtain ⟨first, ops, c', ht, -, hr, rfl⟩ | ⟨first, rest, label, c?, ht, -, -, hr, rfl⟩ :=
    read_eq_some.1 h
  · cases hc
    exact ⟨first, ops, by simp [ht], hr⟩
  · obtain ⟨-, rfl⟩ | ⟨first', ops, c', rfl, hr', rfl⟩ := readCommand_eq_ok.1 hr
    · cases hc
    · cases hc
      exact ⟨first', ops, by rw [ht]; exact fun p hp => .tail _ hp, hr'⟩

end Stmt

/-! ## Instructions -/

/-- The label that an operand is. -/
def Target.label? {n : Nat} : Target n → Option Label
  | .offset _ => none
  | .label l => some l

/-- The label among the operands of an instruction. -/
def SourceInstr.label? : SourceInstr → Option Label
  | .br _ t | .ld _ t | .ldi _ t | .lea _ t | .st _ t | .sti _ t => t.label?
  | .jsr t => t.label?
  | _ => none

/-- The label among the operands of a command. -/
def Command.label? : Command → Option Label
  | .instr i => i.label?
  | .directive (.fill t) => t.label?
  | .directive _ => none

theorem Command.read_eq_ok {first : Piece} {ops : List Piece} {c : Command} :
    Command.read first ops = .ok c ↔
      (∃ m i, first.value = .mnemonic m ∧ SourceInstr.read m ops = .ok i ∧ c = .instr i) ∨
        ∃ name d, first.value = .directive name ∧ Directive.read name ops = .ok d ∧
          c = .directive d := by
  unfold Command.read
  split
  · rename_i hv
    simp [hv, map_eq_ok, @eq_comm _ c]
  · rename_i hv
    simp [hv, map_eq_ok, @eq_comm _ c]
  · rename_i hm' hn'
    simp only [reduceCtorEq, false_iff]
    rintro (⟨m, _, hm, -⟩ | ⟨name, _, hn, -⟩)
    · exact hm' m hm
    · exact hn' name hn

theorem Piece.text_of_target {n : Nat} {p : Piece} {t : Target n} {l : Label}
    (h : p.target n = .ok t) (hl : t.label? = some l) :
    p.text = l.name ∧ ∀ v, p.value ≠ .literal v := by
  unfold Piece.target at h
  split at h
  · split at h
    · cases h
      cases hl
    · cases h
  · rename_i hv
    cases h
    cases hl
    exact ⟨rfl, hv⟩

namespace SourceInstr

variable {m : Mnemonic} {ops : List Piece} {i : SourceInstr}

/-- Only a branch has a mask, and the mask is that of its name. -/
theorem mask_of_read {mask : BitVec 8} {t : Target 9} (h : read m ops = .ok (.br mask t)) :
    ∃ b : Branch, mask = b.mask := by
  unfold read at h
  split at h
  case h_4 b _ =>
    simp only [bind_eq_ok, pure_eq_ok, SourceInstr.br.injEq] at h
    obtain ⟨_, -, rfl, -⟩ := h
    exact ⟨b, rfl⟩
  all_goals
    simp only [bind_eq_ok, pure_eq_ok, reduceCtorEq, and_false, exists_false, Except.ok.injEq] at h

theorem text_of_read {l : Label} (h : read m ops = .ok i) (hl : i.label? = some l) :
    ∃ p ∈ ops, p.text = l.name ∧ ∀ v, p.value ≠ .literal v := by
  unfold read at h
  split at h <;> simp only [bind_eq_ok, pure_eq_ok, Except.ok.injEq, reduceCtorEq] at h
  case h_4 | h_6 =>
    obtain ⟨t, ht, rfl⟩ := h
    exact ⟨_, by simp, Piece.text_of_target ht hl⟩
  case h_8 | h_9 | h_10 | h_11 | h_12 =>
    obtain ⟨_, -, t, ht, rfl⟩ := h
    exact ⟨_, by simp, Piece.text_of_target ht hl⟩
  case h_1 | h_2 | h_13 | h_14 =>
    obtain ⟨_, -, _, -, _, -, rfl⟩ := h
    cases hl
  case h_3 =>
    obtain ⟨_, -, _, -, rfl⟩ := h
    cases hl
  case h_5 | h_7 | h_15 =>
    obtain ⟨_, -, rfl⟩ := h
    cases hl
  all_goals
    subst h
    cases hl

end SourceInstr

end Lc3
