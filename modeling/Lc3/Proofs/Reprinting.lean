import Mathlib.Data.List.Basic
import Lc3.Proofs.Printing
import Lc3.Proofs.Splitting

/-!
# Programs printed and read again

The text of a program is an `.orig` line and the text of each statement on a line of its own. Main
statement: the program that was read from any source is read again from its text exactly if its
strings survive quoting, that is, if they hold no tab and no other character without a glyph but
the null character and the line breaks.
-/

namespace Lc3

open Token

variable {source : String} {p : Program} {l : Line} {s : Stmt} {c : Command}

/-- A program as a listing shows it. -/
def Program.text (p : Program) : String :=
  "\n".intercalate ((".orig " ++ p.orig.hex) :: p.stmts.map Stmt.text)

/-! ## What was read is legible -/

theorem Label.isOperand_of_sound {l : Label} {p : Piece} (h : p.Sound) (ht : p.text = l.name)
    (hv : ∀ z, p.value ≠ .literal z) : l.IsOperand := ⟨p.value, ht ▸ h.stands, hv⟩

theorem Directive.read_eq_ok {name : String} {ops : List Piece} {d : Directive}
    (h : Directive.read name ops = .ok d) :
    (∃ p tgt, ops = [p] ∧ p.target 17 = .ok tgt ∧ d = .fill tgt) ∨
      (∃ p n, ops = [p] ∧ p.literal = .ok n ∧ d = .block n.toNat) ∨
        (∃ s, d = .string s) ∨ d = .finish := by
  have honly {key : String} {q : Piece} (h : Piece.only key ops = .ok q) : ops = [q] := by
    unfold Piece.only at h
    split at h
    · cases h
      rfl
    · cases h
  unfold Directive.read at h
  simp only at h
  split at h
  · obtain ⟨q, hq, tgt, ht, rfl⟩ := by simpa only [bind_eq_ok, pure_eq_ok] using h
    exact .inl ⟨q, tgt, honly hq, ht, rfl⟩
  · split at h
    · simp only [bind_eq_ok] at h
      obtain ⟨q, hq, n, hn, h⟩ := h
      split at h
      · cases h
      · cases h
        exact .inr (.inl ⟨q, n, honly hq, hn, rfl⟩)
    · split at h
      · simp only [bind_eq_ok] at h
        obtain ⟨q, hq, h⟩ := h
        split at h
        · cases h
          exact .inr (.inr (.inl ⟨_, rfl⟩))
        · cases h
      · split at h
        · cases h
          exact .inr (.inr (.inr rfl))
        · cases h

theorem Command.legible_of_read {first : Piece} {ops : List Piece} (hops : ∀ p ∈ ops, Piece.Sound p)
    (h : Command.read first ops = .ok c) : c.Legible := by
  rcases Command.read_eq_ok.1 h with ⟨m, i, -, hi, rfl⟩ | ⟨name, d, -, hd, rfl⟩
  · refine ⟨fun l hl => ?_, ?_, by simp⟩
    · obtain ⟨p, hp, ht, hv⟩ := SourceInstr.text_of_read hi hl
      exact Label.isOperand_of_sound (hops p hp) ht hv
    · rintro mask t ⟨⟩
      exact SourceInstr.mask_of_read hi
  · rcases Directive.read_eq_ok hd with
      ⟨p, tgt, rfl, ht, rfl⟩ | ⟨p, n, rfl, hn, rfl⟩ | ⟨s, rfl⟩ | rfl
    · refine ⟨fun l hl => ?_, by simp, by simp⟩
      obtain ⟨htext, hv⟩ := Piece.text_of_target ht hl
      exact Label.isOperand_of_sound (hops p (.head _)) htext hv
    · refine ⟨by rintro _ ⟨⟩, by simp, ?_⟩
      rintro _ ⟨⟩
      unfold Piece.literal at hn
      split at hn
      · rename_i z hz
        cases hn
        have := (hops p (.head _)).inRange _ hz
        have := this.2
        omega
      · cases hn
    · exact ⟨by rintro _ ⟨⟩, by simp, by simp⟩
    · exact ⟨by rintro _ ⟨⟩, by simp, by simp⟩

theorem Stmt.legible_of_read (hl : ∀ p ∈ l.tokens, Piece.Sound p)
    (h : Stmt.read l = .ok (some s)) : s.Legible := by
  rcases read_eq_some.1 h with ⟨first, ops, c, ht, -, hr, rfl⟩ |
    ⟨first, rest, label, c?, ht, -, hlabel, hr, rfl⟩
  · rw [ht, List.forall_mem_cons] at hl
    refine ⟨by rintro _ ⟨⟩, ?_, by simp⟩
    rintro _ ⟨⟩
    exact Command.legible_of_read hl.2 hr
  · rw [ht, List.forall_mem_cons] at hl
    refine ⟨?_, ?_, by simp⟩
    · rintro _ ⟨⟩
      unfold readLabel at hlabel
      split at hlabel
      · rename_i x hv
        cases hlabel
        exact ⟨first.value, hl.1.stands, .inl ⟨x, hv⟩⟩
      · rename_i r hv
        cases hlabel
        exact ⟨first.value, hl.1.stands, .inr ⟨r, hv⟩⟩
      · cases hlabel
    · rintro c hc
      rcases readCommand_eq_ok.1 hr with ⟨-, rfl⟩ | ⟨f, ops, c', rfl, hc', rfl⟩
      · cases hc
      · cases hc
        exact Command.legible_of_read (List.forall_mem_cons.1 hl.2).2 hc'

/-- Every statement that was read is legible. -/
theorem Program.legible_of_read (h : Program.read source = .ok p) : ∀ s ∈ p.stmts, s.Legible := by
  obtain ⟨lines, origin, hlines, -, hr, -⟩ := Program.read_eq_ok.1 h
  intro s hs
  obtain ⟨l, hl, hread⟩ := Stmt.exists_line hr hs
  obtain ⟨k, cs, hcs⟩ := Line.exists_text hlines (List.mem_of_mem_drop hl)
  exact Stmt.legible_of_read (Line.sound_of_read hcs) hread

/-! ## What survives is read again -/

/-- Only the last statement of a program can be `.END`. -/
theorem Stmt.isEnd_of_mem_dropLast {lines : List Line} {stmts : List Stmt}
    (h : readAll lines = .ok stmts) : ∀ s ∈ stmts.dropLast, s.isEnd = false := by
  induction lines generalizing stmts with
  | nil =>
      cases h
      simp
  | cons l lines ih =>
      obtain ⟨-, hr⟩ | ⟨s, -, ⟨-, rfl⟩ | ⟨he, rest, hr, rfl⟩⟩ := readAll_cons.1 h
      · exact ih hr
      · simp
      · cases rest with
        | nil => simp
        | cons s' rest => exact List.forall_mem_cons.2 ⟨he, ih hr⟩

theorem Stmt.map_bare_eq {stmts stmts' : List Stmt}
    (h : List.Forall₂ (fun s s' => bare s' = bare s) stmts stmts') :
    stmts'.map bare = stmts.map bare := by
  induction h with
  | nil => rfl
  | cons hs _ ih => rw [List.map_cons, List.map_cons, hs, ih]

theorem Program.spells_orig (orig : Word) : Spells (".orig " ++ orig.hex) fun ps =>
    (Origin.operands ps >>= Origin.address) = .ok orig := by
  have hheader : ".orig " ++ orig.hex = ".orig" ++ " " ++ ("x" ++ Text.hex 4 orig.toNat) :=
    congrArg (· ++ orig.hex) (show ".orig " = ".orig" ++ " " by decide)
  have hname : Stands ".orig" (.directive "orig") := stands_name (by decide)
  rw [hheader]
  exact spells_origin hname (by decide) Numeral.natural?_hex

theorem Program.exists_read_text (h : Program.read source = .ok p)
    (hs : ∀ s ∈ p.stmts, s.Survives) : ∃ p', Program.read p.text = .ok p' ∧ p'.orig = p.orig ∧
      p'.stmts.map Stmt.bare = p.stmts.map Stmt.bare := by
  obtain ⟨lines, origin, -, -, hr, -⟩ := Program.read_eq_ok.1 h
  have hlegible := legible_of_read h
  have hlines : ∀ s ∈ p.stmts, Spells s.text (Stmt.Reads fun s' => s'.bare = s.bare) :=
    fun s hmem => Stmt.spells (hlegible s hmem) (hs s hmem)
  have hend : ∀ s ∈ p.stmts.dropLast, ∀ s', Stmt.bare s' = Stmt.bare s → Stmt.isEnd s' = false := by
    intro s hmem s' hb
    rw [← Stmt.isEnd_bare, hb, Stmt.isEnd_bare]
    exact Stmt.isEnd_of_mem_dropLast hr s hmem
  obtain ⟨p', hp', horig, hstmts⟩ := Program.read_of_spells (spells_orig p.orig) hlines hend
  exact ⟨p', hp', horig, Stmt.map_bare_eq hstmts⟩

/-! ## What does not survive is a fault -/

theorem Clean.append {a b : String} (ha : Clean a) (hb : Clean b) (hne : b ≠ "") :
    Clean (a ++ b) where
  noFeed := by
    rw [String.toList_append, List.mem_append]
    exact fun h => h.elim ha.noFeed hb.noFeed
  noReturn := by
    have hne' : b.toList ≠ [] := by simpa using hne
    rw [String.toList_append, List.getLast?_append_of_ne_nil _ hne']
    exact hb.noReturn

theorem Text.feed_not_mem_quotedChar (ch : Char) : '\n' ∉ (Text.quotedChar ch).toList := by
  unfold Text.quotedChar
  split
  case h_7 =>
    split
    · rename_i hnl _ _ _
      rw [Char.toString, String.toList_singleton, List.mem_singleton]
      exact fun h => hnl h.symm
    · intro h
      rw [String.toList_append, String.toList_append, List.mem_append, List.mem_append] at h
      rcases h with (h | h) | h
      · revert h
        decide
      · have := Numeral.isSome_of_natural? Numeral.natural?_lowerHex h
        revert this
        decide
      · revert h
        decide
  all_goals decide

theorem Text.clean_quoted (str : String) : Clean (Text.quoted str) where
  noFeed := by
    rw [Text.toList_quoted]
    simp [Text.feed_not_mem_quotedChar]
  noReturn := by
    rw [Text.toList_quoted, List.getLast?_concat]
    decide

namespace Stmt

variable {str : String}

theorem survives_or_string (s : Stmt) :
    s.Survives ∨ ∃ str, s.command = some (.directive (.string str)) := by
  obtain ⟨label, command, line⟩ := s
  match command with
  | some (.directive (.string str)) => exact .inr ⟨str, rfl⟩
  | none => exact .inl (by rintro _ ⟨⟩)
  | some (.instr i) => exact .inl (by rintro _ ⟨⟩ _ ⟨⟩)
  | some (.directive (.fill t)) => exact .inl (by rintro _ ⟨⟩ _ ⟨⟩)
  | some (.directive (.block n)) => exact .inl (by rintro _ ⟨⟩ _ ⟨⟩)
  | some (.directive .finish) => exact .inl (by rintro _ ⟨⟩ _ ⟨⟩)

/-- The text of a statement with a string is quoted text behind a text that spells tokens. -/
theorem text_of_string (h : s.Legible) (hc : s.command = some (.directive (.string str))) :
    ∃ before P, Spells before P ∧ s.text = before ++ " " ++ Text.quoted str := by
  have htext : (Command.directive (.string str)).text = ".stringz" ++ " " ++ Text.quoted str :=
    Directive.text_string
  cases hl : s.label with
  | none =>
      refine ⟨".stringz", _, Directive.stands_stringz, ?_⟩
      rw [Stmt.text, hl, hc]
      exact htext
  | some l =>
      have hspells := Spells.append " " space_separates (Label.spellsOne (h.label l hl))
        Directive.stands_stringz
      refine ⟨l.name ++ " " ++ ".stringz", _, hspells, ?_⟩
      rw [Stmt.text, hl, hc]
      simp only [htext, String.append_assoc]

theorem clean_text (h : s.Legible) : Clean s.text ∧ s.text ≠ "" := by
  rcases survives_or_string s with hs | ⟨str, hc⟩
  · refine ⟨(Stmt.spells h hs).clean, (Stmt.spells h hs).ne_empty fun hnil => ?_⟩
    obtain ⟨s', hs', -⟩ := hnil 0
    cases hs'
  · obtain ⟨before, P, hspells, htext⟩ := text_of_string h hc
    have hquoted : Text.quoted str ≠ "" := by
      rw [ne_eq, ← String.toList_inj, Text.toList_quoted]
      simp
    have hspace : Clean " " := ⟨by decide, by decide⟩
    rw [htext]
    refine ⟨(hspells.clean.append hspace (by decide)).append (Text.clean_quoted str) hquoted, ?_⟩
    rw [ne_eq, String.append_eq_empty_iff]
    exact fun h => hquoted h.2

theorem survives_of_read (h : s.Legible) {k : Nat} (hr : Line.read k s.text.toList = .ok l) :
    s.Survives := by
  rcases survives_or_string s with hs | ⟨str, hc⟩
  · exact hs
  · obtain ⟨before, P, hspells, htext⟩ := text_of_string h hc
    obtain ⟨ps, hps, -⟩ := map_eq_ok.1 hr
    obtain ⟨qs, -, hq⟩ := hspells 0
    have hended : Ended (" ".toList ++ (Text.quoted str).toList) := ended_cons (by decide)
    rw [lex, htext, String.toList_append, String.toList_append, List.append_assoc,
      hq _ k hended] at hps
    obtain ⟨rs, hrs, -⟩ := map_eq_ok.1 hps
    rw [scan_separators space_separates.2, ← List.append_nil (Text.quoted str).toList] at hrs
    rintro _ hc'
    cases hc.symm.trans hc'
    rintro _ ⟨⟩
    exact survives_of_collect hrs

end Stmt

/-- A program that was read is read again from its text exactly if its strings survive quoting. -/
theorem Program.read_text_iff (h : Program.read source = .ok p) :
    (∃ p', Program.read p.text = .ok p' ∧ p'.orig = p.orig ∧
      p'.stmts.map Stmt.bare = p.stmts.map Stmt.bare) ↔ ∀ s ∈ p.stmts, s.Survives := by
  refine ⟨?_, exists_read_text h⟩
  rintro ⟨p', hp', -⟩ s hs
  have hlegible := legible_of_read h
  obtain ⟨lines, origin, hlines, -⟩ := Program.read_eq_ok.1 hp'
  have hclean : ∀ t ∈ (".orig " ++ p.orig.hex) :: p.stmts.map Stmt.text, Clean t :=
    List.forall_mem_cons.2 ⟨(spells_orig p.orig).clean,
      List.forall_mem_map.2 fun s hs => (Stmt.clean_text (hlegible s hs)).1⟩
  have hne : ∀ t ∈ (".orig " ++ p.orig.hex) :: p.stmts.map Stmt.text, t ≠ "" :=
    List.forall_mem_cons.2 ⟨(spells_orig p.orig).ne_empty (by rintro ⟨⟩),
      List.forall_mem_map.2 fun s hs => (Stmt.clean_text (hlegible s hs)).2⟩
  rw [Line.readAll, text, Text.lines_intercalate hclean fun h => hne _ (List.mem_of_getLast? h) rfl]
    at hlines
  have hmem : s.text.toList ∈
      ((".orig " ++ p.orig.hex) :: p.stmts.map Stmt.text).map String.toList :=
    List.mem_map_of_mem (.tail _ (List.mem_map_of_mem hs))
  obtain ⟨k, l, hl⟩ := Line.exists_read hlines hmem
  exact Stmt.survives_of_read (hlegible s hs) hl

/-- A label, an accent, a quote and a line feed. -/
theorem Program.read_text_accent :
    let source := ".orig x3000\nX br X\n.stringz \"é\\\"\\n\"\n.end"
    ∃ p, Program.read source = .ok p ∧ ∃ p', Program.read p.text = .ok p' ∧ p'.orig = p.orig ∧
      p'.stmts.map Stmt.bare = p.stmts.map Stmt.bare := by
  intro source
  have hp : Program.read source = .ok ⟨0x3000,
      [⟨some ⟨"X", ⟨0, 1⟩⟩, some (.instr (.br 7 (.label ⟨"X", ⟨5, 6⟩⟩))), 2⟩,
        ⟨none, some (.directive (.string "é\"\n")), 3⟩,
        ⟨none, some (.directive .finish), 4⟩]⟩ := by
    decide
  refine ⟨_, hp, (read_text_iff hp).2 ?_⟩
  have hstring : ∀ ch ∈ "é\"\n".toList, Text.Survives ch := by
    have hall : ("é\"\n".toList.all fun ch => decide (Text.Survives ch)) = true := by
      decide +kernel
    exact fun ch hch => of_decide_eq_true (List.all_eq_true.1 hall ch hch)
  simp only [List.forall_mem_cons]
  refine ⟨?_, ?_, ?_, by simp⟩
  · rintro _ ⟨⟩ _ ⟨⟩
  · rintro _ ⟨⟩ _ ⟨⟩
    exact hstring
  · rintro _ ⟨⟩ _ ⟨⟩

/-- A tab in a string is printed as an escape that cannot be read. -/
theorem Program.read_text_tab :
    let source := ".orig x3000\n.stringz \"a\tb\"\n.end"
    let p : Program := ⟨0x3000,
      [⟨none, some (.directive (.string "a\tb")), 2⟩, ⟨none, some (.directive .finish), 3⟩]⟩
    Program.read source = .ok p ∧ ¬ ∃ p', Program.read p.text = .ok p' ∧ p'.orig = p.orig ∧
      p'.stmts.map Stmt.bare = p.stmts.map Stmt.bare := by
  intro source p
  have hp : Program.read source = .ok p := by decide
  have herror : Program.read p.text =
      .error ⟨.lex (.unsupportedEscape 't'), ⟨2, ⟨9, 15⟩⟩⟩ := by
    decide +kernel
  refine ⟨hp, ?_⟩
  rintro ⟨p', hp', -⟩
  cases herror.symm.trans hp'

end Lc3
