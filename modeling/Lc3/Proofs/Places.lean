import Lc3.Proofs.Pieces
import Lc3.Proofs.Literals

/-!
# Where errors point

Main statements: the columns of a label, and those of an error that is found while a line is read,
are columns of a part of that line, if there are any; and the numbers of statements are those of the
lines that they come from, in increasing order.
-/

namespace Lc3

/-- The columns of a part of a text, from the start of a character up to the start or the end of
another. -/
def Span.IsPartOf (cols : Span) (text : List Char) : Prop :=
  ∃ before part after, text = before ++ part ++ after ∧ part ≠ [] ∧
    cols = ⟨Text.utf8Size before, Text.utf8Size before + Text.utf8Size part⟩

/-- A place in a text that has these lines. Line 1 is a place of the empty text, too. -/
structure Place.Within (p : Place) (texts : List (List Char)) : Prop where
  one_le : 1 ≤ p.line
  le_max : p.line ≤ max 1 texts.length
  cols : p.cols = .whole ∨ ∃ text, texts[p.line - 1]? = some text ∧ p.cols.IsPartOf text

variable {text : List Char} {texts : List (List Char)} {source : String} {k n : Nat}
  {e : AsmError} {l : Line} {ls : List Line} {p : Piece} {s : Stmt} {stmts : List Stmt}
  {label : Label}

/-! ## Columns -/

theorem Fault.ne_nil {before fault after : List Char} {e : LexError}
    (h : Fault before fault after e) : fault ≠ [] := by
  cases h with
  | number hw => exact hw.ne_nil
  | blank => exact List.cons_ne_nil _ _
  | string => exact List.cons_ne_nil _ _

theorem PieceOf.isPartOf (h : PieceOf text p) : p.span.IsPartOf text := by
  cases h with
  | run htext hw => exact ⟨_, _, _, htext, hw.ne_nil, Lexeme.span_ofList⟩
  | string htext => exact ⟨_, _, _, htext, List.cons_ne_nil _ _, Lexeme.span_ofList⟩

theorem Line.isPartOf_of_read (h : read n text = .ok l) (hp : p ∈ l.tokens) :
    p.span.IsPartOf text := by
  obtain ⟨ps, hps, rfl⟩ := map_eq_ok.1 h
  exact ((pieces_of_collect hps).of_mem p hp).isPartOf

theorem Line.place_of_read (hf : '\n' ∉ text) (h : read n text = .error e) :
    e.place.line = n ∧ e.place.cols.IsPartOf text := by
  obtain ⟨before, fault, after, _, hfault, rfl⟩ := (read_eq_error_iff hf).1 h
  exact ⟨rfl, before, fault, after, hfault.text_eq, hfault.fault.ne_nil, rfl⟩

theorem Stmt.cols_of_label (h : read l = .ok (some s)) (hl : s.label = some label) :
    ∃ p ∈ l.tokens, label.cols = p.span := by
  obtain ⟨_, _, _, _, _, _, rfl⟩ | ⟨first, rest, label', c?, htokens, -, hlabel, -, rfl⟩ :=
    read_eq_some.1 h
  · cases hl
  · cases hl
    obtain ⟨-, rfl⟩ := readLabel_eq_ok.1 hlabel
    exact ⟨first, by simp [htokens], rfl⟩

theorem Stmt.readCommand_eq_error {ps : List Piece} (h : readCommand n ps = .error e) :
    ∃ cause, e = .ofLine n cause := by
  unfold readCommand at h
  split at h
  · cases h
  · split at h
    · cases h
    · cases h
      exact ⟨_, rfl⟩

theorem Stmt.readLabel_eq_error (h : readLabel n p = .error e) :
    e = ⟨.invalidLabel p.text, n, p.span⟩ := by
  unfold readLabel at h
  split at h <;> cases h
  rfl

theorem Stmt.place_of_read (h : read l = .error e) : e.place.line = l.number ∧
    (e.place.cols = .whole ∨ ∃ p ∈ l.tokens, e.place.cols = p.span) := by
  have hcommand {ps : List Piece} (hc : readCommand l.number ps = .error e) :
      e.place.line = l.number ∧
        (e.place.cols = .whole ∨ ∃ p ∈ l.tokens, e.place.cols = p.span) := by
    obtain ⟨cause, rfl⟩ := readCommand_eq_error hc
    exact ⟨rfl, .inl rfl⟩
  unfold read at h
  split at h
  · cases h
  · rename_i first rest htokens
    split at h
    · obtain hc | ⟨_, -, h⟩ := bind_eq_error.1 h
      · exact hcommand hc
      · exact absurd h pure_ne_error
    · obtain hlabel | ⟨_, -, h⟩ := bind_eq_error.1 h
      · rw [readLabel_eq_error hlabel]
        exact ⟨rfl, .inr ⟨first, by simp [htokens], rfl⟩⟩
      · obtain hc | ⟨_, -, h⟩ := bind_eq_error.1 h
        · exact hcommand hc
        · exact absurd h pure_ne_error

/-! ## Lines -/

/-- The line at an index of the source. -/
theorem Line.text_of_readAll (h : readAll source = .ok ls) (hl : ls[k]? = some l) :
    ∃ text, (Text.lines source.toList)[k]? = some text ∧ read (k + 1) text = .ok l := by
  obtain ⟨text, ht, hread⟩ := exists_text_at h hl
  rw [Nat.add_comm] at hread
  exact ⟨text, ht, hread⟩

theorem Line.number_of_readAll (h : readAll source = .ok ls) (hl : ls[k]? = some l) :
    l.number = k + 1 := by
  obtain ⟨text, -, hread⟩ := text_of_readAll h hl
  exact number_of_read hread

theorem Line.increasing_of_readAll (h : readAll source = .ok ls) :
    ls.Pairwise fun l m => l.number < m.number := by
  rw [List.pairwise_iff_getElem]
  intro i j hi hj hij
  rw [number_of_readAll h (List.getElem?_eq_getElem hi),
    number_of_readAll h (List.getElem?_eq_getElem hj)]
  omega

theorem Stmt.increasing_of_readAll (hls : ls.Pairwise fun l m => l.number < m.number)
    (h : readAll ls = .ok stmts) : stmts.Pairwise fun s t => s.line < t.line := by
  induction hls generalizing stmts with
  | nil =>
      cases h
      exact .nil
  | @cons l ls hl _ ih =>
      obtain ⟨-, hr⟩ | ⟨s, hs, ⟨-, rfl⟩ | ⟨-, rest, hr, rfl⟩⟩ := readAll_cons.1 h
      · exact ih hr
      · exact List.pairwise_singleton _ _
      · refine .cons (fun t ht => ?_) (ih hr)
        obtain ⟨m, hm, hread⟩ := exists_line hr ht
        rw [line_of_read hs, line_of_read hread]
        exact hl m hm

theorem Program.increasing_of_read {p : Program} (h : read source = .ok p) :
    p.stmts.Pairwise fun s t => s.line < t.line := by
  obtain ⟨ls, origin, hls, -, hstmts, -⟩ := read_eq_ok.1 h
  exact Stmt.increasing_of_readAll
    ((Line.increasing_of_readAll hls).sublist (List.drop_sublist _ _)) hstmts

/-- The line that a statement comes from. -/
theorem Program.exists_line_of_read {p : Program} (h : read source = .ok p) (hs : s ∈ p.stmts) :
    ∃ k text l, (Text.lines source.toList)[k]? = some text ∧ Line.read (k + 1) text = .ok l ∧
      Stmt.read l = .ok (some s) ∧ s.line = k + 1 := by
  obtain ⟨ls, origin, hls, -, hstmts, -⟩ := read_eq_ok.1 h
  obtain ⟨l, hl, hread⟩ := Stmt.exists_line hstmts hs
  obtain ⟨k, hk⟩ := List.getElem?_of_mem (List.mem_of_mem_drop hl)
  obtain ⟨text, ht, htext⟩ := Line.text_of_readAll hls hk
  exact ⟨k, text, l, ht, htext, hread, (Stmt.line_of_read hread).trans (Line.number_of_read htext)⟩

/-! ## Places -/

namespace Place

variable {place : Place}

/-- A place in the line at an index. -/
theorem Within.of_line (ht : texts[k]? = some text) (hline : place.line = k + 1)
    (hcols : place.cols = .whole ∨ place.cols.IsPartOf text) : place.Within texts := by
  obtain ⟨hk, -⟩ := List.getElem?_eq_some_iff.1 ht
  refine ⟨by omega, by omega, hcols.imp_right fun hpart => ⟨text, ?_, hpart⟩⟩
  rw [hline, Nat.add_sub_cancel]
  exact ht

theorem within_one : (wholeLine 1).Within texts := ⟨Nat.le_refl 1, Nat.le_max_left _ _, .inl rfl⟩

/-- A place in the line of a statement. -/
theorem Within.of_stmt {p : Program} (hp : Program.read source = .ok p) (hs : s ∈ p.stmts)
    (hline : place.line = s.line)
    (hcols : place.cols = .whole ∨ ∃ label, s.label = some label ∧ place.cols = label.cols) :
    place.Within (Text.lines source.toList) := by
  obtain ⟨k, text, l, ht, htext, hread, hnumber⟩ := Program.exists_line_of_read hp hs
  refine .of_line ht (hline.trans hnumber) (hcols.imp_right ?_)
  rintro ⟨label, hlabel, hcols⟩
  obtain ⟨p, hp, hspan⟩ := Stmt.cols_of_label hread hlabel
  rw [hcols, hspan]
  exact Line.isPartOf_of_read htext hp

end Place

end Lc3
