import Mathlib.Data.List.Basic
import Lc3.Proofs.Faults

/-!
# The pieces of a line

The tokens of a line can be told without reading it from the left: they are its runs and its
strings, where they stand. Main statement: a line is read as some tokens exactly if these are its
pieces, and otherwise its error is the first fault.
-/

namespace Lc3

open Token

/-- How a register is written. -/
inductive Token.NamesReg : List Char → Reg → Prop
  | mk {a d : Char} {r : Reg} (ha : a = 'R' ∨ a = 'r') (hd : d.toNat = '0'.toNat + r.toNat) :
      NamesReg [a, d] r

/-- The token that a run is, by the first class that it belongs to. -/
inductive Token.Class (run : List Char) : Token → Prop
  | literal {v : Int} (hl : Numeral.literal? run = some (.ok v)) : Class run (.literal v)
  | reg {r : Reg} (hr : NamesReg run r) : Class run (.reg r)
  | ident (hl : Numeral.literal? run = none) (hr : ∀ r, ¬ NamesReg run r)
      (hn : ∀ c ∈ run, isNameChar c = true) : Class run (ofName (String.ofList run))
  | directive {name : List Char} (hrun : run = '.' :: name) (hne : name ≠ [])
      (hn : ∀ c ∈ name, isNameChar c = true) : Class run (.directive (String.ofList name))
  | unknown (hl : Numeral.literal? run = none) (hn : ¬ ∀ c ∈ run, isNameChar c = true)
      (hd : ∀ name, run = '.' :: name → name ≠ [] → ¬ ∀ c ∈ name, isNameChar c = true) :
      Class run (.unknown (String.ofList run))

/-- A run or a string of a text, at its place. -/
inductive PieceOf (text : List Char) : Piece → Prop
  | run {before word after : List Char} {t : Token} (htext : text = before ++ word ++ after)
      (hw : WordAt before word after) (ht : Class word t) :
      PieceOf text ⟨t, String.ofList word, Text.utf8Size before⟩
  | string {before cs ds after : List Char} (htext : text = before ++ inQuotes cs ++ after)
      (ho : Outside before) (hs : Escaped cs ds) :
      PieceOf text ⟨.string (String.ofList ds), String.ofList (inQuotes cs), Text.utf8Size before⟩

/-- A character is inside of a piece, or a separator, or of the comment. -/
inductive Covered (ps : List Piece) (before : List Char) (c : Char) : Prop
  | piece {p : Piece} (hp : p ∈ ps) (hstart : p.span.start ≤ Text.utf8Size before)
      (hstop : Text.utf8Size before < p.span.stop) : Covered ps before c
  | separator (ho : Outside before) (hc : isSeparator c = true) : Covered ps before c
  | comment (h : Context.code.after (before ++ [c]) = .comment) : Covered ps before c

/-- The tokens of a text without a fault, at their places. -/
structure Pieces (text : List Char) (ps : List Piece) : Prop where
  of_mem : ∀ p ∈ ps, PieceOf text p
  run : ∀ before word after, text = before ++ word ++ after → WordAt before word after →
    ∃ t, Class word t ∧ ⟨t, String.ofList word, Text.utf8Size before⟩ ∈ ps
  string : ∀ before cs ds after, text = before ++ inQuotes cs ++ after → Outside before →
    Escaped cs ds →
      ⟨.string (String.ofList ds), String.ofList (inQuotes cs), Text.utf8Size before⟩ ∈ ps
  nonempty : ∀ p ∈ ps, p.span.start < p.span.stop
  ordered : ps.Pairwise fun p q => p.span.stop ≤ q.span.start
  covered : ∀ before c after, text = before ++ c :: after → Covered ps before c

variable {c : Char} {cs ds before part fault after word rest run seen text : List Char} {n : Nat}
  {e : LexError} {p : Piece} {r : Reg} {t : Token} {ps qs : List Piece} {ws : List Spelling}

/-! ## Classes -/

namespace Token

theorem reg?_eq_some_iff : reg? run = some r ↔ NamesReg run r := by
  constructor
  · intro h
    rw [reg?.eq_def] at h
    split at h
    · rename_i a d
      split at h
      · rename_i hc
        have hlow : 48 ≤ d.toNat := hc.2.1
        have hhigh : d.toNat ≤ 55 := hc.2.2
        have hlt : d.toNat - 48 < 8 := by omega
        have hr : some (BitVec.ofNat 3 (d.toNat - 48)) = some r := by
          rw [← h]
          exact (if_pos hlt).symm
        cases hr
        refine .mk hc.1 ?_
        rw [BitVec.toNat_ofNat, Nat.mod_eq_of_lt hlt]
        exact (Nat.add_sub_of_le hlow).symm
      · cases h
    · cases h
  · rintro ⟨ha, hd⟩
    rename_i a d
    have hd : d.toNat = 48 + r.toNat := hd
    have hlt : r.toNat < 8 := r.isLt
    have hc : (a = 'R' ∨ a = 'r') ∧ '0' ≤ d ∧ d ≤ '7' :=
      ⟨ha, show 48 ≤ d.toNat by omega, show d.toNat ≤ 55 by omega⟩
    have hsub : d.toNat - '0'.toNat = r.toNat := by
      rw [hd]
      exact Nat.add_sub_cancel_left ..
    rw [reg?, if_pos hc, hsub, Reg.ofNumber?, if_pos hlt, BitVec.ofNat_toNat, BitVec.setWidth_eq]

theorem reg?_eq_none_iff : reg? run = none ↔ ∀ r, ¬ NamesReg run r := by
  simp only [Option.eq_none_iff_forall_ne_some, ne_eq, reg?_eq_some_iff]

theorem NamesReg.literal?_eq_none (h : NamesReg run r) : Numeral.literal? run = none := by
  obtain ⟨rfl | rfl, -⟩ := h <;> rfl

theorem NamesReg.isNameChar (h : NamesReg run r) : ∀ c ∈ run, isNameChar c = true := by
  obtain ⟨ha, hd⟩ := h
  rename_i a d
  have hd : d.toNat = 48 + r.toNat := hd
  have hlt : r.toNat < 8 := r.isLt
  have hdigit : d.isDigit = true :=
    Char.isDigit_iff_toNat.2 ⟨show 48 ≤ d.toNat by omega, show d.toNat ≤ 57 by omega⟩
  rcases ha with rfl | rfl <;> simp [Token.isNameChar, Char.isAlphanum, hdigit]

theorem class_of_ofRun (h : ofRun run = .ok t) : Class run t := by
  unfold ofRun at h
  split at h
  · rename_i hl
    cases h
    exact .literal hl
  · cases h
  rename_i hl
  split at h
  · rename_i hr
    cases h
    exact .reg (reg?_eq_some_iff.1 hr)
  rename_i hr
  split at h
  · rename_i hn
    cases h
    exact .ident hl (reg?_eq_none_iff.1 hr) (List.all_eq_true.1 hn)
  rename_i hn
  split at h
  · rename_i hd
    cases h
    obtain ⟨name, hne, hname, rfl, rfl⟩ := directive?_eq_some.1 hd
    exact .directive rfl hne hname
  · rename_i hd
    cases h
    refine .unknown hl (fun hall => hn (List.all_eq_true.2 hall)) fun name hrun hne hname => ?_
    cases hd.symm.trans (directive?_eq_some.2 ⟨name, hne, hname, hrun, rfl⟩)

theorem ofRun_of_class (h : Class run t) : ofRun run = .ok t := by
  cases h with
  | literal hl => simp [ofRun, hl]
  | reg hr => simp [ofRun, hr.literal?_eq_none, reg?_eq_some_iff.2 hr]
  | ident hl hr hn =>
      simp only [ofRun, hl, reg?_eq_none_iff.2 hr, List.all_eq_true.2 hn, ↓reduceIte]
  | @directive name hrun hne hn =>
      have hl : Numeral.literal? run = none := by
        rw [hrun]
        rfl
      have hr : reg? run = none := by
        rw [reg?_eq_none_iff]
        rintro r ⟨rfl | rfl, -⟩ <;> cases hrun
      have hall : run.all Token.isNameChar = false := by
        rw [hrun]
        rfl
      simp only [ofRun, hl, hr, hall, Bool.false_eq_true, ↓reduceIte,
        directive?_eq_some.2 ⟨name, hne, hn, hrun, rfl⟩]
  | unknown hl hn hd =>
      have hr : reg? run = none := reg?_eq_none_iff.2 fun r hr => hn hr.isNameChar
      have hdir : directive? run = none := by
        rw [Option.eq_none_iff_forall_ne_some]
        intro d h
        obtain ⟨name, hne, hname, hrun, -⟩ := directive?_eq_some.1 h
        exact hd name hrun hne hname
      simp only [ofRun, hl, hr, List.all_eq_true, hn, ↓reduceIte, hdir]

end Token

/-! ## What is read -/

theorem Text.utf8Size_pos (hne : cs ≠ []) : 0 < utf8Size cs := by
  obtain ⟨c, cs, rfl⟩ := List.exists_cons_of_ne_nil hne
  have := Char.utf8Size_pos c
  rw [utf8Size_cons]
  omega

namespace Lexeme

variable {α : Type} {x : α} {xs ys : List (Lexeme α)} {pos : Nat}

@[simp] theorem span_ofList :
    (⟨x, String.ofList cs, pos⟩ : Lexeme α).span = ⟨pos, pos + Text.utf8Size cs⟩ := by
  rw [span, Text.utf8ByteSize_ofList]

theorem nonempty_ofList (hne : cs ≠ []) :
    (⟨x, String.ofList cs, pos⟩ : Lexeme α).span.start <
      (⟨x, String.ofList cs, pos⟩ : Lexeme α).span.stop := by
  have := Text.utf8Size_pos hne
  simpa using this

/-- The starts of lexemes that are not empty and in order are strictly increasing. -/
theorem increasing (hne : ∀ x ∈ xs, x.span.start < x.span.stop)
    (ho : xs.Pairwise fun x y => x.span.stop ≤ y.span.start) :
    xs.Pairwise fun x y => x.start < y.start :=
  ho.imp_of_mem fun hx _ hxy => Nat.lt_of_lt_of_le (hne _ hx) hxy

/-- Lexemes in order are determined by which they are. -/
theorem eq_of_increasing (hx : xs.Pairwise fun x y => x.start < y.start)
    (hy : ys.Pairwise fun x y => x.start < y.start) (h : ∀ x, x ∈ xs ↔ x ∈ ys) : xs = ys := by
  have hnodup {zs : List (Lexeme α)} (hz : zs.Pairwise fun x y => x.start < y.start) : zs.Nodup :=
    hz.imp fun hlt heq => by
      rw [heq] at hlt
      exact Nat.lt_irrefl _ hlt
  have hperm : xs.Perm ys := (List.perm_ext_iff_of_nodup (hnodup hx) (hnodup hy)).2 h
  refine hperm.eq_of_pairwise (fun x y _ _ hxy hyx => ?_) hx hy
  exact absurd (Nat.lt_trans hxy hyx) (Nat.lt_irrefl _)

end Lexeme

theorem PieceOf.nonempty (h : PieceOf text p) : p.span.start < p.span.stop := by
  cases h with
  | run _ hw => exact Lexeme.nonempty_ofList hw.ne_nil
  | string => exact Lexeme.nonempty_ofList (by simp [inQuotes])

/-- A lexeme goes over a column. -/
def Lexeme.Spans {α : Type} (x : Lexeme α) (pos : Nat) : Prop :=
  x.span.start ≤ pos ∧ pos < x.span.stop

/-- Lexemes of the rest of a text, of which `seen` is read: they have a property and stand in order,
and the characters that are in none of them have another property. -/
structure Behind {α : Type} (P : Lexeme α → Prop) (Q : List Char → Char → Prop)
    (seen rest : List Char) (xs : List (Lexeme α)) : Prop where
  of_mem : ∀ x ∈ xs, P x
  behind : ∀ x ∈ xs, Text.utf8Size seen ≤ x.span.start
  ordered : xs.Pairwise fun x y => x.span.stop ≤ y.span.start
  covered : ∀ before c after, rest = before ++ c :: after →
    (∃ x ∈ xs, x.Spans (Text.utf8Size (seen ++ before))) ∨ Q (seen ++ before) c

namespace Behind

variable {α : Type} {P : Lexeme α → Prop} {Q : List Char → Char → Prop} {x : Lexeme α}
  {xs : List (Lexeme α)}

theorem nil : Behind P Q seen [] [] := ⟨nofun, nofun, .nil, by simp⟩

theorem cons (hp : P x)
    (hspan : x.span = ⟨Text.utf8Size seen, Text.utf8Size seen + Text.utf8Size part⟩)
    (h : Behind P Q (seen ++ part) rest xs) : Behind P Q seen (part ++ rest) (x :: xs) where
  of_mem := List.forall_mem_cons.2 ⟨hp, h.of_mem⟩
  behind := by
    refine List.forall_mem_cons.2 ⟨by rw [hspan], fun y hy => ?_⟩
    have := h.behind y hy
    rw [utf8Size_append] at this
    omega
  ordered := by
    refine List.pairwise_cons.2 ⟨fun y hy => ?_, h.ordered⟩
    have := h.behind y hy
    rw [utf8Size_append] at this
    rw [hspan]
    exact this
  covered := by
    intro before c after htext
    rcases List.append_eq_append_cases htext with ⟨m, rfl, hrest⟩ | ⟨m, hm, rfl, -⟩
    · rw [← List.append_assoc]
      exact (h.covered m c after hrest).imp_left fun ⟨y, hy, hspans⟩ => ⟨y, .tail _ hy, hspans⟩
    · have hpos := Text.utf8Size_pos hm
      simp only [utf8Size_append] at hspan
      refine .inl ⟨x, .head _, ?_⟩
      rw [Lexeme.Spans, hspan, utf8Size_append]
      constructor <;> simp only <;> omega

/-- Characters that are in no lexeme. -/
theorem gap (hg : ∀ before c after, part = before ++ c :: after → Q (seen ++ before) c)
    (h : Behind P Q (seen ++ part) rest xs) : Behind P Q seen (part ++ rest) xs where
  of_mem := h.of_mem
  behind x hx := by
    have := h.behind x hx
    rw [utf8Size_append] at this
    omega
  ordered := h.ordered
  covered := by
    intro before c after htext
    rcases List.append_eq_append_cases htext with ⟨m, rfl, hrest⟩ | ⟨m, hm, rfl, hrest⟩
    · rw [← List.append_assoc]
      exact h.covered m c after hrest
    · obtain ⟨d, m, rfl⟩ := List.exists_cons_of_ne_nil hm
      obtain ⟨rfl, -⟩ := List.cons_eq_cons.1 hrest
      exact .inr (hg before _ m rfl)

end Behind

/-- A character that is a separator, or of the comment. -/
def Passed (before : List Char) (c : Char) : Prop :=
  Outside before ∧ isSeparator c = true ∨ Context.code.after (before ++ [c]) = .comment

theorem Splits.behind (h : Splits rest ws) (htext : text = seen ++ rest) (ho : Outside seen)
    (hp : Parted seen rest)
    (hps : Line.collect n (scan .between (Text.utf8Size seen) rest) = .ok ps) :
    Behind (PieceOf text) Passed seen rest ps := by
  induction h generalizing seen ps with
  | nil =>
      cases hps
      exact .nil
  | @separator c rest ws hc _ ih =>
      have hsize : Text.utf8Size (seen ++ [c]) = Text.utf8Size seen + c.utf8Size := by
        rw [utf8Size_append]
        rfl
      have ho' : Outside (seen ++ [c]) := ho.append (Context.next_of_isSeparator hc)
      have hp' : Parted (seen ++ [c]) rest := parted_concat (not_isRunChar_of_isSeparator hc)
      rw [scan_separator hc, ← hsize] at hps
      have hrest := ih (by simpa using htext) ho' hp' hps
      rw [← List.singleton_append]
      refine .gap (fun before d after hcut => ?_) hrest
      obtain ⟨rfl, hnil⟩ | ⟨m, rfl, hnil⟩ := List.append_eq_cons_iff.1 hcut.symm
      · cases hnil
        exact .inl ⟨by simpa using ho, hc⟩
      · cases (List.append_eq_nil_iff.1 hnil.symm).2
  | @comment rest hf =>
      obtain ⟨qs, hq, hnil⟩ := (Splits.comment hf).collect n (Text.utf8Size seen)
      obtain rfl := List.map_eq_nil_iff.1 hnil
      cases hps.symm.trans hq
      rw [← List.append_nil (';' :: rest)]
      refine .gap (fun before c after hcut => .inr ?_) .nil
      rw [List.append_assoc, Context.after_append, ho]
      cases before with
      | nil =>
          obtain ⟨rfl, -⟩ := List.cons_eq_cons.1 hcut
          rfl
      | cons d before =>
          obtain ⟨rfl, -⟩ := List.cons_eq_cons.1 hcut
          exact Context.after_comment
  | @run run rest t ws hne hrun hstop ht _ ih =>
      rw [Line.collect_run hne hrun hstop ht, ← utf8Size_append] at hps
      obtain ⟨qs, hq, rfl⟩ := map_eq_ok.1 hps
      rw [← List.append_assoc] at htext
      have hw : WordAt seen run rest := ⟨ho, hp.starts hne hrun, hne, hrun, hstop⟩
      have hrest := ih htext (ho.append (Context.after_of_isRunChar hrun))
        (parted_of_stopsRun hstop) hq
      exact .cons (.run htext hw (class_of_ofRun ht)) Lexeme.span_ofList hrest
  | @string cs ds rest ws hs _ ih =>
      rw [Line.collect_string hs, ← utf8Size_append] at hps
      obtain ⟨qs, hq, rfl⟩ := map_eq_ok.1 hps
      rw [← List.append_assoc] at htext
      have hrest := ih htext (ho.append (Context.after_inQuotes hs)) parted_inQuotes hq
      exact .cons (.string htext ho hs) Lexeme.span_ofList hrest

/-- What is put together from the parts of a text has the pieces of each of them. -/
theorem Line.exists_part (h : collect n (scan .between 0 (before ++ rest)) = .ok ps)
    (ho : Outside before) (hp : Parted before rest) :
    ∃ us vs, collect n (scan .between (Text.utf8Size before) rest) = .ok vs ∧ ps = us ++ vs := by
  obtain ⟨_, _, hu, -, -⟩ := (splits_append ho hp).1 ((splits_iff n 0).2 ⟨ps, h, rfl⟩)
  obtain ⟨us, hu, -⟩ := hu.collect n 0
  rw [collect_part hu ho hp, Nat.zero_add] at h
  obtain ⟨vs, hv, rfl⟩ := map_eq_ok.1 h
  exact ⟨us, vs, hv, rfl⟩

/-- The tokens of a line are its pieces. -/
theorem Line.pieces_of_collect (h : collect n (lex text) = .ok ps) : Pieces text ps := by
  have hbehind : Behind (PieceOf text) Passed [] text ps :=
    ((splits_iff n 0).2 ⟨ps, h, rfl⟩).behind rfl rfl nofun h
  refine ⟨hbehind.of_mem, ?_, ?_, fun p hp => (hbehind.of_mem p hp).nonempty, hbehind.ordered, ?_⟩
  · intro before word after htext hw
    rw [htext, lex, List.append_assoc] at h
    obtain ⟨us, vs, hv, rfl⟩ := exists_part h hw.outside hw.parted
    rcases ofRun_cases word with ⟨t, ht⟩ | ⟨o, ho⟩
    · rw [collect_run hw.ne_nil hw.run hw.stops ht] at hv
      obtain ⟨ws, -, rfl⟩ := map_eq_ok.1 hv
      exact ⟨t, class_of_ofRun ht, by simp⟩
    · cases hv.symm.trans (Fault.number hw ho).collect
  · intro before cs ds after htext ho hs
    rw [htext, lex, List.append_assoc] at h
    obtain ⟨us, vs, hv, rfl⟩ := exists_part h ho (parted_of_stopsRun stopsRun_quote)
    rw [collect_string hs] at hv
    obtain ⟨ws, -, rfl⟩ := map_eq_ok.1 hv
    simp
  · intro before c after htext
    rcases hbehind.covered before c after htext with ⟨p, hp, hstart, hstop⟩ | ⟨ho, hc⟩ | hc
    · exact .piece hp hstart hstop
    · exact .separator ho hc
    · exact .comment hc

/-! ## The pieces determine the tokens -/

namespace Pieces

theorem mem_of (h : Pieces text ps) (hp : PieceOf text p) : p ∈ ps := by
  cases hp with
  | @run before word after t htext hw ht =>
      obtain ⟨t', ht', hmem⟩ := h.run before word after htext hw
      cases (ofRun_of_class ht).symm.trans (ofRun_of_class ht')
      exact hmem
  | string htext ho hs => exact h.string _ _ _ _ htext ho hs

theorem mem_iff (h : Pieces text ps) : p ∈ ps ↔ PieceOf text p := ⟨h.of_mem p, h.mem_of⟩

theorem increasing (h : Pieces text ps) : ps.Pairwise fun p q => p.start < q.start :=
  Lexeme.increasing h.nonempty h.ordered

theorem unique (h : Pieces text ps) (h' : Pieces text qs) : ps = qs :=
  Lexeme.eq_of_increasing h.increasing h'.increasing fun p => by rw [h.mem_iff, h'.mem_iff]

end Pieces

/-! ## Pieces and faults -/

/-- The part of a text that holds a column has the character there. -/
theorem exists_part_at {a b : List Char} (htext : before ++ c :: after = a ++ part ++ b)
    (hstart : Text.utf8Size a ≤ Text.utf8Size before)
    (hstop : Text.utf8Size before < Text.utf8Size a + Text.utf8Size part) :
    ∃ m k, before = a ++ m ∧ part = m ++ c :: k := by
  rw [List.append_assoc] at htext
  rcases List.append_eq_append_cases htext.symm with ⟨m, rfl, hrest⟩ | ⟨m, hm, rfl, -⟩
  · rcases List.append_eq_append_cases hrest with ⟨k, rfl, -⟩ | ⟨k, hk, rfl, hcut⟩
    · simp only [utf8Size_append] at hstop
      omega
    · obtain ⟨d, k, rfl⟩ := List.exists_cons_of_ne_nil hk
      obtain ⟨rfl, -⟩ := List.cons_eq_cons.1 hcut
      exact ⟨m, k, rfl, rfl⟩
  · have := Text.utf8Size_pos hm
    rw [utf8Size_append] at hstart
    omega

/-- A character that is covered as a quote opens a string. -/
theorem Pieces.exists_string (h : Pieces text ps) (htext : text = before ++ c :: after)
    (ho : Outside before) (hrun : isRunChar c = false) (hsep : isSeparator c = false)
    (hsemi : c ≠ ';') : ∃ cs ds rest, Escaped cs ds ∧ c :: after = inQuotes cs ++ rest := by
  cases h.covered before c after htext with
  | piece hp hstart hstop =>
      cases h.of_mem _ hp with
      | @run a word b t htext' hw =>
          rw [Lexeme.span_ofList] at hstart hstop
          obtain ⟨m, k, -, rfl⟩ := exists_part_at (htext.symm.trans htext') hstart hstop
          cases hrun.symm.trans (hw.run c (by simp))
      | @string a cs ds b htext' ho' hs =>
          rw [Lexeme.span_ofList] at hstart hstop
          obtain ⟨m, k, rfl, hcut⟩ := exists_part_at (htext.symm.trans htext') hstart hstop
          cases m with
          | nil =>
              rw [htext, List.append_nil, List.append_assoc] at htext'
              exact ⟨cs, ds, b, hs, List.append_cancel_left htext'⟩
          | cons q m =>
              -- The place would be inside of the string.
              obtain ⟨rfl, hrest⟩ := List.cons_eq_cons.1 hcut
              rw [Outside, Context.after_append, ho'] at ho
              exact absurd ho (Context.after_ne_code hs hrest (by simp))
  | separator _ hc => cases hsep.symm.trans hc
  | comment hc =>
      rw [Context.after_append, ho, Context.after_cons, Context.next, if_neg hsemi] at hc
      split at hc <;> cases hc

theorem Spoils.not_string (h : Spoils cs e) (hs : Escaped part ds) :
    '"' :: cs ≠ inQuotes part ++ rest := by
  intro heq
  have hscan : Token.scan .between 0 ('"' :: cs) = _ := h.scan
  rw [heq, scan_string hs] at hscan
  cases hscan

theorem FirstFault.not_pieces (h : FirstFault text before fault after e) : ¬ Pieces text ps := by
  intro hp
  obtain ⟨htext, -, hf⟩ := h
  cases hf with
  | number hw hn =>
      obtain ⟨t, ht, -⟩ := hp.run _ _ _ htext hw
      cases (ofRun_of_class ht).symm.trans (ofRun_of_overflow hn)
  | @blank c after ho hb hs =>
      rw [List.append_assoc] at htext
      obtain ⟨cs, ds, rest, -, hcut⟩ :=
        hp.exists_string htext ho (by simp [isRunChar, hb]) hs
          (plain_of_isBlank hb).1
      obtain ⟨rfl, -⟩ := List.cons_eq_cons.1 hcut
      exact absurd hb (by decide)
  | string ho hs =>
      rw [List.append_nil] at htext
      obtain ⟨part, ds, rest, hpart, hcut⟩ :=
        hp.exists_string htext ho (by decide) (by decide) (by decide)
      exact hs.not_string hpart hcut

/-! ## Lines -/

/-- The tokens of a line are its pieces, and nothing else is. -/
theorem Line.read_eq_ok_iff (hf : '\n' ∉ text) {l : Line} : Line.read n text = .ok l ↔
    l.number = n ∧ Pieces text l.tokens := by
  constructor
  · intro h
    obtain ⟨ps, hps, rfl⟩ := map_eq_ok.1 h
    exact ⟨rfl, pieces_of_collect hps⟩
  · rintro ⟨rfl, h⟩
    rcases splits_or_faulty text hf with ⟨ws, hws⟩ | ⟨_, _, _, _, hfault⟩
    · obtain ⟨l', hl, -⟩ := read_of_splits hws l.number
      obtain ⟨ps, hps, rfl⟩ := map_eq_ok.1 hl
      rw [hl, (pieces_of_collect hps).unique h]
    · exact absurd h hfault.not_pieces

theorem splits_iff_pieces (hf : '\n' ∉ text) : (∃ ws, Splits text ws) ↔ ∃ ps, Pieces text ps := by
  constructor
  · rintro ⟨ws, h⟩
    obtain ⟨ps, hps, -⟩ := h.collect 0 0
    exact ⟨ps, Line.pieces_of_collect hps⟩
  · rintro ⟨ps, h⟩
    have hread : Line.read 0 text = .ok ⟨0, ps⟩ := (Line.read_eq_ok_iff hf).2 ⟨rfl, h⟩
    exact ⟨_, Line.splits_of_read hread⟩

/-- A line is read as its pieces, if it has any, and with its first fault as the error if not: a
number that is too large, white space that separates nothing, or a string that is not closed. -/
theorem Line.read_iff_pieces (n : Nat) (hf : '\n' ∉ text) :
    (∀ l, Line.read n text = .ok l ↔ l.number = n ∧ Pieces text l.tokens) ∧
      ∀ err, Line.read n text = .error err ↔ ∃ before fault after e,
        text = before ++ fault ++ after ∧ (∃ ps, Pieces before ps) ∧
          Fault before fault after e ∧ err = e.inColumns n (Text.utf8Size before) fault := by
  refine ⟨fun l => read_eq_ok_iff hf, fun err => ?_⟩
  rw [read_eq_error_iff hf]
  have hleft {before fault after : List Char} (htext : text = before ++ fault ++ after) :
      '\n' ∉ before := fun h => hf (by simp [htext, h])
  constructor
  · rintro ⟨before, fault, after, e, ⟨htext, hws, hfault⟩, rfl⟩
    exact ⟨before, fault, after, e, htext, (splits_iff_pieces (hleft htext)).1 hws, hfault, rfl⟩
  · rintro ⟨before, fault, after, e, htext, hps, hfault, rfl⟩
    exact ⟨before, fault, after, e, ⟨htext, (splits_iff_pieces (hleft htext)).2 hps, hfault⟩, rfl⟩

end Lc3
