import Lc3.Proofs.Faults
import Lc3.Proofs.Reformatting
import Lc3.Proofs.Slots

/-!
# What the literals of a program stand for

Main statement: where a program has a place for a number, a literal is read exactly if the integer
that it denotes is in the range of the place, and the words of the program give that integer back.
-/

namespace Lc3

open Token Numeral

/-- A label or nothing. -/
def IsLabel (us : List Spelling) : Prop :=
  us = [] ∨ ∃ t x, us = [(t, x)] ∧ ((∃ name, t = .name name) ∨ ∃ r, t = .reg r)

/-- A line in which a word stands at a place for a number. -/
structure Slot.At (s : Slot) (before word after : List Char) : Prop where
  word : WordAt before word after
  blank : Blank after
  opens : ∃ us vs, Splits before (us ++ vs) ∧ IsLabel us ∧ s.Opens (vs.map Prod.fst)

/-- A line in which a word stands as the operand of `.ORIG`. -/
structure Origin.At (before word after : List Char) : Prop where
  word : WordAt before word after
  blank : Blank after
  opens : ∃ d x, Splits before [(.directive d, x)] ∧ Text.upper d = "ORIG"

/-- The reading of a program comes to a line, counted from zero: all lines have tokens, and those
above this one have an origin and statements without an end. -/
def Program.Reaches (source : String) (k : Nat) : Prop :=
  ∃ ls origin stmts, Line.readAll source = .ok ls ∧ Origin.find ls = .ok origin ∧
    origin.begin ≤ k ∧ Stmt.readAll ((ls.take k).drop origin.begin) = .ok stmts ∧
      ∀ st ∈ stmts, st.isEnd = false

variable {s : Slot} {before word after text : List Char} {texts : List (List Char)} {v : Int}
  {n k : Nat} {l : Line} {as bs ls : List Line} {ps : List Piece} {q : Piece}
  {r : Except Cause Command} {stmts : List Stmt} {st : Stmt} {source : String} {p : Program}
  {e : AsmError}

/-! ## Lines -/

namespace Stmt

theorem readCommand_of_readAs (h : ReadAs ps r) :
    readCommand n ps = (r.map some).mapError (.ofLine n) := by
  obtain ⟨first, ops, rfl, -, hr⟩ := h
  rw [readCommand, hr]
  cases r <;> rfl

theorem read_of_readAs (h : ReadAs ps r) (hl : l.tokens = ps) :
    read l = (r.map fun c => some ⟨none, some c, l.number⟩).mapError (.ofLine l.number) := by
  have hcommand := readCommand_of_readAs (n := l.number) h
  obtain ⟨first, ops, rfl, hc, -⟩ := h
  rw [read, hl]
  simp only [hc, ↓reduceIte, hcommand]
  cases r <;> rfl

theorem read_labeled (h : ReadAs ps r) (hl : l.tokens = q :: ps)
    (hq : (∃ name, q.value = .name name) ∨ ∃ r, q.value = .reg r) :
    read l = (r.map fun c => some ⟨some ⟨q.text, q.span⟩, some c, l.number⟩).mapError
      (.ofLine l.number) := by
  have hc : q.value.isCommand = false := by rcases hq with ⟨_, hq⟩ | ⟨_, hq⟩ <;> rw [hq] <;> rfl
  have hlabel : readLabel l.number q = .ok ⟨q.text, q.span⟩ := readLabel_eq_ok.2 ⟨hq, rfl⟩
  rw [read, hl]
  simp only [hc, Bool.false_eq_true, ↓reduceIte, hlabel, readCommand_of_readAs h]
  cases r <;> rfl

theorem line_of_read (h : read l = .ok (some st)) : st.line = l.number := by
  obtain ⟨_, _, _, _, _, _, rfl⟩ | ⟨_, _, _, _, _, _, _, _, rfl⟩ := read_eq_some.1 h <;> rfl

end Stmt

theorem Line.number_of_read (h : Line.read n text = .ok l) : l.number = n := by
  obtain ⟨ps, -, rfl⟩ := map_eq_ok.1 h
  rfl

/-- A line with a number at a place is a statement exactly if the place takes the number. -/
theorem Slot.At.read_line (h : s.At before word after) (hd : Denotes word v) (hv : InRange v)
    (hf : '\n' ∉ after) (n : Nat) :
    ∃ l label, Line.read n (before ++ word ++ after) = .ok l ∧
      Stmt.read l = if s.Takes v then .ok (some ⟨label, some (s.command v), n⟩)
        else .error (.ofLine n (s.cause v)) := by
  obtain ⟨us, vs, hsplits, hlabel, ho⟩ := h.opens
  have htext := (h.word.splits (hd.ofRun hv)).2 ⟨_, [], hsplits, h.blank.splits hf, rfl⟩
  obtain ⟨l, hl, htokens⟩ := Line.read_of_splits htext n
  obtain rfl := Line.number_of_read hl
  obtain ⟨as, p, bs, hps, ha, hp, hb⟩ := map_spelling_eq_append htokens
  obtain rfl := List.map_eq_nil_iff.1 hb
  obtain ⟨xs, ys, rfl, hx, hy⟩ := List.map_eq_append_iff.1 ha
  have hys : ys.map Lexeme.value = vs.map Prod.fst := by
    rw [← hy, List.map_map]
    rfl
  have hread := ho.readAs hys hp hv
  rcases hlabel with rfl | ⟨t, x, rfl, ht⟩
  · obtain rfl := List.map_eq_nil_iff.1 hx
    refine ⟨l, none, hl, ?_⟩
    rw [Stmt.read_of_readAs hread (by simpa using hps)]
    split <;> rfl
  · obtain ⟨q, rfl, hq⟩ := List.map_eq_singleton_iff.1 hx
    have hqv : q.value = t := congrArg Prod.fst hq
    refine ⟨l, some ⟨q.text, q.span⟩, hl, ?_⟩
    rw [Stmt.read_labeled hread (by simpa using hps) (hqv ▸ ht)]
    split <;> rfl

/-- A number that is too large is never read, and is the error if nothing before it is. -/
theorem Line.read_of_overflow (hw : WordAt before word after) (hd : Denotes word v)
    (hv : ¬ InRange v) : (∀ l, Line.read n (before ++ word ++ after) ≠ .ok l) ∧
      ((∃ ws, Splits before ws) → Line.read n (before ++ word ++ after) =
        .error (LexError.literalTooLarge.inColumns n (Text.utf8Size before) word)) := by
  obtain ⟨o, ho⟩ := exists_overflow hv
  have hfault : Fault before word after .literalTooLarge :=
    .number hw (literal?_eq_some.2 ⟨v, hd, ho.symm⟩)
  have hread (hws : ∃ ws, Splits before ws) : Line.read n (before ++ word ++ after) =
      .error (LexError.literalTooLarge.inColumns n (Text.utf8Size before) word) :=
    FirstFault.read ⟨rfl, hws, hfault⟩ n
  refine ⟨fun l hl => ?_, hread⟩
  have hsplits := Line.splits_of_read hl
  rw [List.append_assoc, splits_append hw.outside hw.parted] at hsplits
  obtain ⟨us, -, hu, -⟩ := hsplits
  cases hl.symm.trans (hread ⟨us, hu⟩)

/-- Whatever is read as a literal has the form of one. -/
theorem Line.denotes_of_read (h : read n text = .ok l) (hq : q ∈ l.tokens)
    (hv : q.value = .literal v) : Denotes q.text.toList v ∧ InRange v := by
  refine ⟨?_, (sound_of_read h q hq).inRange v hv⟩
  have hplain := plain_of_read h q hq
  generalize hw : Piece.spelling q = w at hplain
  cases hplain with
  | run _ _ ht =>
      cases hw
      rw [hv] at ht
      cases of_ofRun ht with
      | literal hl => exact denotes_of_literal? hl
  | string =>
      obtain ⟨hstring, -⟩ := Prod.ext_iff.1 hw
      cases hv.symm.trans hstring

/-! ## The lines of a program -/

namespace Line

theorem exists_text_at (h : readFrom n texts = .ok ls) (hl : ls[k]? = some l) :
    ∃ text, texts[k]? = some text ∧ read (n + k) text = .ok l := by
  induction texts generalizing n ls k with
  | nil =>
      cases h
      simp at hl
  | cons text texts ih =>
      obtain ⟨l', more, hl', hmore, rfl⟩ := readFrom_cons.1 h
      cases k with
      | zero =>
          cases hl
          exact ⟨text, rfl, hl'⟩
      | succ k =>
          obtain ⟨text', ht, hread⟩ := ih hmore hl
          exact ⟨text', ht, by rwa [Nat.add_right_comm] at hread⟩

theorem exists_line_at (h : readFrom n texts = .ok ls) (ht : texts[k]? = some text) :
    ∃ l, ls[k]? = some l ∧ read (n + k) text = .ok l := by
  induction texts generalizing n ls k with
  | nil => simp at ht
  | cons text' texts ih =>
      obtain ⟨l, more, hl, hmore, rfl⟩ := readFrom_cons.1 h
      cases k with
      | zero =>
          cases ht
          exact ⟨l, rfl, hl⟩
      | succ k =>
          obtain ⟨l', hl', hread⟩ := ih hmore ht
          exact ⟨l', hl', by rwa [Nat.add_right_comm] at hread⟩

theorem readFrom_eq_error (h : readFrom n (texts.take k) = .ok ls) (ht : texts[k]? = some text)
    (he : read (n + k) text = .error e) : readFrom n texts = .error e := by
  induction texts generalizing n ls k with
  | nil => simp at ht
  | cons text' texts ih =>
      cases k with
      | zero =>
          cases ht
          rw [Nat.add_zero] at he
          simp [readFrom, he, Bind.bind, Except.bind]
      | succ k =>
          obtain ⟨l, more, hl, hmore, rfl⟩ := readFrom_cons.1 h
          have hrest := ih hmore ht (by rwa [Nat.add_right_comm, Nat.add_assoc])
          simp [readFrom, hl, hrest, Bind.bind, Except.bind]

end Line

theorem Stmt.readAll_append (h : readAll as = .ok stmts) (he : ∀ st ∈ stmts, st.isEnd = false) :
    readAll (as ++ bs) = (readAll bs).map (stmts ++ ·) := by
  induction as generalizing stmts with
  | nil =>
      cases h
      rw [List.nil_append]
      cases readAll bs <;> rfl
  | cons l as ih =>
      obtain ⟨hl, hr⟩ | ⟨st, hl, ⟨hend, rfl⟩ | ⟨hend, rest, hr, rfl⟩⟩ := readAll_cons.1 h
      · simp only [List.cons_append, readAll, hl, Bind.bind, Except.bind]
        exact ih hr he
      · cases hend.symm.trans (he st (.head _))
      · have hmore := ih hr fun st hst => he st (.tail _ hst)
        simp only [List.cons_append, readAll, hl, Bind.bind, Except.bind, hend, Bool.false_eq_true,
          ↓reduceIte, hmore]
        cases readAll bs <;> rfl

namespace Program

/-- The lines behind those that the reading of a program has passed. -/
theorem Reaches.exists_rest (h : Reaches source k)
    (ht : (Text.lines source.toList)[k]? = some text) :
    ∃ ls origin stmts l more, Line.readAll source = .ok ls ∧ Origin.find ls = .ok origin ∧
      origin.begin ≤ k ∧ Line.read (k + 1) text = .ok l ∧
      (ls.take (k + 1)).drop origin.begin = (ls.take k).drop origin.begin ++ [l] ∧
      ls.drop origin.begin = (ls.take k).drop origin.begin ++ l :: more ∧
      Stmt.readAll ((ls.take k).drop origin.begin) = .ok stmts ∧
        ∀ st ∈ stmts, st.isEnd = false := by
  obtain ⟨ls, origin, stmts, hls, hfind, hbegin, hstmts, hend⟩ := h
  obtain ⟨l, hl, hread⟩ := Line.exists_line_at hls ht
  rw [Nat.add_comm] at hread
  obtain ⟨hk, hget⟩ := List.getElem?_eq_some_iff.1 hl
  have hlen : origin.begin ≤ (ls.take k).length := by
    rw [List.length_take, Nat.min_eq_left (Nat.le_of_lt hk)]
    exact hbegin
  refine ⟨ls, origin, stmts, l, ls.drop (k + 1), hls, hfind, hbegin, hread, ?_, ?_, hstmts, hend⟩
  · rw [List.take_add_one, hl, List.drop_append_of_le_length hlen]
    rfl
  · rw [← hget, ← List.drop_eq_getElem_cons hk, ← List.drop_append_of_le_length hlen,
      List.take_append_drop]

/-- The reading of a program passes a line with a number at a place exactly if the place takes the
number, and ends with an error if not. -/
theorem reaches_succ_iff (hline : (Text.lines source.toList)[k]? = some (before ++ word ++ after))
    (h : s.At before word after) (hd : Denotes word v) (hr : Reaches source k) :
    (Reaches source (k + 1) ↔ s.Takes v) ∧
      (¬ s.Takes v → read source = .error (.ofLine (k + 1) (s.cause v))) := by
  have hf : '\n' ∉ before ++ word ++ after :=
    Text.not_mem_of_mem_lines (List.mem_of_getElem? hline)
  obtain ⟨ls, origin, stmts, l, more, hls, hfind, hbegin, hread, htake, hdrop, hstmts, hend⟩ :=
    hr.exists_rest hline
  have hv : InRange v := by
    by_contra hv
    exact (Line.read_of_overflow h.word hd hv).1 l hread
  obtain ⟨l', label, hread', hst⟩ :=
    h.read_line hd hv (fun hm => hf (List.mem_append_right _ hm)) (k + 1)
  cases hread.symm.trans hread'
  have happend (bs : List Line) : Stmt.readAll ((ls.take k).drop origin.begin ++ bs) =
      (Stmt.readAll bs).map (stmts ++ ·) := Stmt.readAll_append hstmts hend
  refine ⟨⟨?_, fun ht => ?_⟩, fun ht => ?_⟩
  · rintro ⟨ls', origin', stmts', hls', hfind', -, hstmts', -⟩
    cases hls.symm.trans hls'
    cases hfind.symm.trans hfind'
    by_contra ht
    rw [if_neg ht] at hst
    rw [htake, happend, Stmt.readAll, hst] at hstmts'
    cases hstmts'
  · rw [if_pos ht] at hst
    have hnot : Stmt.isEnd ⟨label, some (s.command v), k + 1⟩ = false := by
      cases s <;> rfl
    refine ⟨ls, origin, stmts ++ [⟨label, some (s.command v), k + 1⟩], hls, hfind,
      Nat.le_succ_of_le hbegin, ?_, ?_⟩
    · rw [htake, happend, Stmt.readAll_cons.2 (.inr ⟨_, hst, .inr ⟨hnot, [], rfl, rfl⟩⟩)]
      rfl
    · rw [List.forall_mem_append]
      exact ⟨hend, by simpa using hnot⟩
  · rw [if_neg ht] at hst
    have hall : Stmt.readAll (ls.drop origin.begin) = .error (.ofLine (k + 1) (s.cause v)) := by
      rw [hdrop, happend, Stmt.readAll, hst]
      rfl
    simp only [read, hls, hfind, hall, Bind.bind, Except.bind]

/-- The statement of a line with a number at a place. -/
theorem command_of_read (hline : (Text.lines source.toList)[k]? = some (before ++ word ++ after))
    (h : s.At before word after) (hd : Denotes word v) (hp : read source = .ok p)
    (hst : st ∈ p.stmts) (hk : st.line = k + 1) :
    s.Takes v ∧ st.command = some (s.command v) := by
  have hf : '\n' ∉ before ++ word ++ after :=
    Text.not_mem_of_mem_lines (List.mem_of_getElem? hline)
  obtain ⟨ls, origin, hls, -, hstmts, -⟩ := read_eq_ok.1 hp
  obtain ⟨l, hl, hread⟩ := Stmt.exists_line hstmts hst
  obtain ⟨j, hj⟩ := List.getElem?_of_mem (List.mem_of_mem_drop hl)
  obtain ⟨text, ht, htext⟩ := Line.exists_text_at hls hj
  obtain rfl : j = k := by
    have := Stmt.line_of_read hread
    have := Line.number_of_read htext
    omega
  cases ht.symm.trans hline
  have hv : InRange v := by
    by_contra hv
    exact (Line.read_of_overflow h.word hd hv).1 l htext
  obtain ⟨l', label, hl', hcommand⟩ :=
    h.read_line hd hv (fun hm => hf (List.mem_append_right _ hm)) (1 + j)
  cases htext.symm.trans hl'
  rw [hread] at hcommand
  split at hcommand
  · rename_i htakes
    cases hcommand
    exact ⟨htakes, rfl⟩
  · cases hcommand

/-- The words of a command with a number at a place. -/
theorem holds_of_ofProgram {o : ObjectFile} {i : Nat} (ho : ObjectFile.ofProgram p = .ok o)
    (hst : (Stmt.body p.stmts)[i]? = some st) (hc : st.command = some (s.command v))
    (hv : s.Takes v) : ∃ ws, s.Holds v ws ∧
      ∀ j, j < ws.length → o.words[Stmt.offset p.stmts i + j]? = ws[j]? := by
  obtain ⟨layout, hl, hw⟩ := ObjectFile.ofProgram_eq_ok.1 ho
  obtain ⟨pieces, hpieces, rfl, -⟩ := ObjectFile.exists_emission hl hw
  obtain ⟨ws, hws, hget⟩ := hpieces.exists_words hst
  refine ⟨ws, ?_, hget⟩
  simp only [Stmt.words, hc] at hws
  cases hcw : (s.command v).words layout.labels (p.orig.toNat + Stmt.offset p.stmts i) with
  | error e => simp [hcw, Except.mapError] at hws
  | ok ws' =>
      rw [hcw] at hws
      cases hws
      exact Slot.holds_of_words hv hcw

end Program

/-! ## The origin -/

theorem Origin.findFrom_blanks (h : ∀ l ∈ as, l.tokens = []) :
    findFrom n (as ++ bs) = findFrom (n + as.length) bs := by
  induction as generalizing n with
  | nil => rfl
  | cons l as ih =>
      rw [List.cons_append, findFrom_blank (h l (.head _)), ih fun m hm => h m (.tail _ hm),
        List.length_cons, Nat.add_right_comm, Nat.add_assoc]

theorem Origin.address_literal (hq : q.value = .literal v) : address [q] =
    if 0 ≤ v ∧ v ≤ 65535 then .ok (BitVec.ofInt 16 v)
    else .error (.originOutOfRange q.text) := by
  have hrange : (0 ≤ v ∧ v < (1 <<< 16 : Nat)) ↔ 0 ≤ v ∧ v ≤ 65535 := by
    have : ((1 <<< 16 : Nat) : Int) = 65536 := rfl
    omega
  simp only [address, Piece.literal, hq, Field.unsigned?, Bind.bind, Except.bind, hrange]
  by_cases h : 0 ≤ v ∧ v ≤ 65535 <;> simp [h]

theorem Origin.At.operands_line (h : Origin.At before word after) (hd : Denotes word v)
    (hv : InRange v) (hf : '\n' ∉ after) (hl : Line.read n (before ++ word ++ after) = .ok l) :
    l.isEmpty = false ∧ operands l.tokens >>= address =
      if 0 ≤ v ∧ v ≤ 65535 then .ok (BitVec.ofInt 16 v)
      else .error (.originOutOfRange (String.ofList word)) := by
  obtain ⟨d, x, hsplits, hkey⟩ := h.opens
  have htokens := (Line.splits_of_read hl).unique
    ((h.word.splits (hd.ofRun hv)).2 ⟨_, [], hsplits, h.blank.splits hf, rfl⟩)
  obtain ⟨f, _, hps, hf, hrest⟩ := List.map_eq_cons_iff.1 htokens
  obtain ⟨q, rfl, hq⟩ := List.map_eq_singleton_iff.1 hrest
  obtain ⟨hqv, hqt⟩ := Prod.ext_iff.1 hq
  have hqt : q.text = String.ofList word := hqt
  have horigin : isOrigin f = true := by
    rw [isOrigin, show f.value = .directive d from congrArg Prod.fst hf]
    simpa using hkey
  have hoperands : operands l.tokens = .ok [q] := by simp only [hps, operands, horigin, ↓reduceIte]
  refine ⟨by simp [Line.isEmpty, hps], ?_⟩
  rw [hoperands, ← hqt, ← address_literal hqv]
  rfl

theorem Line.blank_of_readFrom (h : readFrom n texts = .ok ls)
    (hblank : ∀ text ∈ texts.take k, Blank text ∧ '\n' ∉ text) :
    ∀ l ∈ ls.take k, l.tokens = [] := by
  induction texts generalizing n ls k with
  | nil =>
      cases h
      simp
  | cons text texts ih =>
      obtain ⟨l, more, hl, hmore, rfl⟩ := readFrom_cons.1 h
      cases k with
      | zero => simp
      | succ k =>
          rw [List.take_succ_cons, List.forall_mem_cons] at hblank ⊢
          obtain ⟨l', hl', hnil⟩ := hblank.1.1.read hblank.1.2 n
          cases hl.symm.trans hl'
          exact ⟨hnil, ih hmore hblank.2⟩

/-- The first line that is not blank gives the origin if it is `.ORIG` with a number in range. -/
theorem Origin.find_of_at (hls : Line.readAll source = .ok ls)
    (hline : (Text.lines source.toList)[k]? = some (before ++ word ++ after))
    (hblank : ∀ text ∈ (Text.lines source.toList).take k, Blank text)
    (h : Origin.At before word after) (hd : Denotes word v) :
    find ls = if 0 ≤ v ∧ v ≤ 65535 then .ok ⟨BitVec.ofInt 16 v, k + 1⟩
      else .error (.ofLine (k + 1) (.originOutOfRange (String.ofList word))) := by
  have hf : '\n' ∉ before ++ word ++ after :=
    Text.not_mem_of_mem_lines (List.mem_of_getElem? hline)
  obtain ⟨l, hl, hread⟩ := Line.exists_line_at hls hline
  obtain ⟨hk, hget⟩ := List.getElem?_eq_some_iff.1 hl
  have hv : InRange v := by
    by_contra hv
    exact (Line.read_of_overflow h.word hd hv).1 l hread
  obtain ⟨hempty, hoperands⟩ :=
    h.operands_line hd hv (fun hm => hf (List.mem_append_right _ hm)) hread
  have hblanks : ∀ m ∈ ls.take k, m.tokens = [] := Line.blank_of_readFrom hls fun text ht =>
    ⟨hblank text ht, Text.not_mem_of_mem_lines (List.mem_of_mem_take ht)⟩
  have hlen : 0 + (ls.take k).length = k := by
    rw [Nat.zero_add, List.length_take, Nat.min_eq_left (Nat.le_of_lt hk)]
  rw [find, ← List.take_append_drop k ls, List.drop_eq_getElem_cons hk, hget,
    findFrom_blanks hblanks, hlen, findFrom, Line.number_of_read hread, Nat.add_comm 1 k]
  simp only [hempty, Bool.false_eq_true, ↓reduceIte, hoperands]
  by_cases hrange : 0 ≤ v ∧ v ≤ 65535
  · simp only [if_pos hrange]
  · simp only [if_neg hrange]

/-! ## Programs -/

theorem Program.read_of_overflow
    (hline : (Text.lines source.toList)[k]? = some (before ++ word ++ after))
    (hw : WordAt before word after) (hd : Denotes word v) (hv : ¬ InRange v) :
    (∀ p, read source ≠ .ok p) ∧
      ((∃ ls, Line.readFrom 1 ((Text.lines source.toList).take k) = .ok ls) →
        (∃ ws, Splits before ws) → read source =
          .error (LexError.literalTooLarge.inColumns (k + 1) (Text.utf8Size before) word)) := by
  refine ⟨fun p hp => ?_, fun ⟨ls, hls⟩ hws => ?_⟩
  · obtain ⟨ls, origin, hls, -⟩ := read_eq_ok.1 hp
    obtain ⟨l, -, hread⟩ := Line.exists_line_at hls hline
    exact (Line.read_of_overflow hw hd hv).1 l hread
  · have hread := (Line.read_of_overflow hw hd hv (n := 1 + k)).2 hws
    have hall := Line.readFrom_eq_error hls hline hread
    rw [Nat.add_comm] at hall
    simp only [read, Line.readAll, hall, Bind.bind, Except.bind]

theorem Program.orig_of_at (hline : (Text.lines source.toList)[k]? = some (before ++ word ++ after))
    (hblank : ∀ text ∈ (Text.lines source.toList).take k, Blank text)
    (h : Origin.At before word after) (hd : Denotes word v) (hp : read source = .ok p) :
    (p.orig.toNat : Int) = v := by
  obtain ⟨ls, origin, hls, hfind, -, ho⟩ := read_eq_ok.1 hp
  have := hfind.symm.trans (Origin.find_of_at hls hline hblank h hd)
  split at this
  · rename_i hrange
    cases this
    rw [← ho]
    exact Field.toNat_ofInt hrange.1 (Int.lt_of_le_of_lt hrange.2 (by decide))
  · cases this

/-- A literal of any length in a line of a program is the integer that it denotes. The program is
rejected if that is outside of the 32-bit range. At a place for a number, the reading of the program
goes on exactly if the place takes the integer, and the words of the program then hold it. In the
`.ORIG` line, it has to be an address and is the origin. Nothing else is a literal. -/
theorem Program.literals_mean
    (hline : (Text.lines source.toList)[k]? = some (before ++ word ++ after))
    (hd : Denotes word v) :
    (¬ InRange v → WordAt before word after → (∀ p, read source ≠ .ok p) ∧
      ((∃ ls, Line.readFrom 1 ((Text.lines source.toList).take k) = .ok ls) →
        (∃ ws, Splits before ws) → read source =
          .error (LexError.literalTooLarge.inColumns (k + 1) (Text.utf8Size before) word))) ∧
    (∀ s : Slot, s.At before word after → Reaches source k →
      (Reaches source (k + 1) ↔ s.Takes v) ∧
        (¬ s.Takes v → read source = .error (.ofLine (k + 1) (s.cause v)))) ∧
    (∀ s : Slot, s.At before word after → ∀ p o, read source = .ok p →
      ObjectFile.assemble source = .ok o → ∀ i st, (Stmt.body p.stmts)[i]? = some st →
        st.line = k + 1 → ∃ ws, s.Holds v ws ∧
          ∀ j, j < ws.length → o.words[Stmt.offset p.stmts i + j]? = ws[j]?) ∧
    (Origin.At before word after → (∀ text ∈ (Text.lines source.toList).take k, Blank text) →
      (∀ ls, Line.readAll source = .ok ls → Origin.find ls =
        if 0 ≤ v ∧ v ≤ 65535 then .ok ⟨BitVec.ofInt 16 v, k + 1⟩
        else .error (.ofLine (k + 1) (.originOutOfRange (String.ofList word)))) ∧
      ∀ p o, read source = .ok p → ObjectFile.assemble source = .ok o →
        (p.orig.toNat : Int) = v ∧ o.orig = p.orig) ∧
    ∀ n text l, Line.read n text = .ok l → ∀ q ∈ l.tokens, ∀ z, q.value = .literal z →
      Denotes q.text.toList z ∧ InRange z := by
  refine ⟨fun hv hw => read_of_overflow hline hw hd hv,
    fun s h hr => reaches_succ_iff hline h hd hr, ?_, fun h hblank => ⟨?_, ?_⟩,
    fun n text l hl q hq z hz => Line.denotes_of_read hl hq hz⟩
  · intro s h p o hp ho i st hst hk
    have hmem : st ∈ p.stmts :=
      (List.takeWhile_prefix _).subset (List.mem_of_getElem? hst)
    obtain ⟨htakes, hcommand⟩ := command_of_read hline h hd hp hmem hk
    exact holds_of_ofProgram ((ObjectFile.assemble_eq_ok hp).1 ho) hst hcommand htakes
  · intro ls hls
    exact Origin.find_of_at hls hline hblank h hd
  · intro p o hp ho
    obtain ⟨_, -, hw⟩ := ObjectFile.ofProgram_eq_ok.1 ((ObjectFile.assemble_eq_ok hp).1 ho)
    obtain ⟨_, -, rfl⟩ := ObjectFile.ofStmts_eq_ok hw
    exact ⟨orig_of_at hline hblank h hd hp, rfl⟩

/-- The least number that an addition takes, and one less. -/
theorem Program.literals_mean_least :
    let source := ".ORIG x3000\nADD R0, R1, #-016 ; #\n.END"
    let beyond := ".ORIG x3000\nADD R0, R1, x-11\n.END"
    Reaches source 2 ∧ ¬ Reaches beyond 2 ∧
      read beyond = .error (.ofLine 2 (.immediateOutOfRange 5 (-17))) ∧
        ∃ ws, (Slot.add 0 1).Holds (-16) ws ∧
          ∀ j, j < ws.length → ([0x1070] : List Word)[j]? = ws[j]? := by
  intro source beyond
  let header : Line := ⟨1, [⟨.directive "ORIG", ".ORIG", 0⟩, ⟨.literal 0x3000, "x3000", 6⟩]⟩
  let opening : List Piece := [⟨.mnemonic .add, "ADD", 0⟩, ⟨.reg 0, "R0", 4⟩, ⟨.reg 1, "R1", 8⟩]
  let footer : Line := ⟨3, [⟨.directive "END", ".END", 0⟩]⟩
  have hread : Line.read 1 "ADD R0, R1, ".toList = .ok ⟨1, opening⟩ := by decide
  have hopens : ∃ us vs, Splits "ADD R0, R1, ".toList (us ++ vs) ∧ IsLabel us ∧
      (Slot.add 0 1).Opens (vs.map Prod.fst) :=
    ⟨[], _, Line.splits_of_read hread, .inl rfl, .add⟩
  have hat : (Slot.add 0 1).At "ADD R0, R1, ".toList "#-016".toList " ; #".toList :=
    ⟨⟨by decide, by rintro _ ⟨⟩; decide, by decide, List.all_eq_true.1 (by decide),
      by rintro _ ⟨⟩; decide⟩, .mk (show Separators [' '] by decide) (.comment _), hopens⟩
  have hat' : (Slot.add 0 1).At "ADD R0, R1, ".toList "x-11".toList [] :=
    ⟨⟨by decide, by rintro _ ⟨⟩; decide, by decide, List.all_eq_true.1 (by decide),
      nofun⟩, .mk (show Separators [] by decide) .none, hopens⟩
  have hd : Denotes "#-016".toList (-16) := denotes_of_literal? (by decide)
  have hd' : Denotes "x-11".toList (-17) := denotes_of_literal? (by decide)
  have hreaches : Reaches source 1 :=
    ⟨[header, ⟨2, opening ++ [⟨.literal (-16), "#-016", 12⟩]⟩, footer], ⟨0x3000, 1⟩, [],
      by decide, by decide, by decide, by decide, nofun⟩
  have hreaches' : Reaches beyond 1 :=
    ⟨[header, ⟨2, opening ++ [⟨.literal (-17), "x-11", 12⟩]⟩, footer], ⟨0x3000, 1⟩, [],
      by decide, by decide, by decide, by decide, nofun⟩
  have hline : (Text.lines source.toList)[1]? =
      some ("ADD R0, R1, ".toList ++ "#-016".toList ++ " ; #".toList) := by decide
  have hline' : (Text.lines beyond.toList)[1]? =
      some ("ADD R0, R1, ".toList ++ "x-11".toList ++ []) := by decide
  obtain ⟨-, hpass, hwords, -⟩ := literals_mean hline hd
  obtain ⟨-, hpass', -⟩ := literals_mean hline' hd'
  refine ⟨(hpass _ hat hreaches).1.2 (by decide),
    fun h => absurd ((hpass' _ hat' hreaches').1.1 h) (by decide),
    (hpass' _ hat' hreaches').2 (by decide), ?_⟩
  have hp : read source = .ok ⟨0x3000, [⟨none, some ((Slot.add 0 1).command (-16)), 2⟩,
      ⟨none, some (.directive .finish), 3⟩]⟩ := by decide
  have ho : ObjectFile.assemble source = .ok ⟨0x3000, [0x1070], .empty⟩ := by decide
  obtain ⟨ws, hholds, hget⟩ := hwords _ hat _ _ hp ho 0 _ rfl rfl
  exact ⟨ws, hholds, fun j hj => by simpa using hget j hj⟩

end Lc3
