import Lc3.Proofs.Dividing
import Lc3.Proofs.Pieces

/-!
# The items of a line

The items of a line can be told without reading it from the left, in a faulty line too. Main
statement: an engine that takes the longest match makes of a line the items that stand in it, its
runs, strings, comment and faults, and these give the tokens of the line or its error.
-/

namespace Lc3

open Token

/-- What a run is read as: the token that it is, or a fault if it is a number that is too large. -/
inductive Token.ReadsAs (run : List Char) : Except LexError Token → Prop
  | token {t : Token} (ht : Class run t) : ReadsAs run (.ok t)
  | number {o : Overflow} (hn : Numeral.literal? run = some (.error o)) :
      ReadsAs run (.error .literalTooLarge)

/-- A place that is outside of strings and comments, where every string before it is closed. -/
structure Clear (before : List Char) : Prop where
  outside : Outside before
  closed : ∀ a cs, before = a ++ '"' :: cs → Outside a →
    ∃ part ds rest, Escaped part ds ∧ '"' :: cs = inQuotes part ++ rest

/-- A run, a string, the comment or a fault of a text, at its place. A string with a fault takes the
rest of the text. -/
inductive ItemOf (text : List Char) : Item → Prop
  | run {before word after : List Char} {value : Except LexError Token}
      (htext : text = before ++ word ++ after) (hc : Clear before) (hw : WordAt before word after)
      (hv : ReadsAs word value) :
      ItemOf text ⟨value, String.ofList word, Text.utf8Size before⟩
  | string {before cs ds after : List Char} (htext : text = before ++ inQuotes cs ++ after)
      (hc : Clear before) (hs : Escaped cs ds) :
      ItemOf text
        ⟨.ok (.string (String.ofList ds)), String.ofList (inQuotes cs), Text.utf8Size before⟩
  | spoiled {before cs : List Char} {e : LexError} (htext : text = before ++ '"' :: cs)
      (hc : Clear before) (hs : Spoils cs e) :
      ItemOf text ⟨.error e, String.ofList ('"' :: cs), Text.utf8Size before⟩
  | comment {before cs : List Char} (htext : text = before ++ ';' :: cs) (hc : Clear before) :
      ItemOf text ⟨.ok .comment, String.ofList (';' :: cs), Text.utf8Size before⟩
  | blank {before after : List Char} {c : Char} (htext : text = before ++ c :: after)
      (hc : Clear before) (hb : Text.isBlank c = true) (hs : isSeparator c = false) :
      ItemOf text ⟨.error .invalidSymbol, String.ofList [c], Text.utf8Size before⟩

/-- The items of a text, at their places. -/
structure Itemized (text : List Char) (items : List Item) : Prop where
  mem_iff : ∀ i, i ∈ items ↔ ItemOf text i
  run : ∀ before word after, text = before ++ word ++ after → Clear before →
    WordAt before word after → ∃ value, ReadsAs word value ∧
      ⟨value, String.ofList word, Text.utf8Size before⟩ ∈ items
  nonempty : ∀ i ∈ items, i.span.start < i.span.stop
  ordered : items.Pairwise fun i j => i.span.stop ≤ j.span.start
  covered : ∀ before c after, text = before ++ c :: after →
    (∃ i ∈ items, i.Spans (Text.utf8Size before)) ∨ isSeparator c = true

variable {c : Char} {cs ds before part after word rest seen text : List Char} {pos n : Nat}
  {e : LexError} {i : Item} {items : List Item} {value : Except LexError Token} {engine : Engine}

theorem Token.readsAs_iff : ReadsAs word value ↔ ofRun word = value := by
  constructor
  · rintro (ht | hn)
    · exact ofRun_of_class ht
    · exact ofRun_of_overflow hn
  · rintro rfl
    rcases ofRun_cases word with ⟨t, ht⟩ | ⟨o, hn⟩
    · rw [ht]
      exact .token (class_of_ofRun ht)
    · rw [ofRun_of_overflow hn]
      exact .number hn

/-! ## Places where strings are closed -/

namespace Clear

theorem nil : Clear [] := ⟨rfl, by simp⟩

theorem of_plain (h : ∀ c ∈ part, c ≠ ';' ∧ c ≠ '"') : Clear part where
  outside := Context.after_plain h
  closed a cs hpart _ := by
    have := h '"' (by simp [hpart])
    exact absurd rfl this.2

theorem of_escaped (hs : Escaped cs ds) : Clear (inQuotes cs) where
  outside := Context.after_inQuotes hs
  closed a bs hcut ho := by
    cases a with
    | nil => exact ⟨cs, ds, [], hs, by simpa using hcut.symm⟩
    | cons d a =>
        -- The place would be inside of the string.
        obtain ⟨rfl, hrest⟩ := List.cons_eq_cons.1 hcut
        exact absurd ho (Context.after_ne_code hs hrest (by simp))

theorem append (h : Clear seen) (h' : Clear part) : Clear (seen ++ part) where
  outside := h.outside.append h'.outside
  closed a cs hcut ho := by
    rcases List.append_eq_append_cases hcut with ⟨m, rfl, hrest⟩ | ⟨m, hm, rfl, hrest⟩
    · rw [Outside, Context.after_append, h.outside] at ho
      exact h'.closed m cs hrest ho
    · obtain ⟨d, m, rfl⟩ := List.exists_cons_of_ne_nil hm
      obtain ⟨rfl, rfl⟩ := List.cons_eq_cons.1 hrest
      obtain ⟨as, ds, bs, hs, hcut⟩ := h.closed a m rfl ho
      exact ⟨as, ds, bs ++ part, hs, by rw [← List.append_assoc, ← hcut]; rfl⟩

/-- What is behind a part of the text after which the context is that of code is read as code. -/
theorem of_append (h : Clear (part ++ before)) (hp : Outside part) : Clear before where
  outside := by
    have := h.outside
    rwa [Outside, Context.after_append, hp] at this
  closed a cs hcut ho :=
    h.closed (part ++ a) cs (by rw [hcut, List.append_assoc]) (hp.append ho)

end Clear

theorem outside_separators (hs : Separators part) : Outside part :=
  Context.after_plain fun c hc => plain_of_isSeparator (hs c hc)

theorem outside_blank (hb : Text.isBlank c = true) : Outside [c] :=
  Context.next_plain (plain_of_isBlank hb)

/-- Behind such a place a text is read as if it stood alone, if no run is cut in two. -/
theorem Divides.scan_append (h : Divides pos before items) (hc : Clear before)
    (hp : Parted before rest) : Token.scan .between pos (before ++ rest) =
      items ++ Token.scan .between (pos + Text.utf8Size before) rest := by
  induction h with
  | nil => rfl
  | separators _ hs _ _ ih =>
      rw [List.append_assoc, scan_separators hs,
        ih (hc.of_append (outside_separators hs)) hp.of_append, utf8Size_append, Nat.add_assoc]
  | @blank pos c before items hb hs _ ih =>
      have hc : Clear ([c] ++ before) := hc
      rw [List.cons_append, scan_blank hb hs, ih (hc.of_append (outside_blank hb)) hp.of_cons,
        Nat.add_assoc]
      rfl
  | run hne hrun hstop _ ih =>
      rw [List.append_assoc, scan_run hne hrun (hp.stopsRun_append hne hrun hstop),
        ih (hc.of_append (Context.after_of_isRunChar hrun)) hp.of_append, utf8Size_append,
        Nat.add_assoc]
      rfl
  | string hs _ ih =>
      rw [List.append_assoc, scan_string hs,
        ih (hc.of_append (Context.after_inQuotes hs)) hp.of_append, utf8Size_append, Nat.add_assoc]
      rfl
  | spoiled hs =>
      obtain ⟨part, ds, rest, hpart, hcut⟩ := hc.closed [] _ rfl rfl
      exact absurd hcut (hs.not_string hpart)
  | comment => exact absurd hc.outside not_outside_comment

theorem Clear.scan_append (h : Clear before) (hp : Parted before rest) :
    ∃ us, lex (before ++ rest) = us ++ scan .between (Text.utf8Size before) rest := by
  obtain ⟨us, hus⟩ := exists_divides 0 before
  exact ⟨us, by rw [lex, hus.scan_append h hp, Nat.zero_add]⟩

/-- What stands at such a place is read there. -/
theorem Clear.mem_lex (hc : Clear before) (hp : Parted before rest)
    (h : Divides (Text.utf8Size before) rest (i :: items)) : i ∈ lex (before ++ rest) := by
  obtain ⟨us, hus⟩ := hc.scan_append hp
  rw [hus, h.scan]
  simp

theorem ItemOf.mem_lex (hf : '\n' ∉ text) (h : ItemOf text i) : i ∈ lex text := by
  cases h with
  | @run before word after value htext hc hw hv =>
      obtain ⟨items, h⟩ := exists_divides (Text.utf8Size before + Text.utf8Size word) after
      rw [htext, List.append_assoc, ← readsAs_iff.1 hv]
      exact hc.mem_lex hw.parted (.run hw.ne_nil hw.run hw.stops h)
  | @string before cs ds after htext hc hs =>
      obtain ⟨items, h⟩ := exists_divides (Text.utf8Size before + Text.utf8Size (inQuotes cs)) after
      rw [htext, List.append_assoc]
      exact hc.mem_lex (parted_of_stopsRun stopsRun_quote) (.string hs h)
  | spoiled htext hc hs =>
      rw [htext]
      exact hc.mem_lex (parted_of_stopsRun stopsRun_quote) (.spoiled hs)
  | @comment before cs htext hc =>
      have hcs : '\n' ∉ cs := fun h => hf (by simp [htext, h])
      have h : Divides (Text.utf8Size before) (';' :: cs ++ [])
          [⟨.ok .comment, String.ofList (';' :: cs), Text.utf8Size before⟩] :=
        .comment hcs nofun .nil
      rw [List.append_nil] at h
      rw [htext]
      exact hc.mem_lex (parted_of_stopsRun (Remark.comment cs).stopsRun) h
  | @blank before after c htext hc hb hs =>
      obtain ⟨items, h⟩ := exists_divides (Text.utf8Size before + c.utf8Size) after
      rw [htext]
      exact hc.mem_lex (parted_of_stopsRun (stopsRun_of_isBlank hb)) (.blank hb hs h)

/-! ## Everything that is read is an item -/

/-- No run goes on behind characters that are not of a run. -/
theorem parted_append (hne : part ≠ []) (h : ∀ c ∈ part, isRunChar c = false) :
    Parted (seen ++ part) rest := by
  intro c hc hrun
  rw [List.getLast?_append_of_ne_nil _ hne] at hc
  cases hrun.symm.trans (h c (List.mem_of_getLast? hc))

theorem Divides.behind (h : Divides pos rest items) (hpos : Text.utf8Size seen = pos)
    (hf : '\n' ∉ rest) (htext : text = seen ++ rest) (hc : Clear seen) (hp : Parted seen rest) :
    Behind (ItemOf text) (fun _ c => isSeparator c = true) seen rest items := by
  induction h generalizing seen with
  | nil => exact .nil
  | @separators pos seps rest items hne hs _ _ ih =>
      rw [← List.append_assoc] at htext
      have hclear : Clear seps := .of_plain fun c hc => plain_of_isSeparator (hs c hc)
      have hparted : Parted (seen ++ seps) rest :=
        parted_append hne fun c hc => not_isRunChar_of_isSeparator (hs c hc)
      have hrest := ih (by rw [utf8Size_append, hpos]) (fun h => hf (by simp [h])) htext
        (hc.append hclear) hparted
      exact .gap (fun before c after hcut => hs c (by simp [hcut])) hrest
  | @blank pos c rest items hb hs _ ih =>
      have hclear : Clear [c] := .of_plain (by simpa using plain_of_isBlank hb)
      have hparted : Parted (seen ++ [c]) rest := parted_append (by simp) (by simp [isRunChar, hb])
      have hrest := ih (by rw [utf8Size_append, hpos]; rfl) (fun h => hf (by simp [h]))
        (by simpa using htext) (hc.append hclear) hparted
      subst hpos
      exact .cons (.blank htext hc hb hs) Lexeme.span_ofList hrest
  | @run pos run rest items hne hrun hstop _ ih =>
      rw [← List.append_assoc] at htext
      have hw : WordAt seen run rest := ⟨hc.outside, hp.starts hne hrun, hne, hrun, hstop⟩
      have hclear : Clear run := .of_plain fun c hc => plain_of_isRunChar (hrun c hc)
      have hrest := ih (by rw [utf8Size_append, hpos]) (fun h => hf (by simp [h])) htext
        (hc.append hclear) (parted_of_stopsRun hstop)
      subst hpos
      exact .cons (.run htext hc hw (readsAs_iff.2 rfl)) Lexeme.span_ofList hrest
  | @string pos cs ds rest items hs _ ih =>
      rw [← List.append_assoc] at htext
      have hrest := ih (by rw [utf8Size_append, hpos]) (fun h => hf (by simp [h])) htext
        (hc.append (.of_escaped hs)) parted_inQuotes
      subst hpos
      exact .cons (.string htext hc hs) Lexeme.span_ofList hrest
  | @spoiled pos cs e hs =>
      subst hpos
      have h : Behind (ItemOf text) (fun _ c => isSeparator c = true) seen ('"' :: cs ++ []) _ :=
        .cons (.spoiled htext hc hs) Lexeme.span_ofList .nil
      rwa [List.append_nil] at h
  | @comment pos cs rest items _ hstop h _ =>
      obtain rfl : rest = [] := by
        cases rest with
        | nil => rfl
        | cons d rest => exact absurd (hstop d rfl) fun hd => hf (by simp [hd])
      obtain rfl : [] = items := h.scan
      subst hpos
      rw [List.append_nil] at htext
      exact .cons (.comment htext hc) Lexeme.span_ofList .nil

theorem ItemOf.nonempty (h : ItemOf text i) : i.span.start < i.span.stop := by
  cases h with
  | run _ _ hw => exact Lexeme.nonempty_ofList hw.ne_nil
  | string => exact Lexeme.nonempty_ofList (by simp [inQuotes])
  | spoiled | comment | blank => exact Lexeme.nonempty_ofList (by simp)

/-! ## The items of a line -/

theorem itemized_lex (hf : '\n' ∉ text) : Itemized text (lex text) := by
  obtain ⟨items, h⟩ := exists_divides 0 text
  have hbehind : Behind (ItemOf text) (fun _ c => isSeparator c = true) [] text items :=
    h.behind rfl hf rfl .nil nofun
  have hmem {i : Item} (hi : ItemOf text i) : i ∈ items := by
    rw [← h.scan]
    exact hi.mem_lex hf
  rw [lex, h.scan]
  refine ⟨fun i => ⟨hbehind.of_mem i, hmem⟩, fun before word after htext hc hw => ?_,
    fun i hi => (hbehind.of_mem i hi).nonempty, hbehind.ordered, hbehind.covered⟩
  have hreads : ReadsAs word (ofRun word) := readsAs_iff.2 rfl
  exact ⟨_, hreads, hmem (.run htext hc hw hreads)⟩

theorem Itemized.unique {items' : List Item} (h : Itemized text items)
    (h' : Itemized text items') : items = items' :=
  Lexeme.eq_of_increasing (Lexeme.increasing h.nonempty h.ordered)
    (Lexeme.increasing h'.nonempty h'.ordered) fun i => by rw [h.mem_iff, h'.mem_iff]

/-- Reading by patterns makes of a line the items that stand in it, the same as reading it one
character at a time. The tokens of the line are its pieces, if it has any, and its error is the
first fault if not. -/
theorem Token.Engine.reads_line (he : engine.LongestMatch) (hf : '\n' ∉ text) :
    engine.lex text = Token.lex text ∧
    (∀ items, engine.lex text = items ↔ Itemized text items) ∧
    ∀ n, (∀ l, Line.read n text = .ok l ↔ l.number = n ∧ Pieces text l.tokens) ∧
      ∀ err, Line.read n text = .error err ↔ ∃ before fault after e,
        text = before ++ fault ++ after ∧ (∃ ps, Pieces before ps) ∧
          Fault before fault after e ∧ err = e.inColumns n (Text.utf8Size before) fault := by
  have hlex := lex_eq he text
  refine ⟨hlex, fun items => ?_, fun n => Line.read_iff_pieces n hf⟩
  rw [hlex]
  constructor
  · rintro rfl
    exact itemized_lex hf
  · exact (itemized_lex hf).unique

/-- Words that look like numbers and registers, a string, and a comment; and, behind a no-break
space, a number that is too large and a string with an escape that means nothing. -/
theorem Token.Engine.reads_line_partial :
    let text := "b102,x-\t#--3 R10 r7\"é;\";\"".toList
    let faulty := "R0\u00a0R0 x100000000 \"\\q\" R0".toList
    search.LongestMatch ∧ '\n' ∉ text ∧ '\n' ∉ faulty ∧
      Pieces text [⟨.name "b102", "b102", 0⟩, ⟨.unknown "x-", "x-", 5⟩,
        ⟨.unknown "#--3", "#--3", 8⟩, ⟨.name "R10", "R10", 13⟩, ⟨.reg 7, "r7", 17⟩,
        ⟨.string "é;", "\"é;\"", 19⟩] ∧
      search.lex faulty = [⟨.ok (.reg 0), "R0", 0⟩, ⟨.error .invalidSymbol, "\u00a0", 2⟩,
        ⟨.ok (.reg 0), "R0", 4⟩, ⟨.error .literalTooLarge, "x100000000", 7⟩,
        ⟨.error (.unsupportedEscape 'q'), "\"\\q\" R0", 18⟩] ∧
      Itemized faulty (search.lex faulty) := by
  intro text faulty
  have hf : '\n' ∉ text := by decide
  have hf' : '\n' ∉ faulty := by decide
  obtain ⟨-, -, hread⟩ := reads_line search_longestMatch hf
  obtain ⟨hlex, hitems, -⟩ := reads_line search_longestMatch hf'
  exact ⟨search_longestMatch, hf, hf', (((hread 1).1 ⟨1, _⟩).1 (by rfl)).2, hlex.trans (by rfl),
    (hitems _).1 rfl⟩

end Lc3
