import Mathlib.Data.List.TakeWhile
import Lc3.Proofs.Recasing

/-!
# The first fault of a line

A line is faulty where a number is too large, where white space separates nothing, or where a string
is not closed or has an escape that means nothing. Main statement: a line has either tokens or a
first fault, with text before it that has tokens; and the error of the line is that fault, in its
columns.
-/

namespace Lc3

open Token

/-- What is wrong with the text behind an opening quote: it ends, or goes on to an escape that means
nothing, before a quote closes the string. -/
inductive Spoils : List Char → LexError → Prop
  | ends {cs ds : List Char} (hs : Escaped cs ds) : Spoils cs .unclosedString
  | slash {cs ds : List Char} (hs : Escaped cs ds) : Spoils (cs ++ ['\\']) .unclosedString
  | feed {cs ds rest : List Char} (hs : Escaped cs ds) : Spoils (cs ++ '\n' :: rest) .unclosedString
  | escape {cs ds rest : List Char} {c : Char} (hs : Escaped cs ds) (hc : unescape? c = none) :
      Spoils (cs ++ '\\' :: c :: rest) (.unsupportedEscape c)

/-- A fault that a line has between two parts of it. -/
inductive Fault (before : List Char) : List Char → List Char → LexError → Prop
  | number {word after : List Char} {e : Overflow} (hw : WordAt before word after)
      (hn : Numeral.literal? word = some (.error e)) : Fault before word after .literalTooLarge
  | blank {c : Char} {after : List Char} (ho : Outside before) (hb : Text.isBlank c = true)
      (hs : isSeparator c = false) : Fault before [c] after .invalidSymbol
  | string {cs : List Char} {e : LexError} (ho : Outside before) (hs : Spoils cs e) :
      Fault before ('"' :: cs) [] e

/-- The first fault of a text, with tokens before it. -/
structure FirstFault (text before fault after : List Char) (e : LexError) : Prop where
  text_eq : text = before ++ fault ++ after
  readable : ∃ ws, Splits before ws
  fault : Fault before fault after e

variable {c : Char} {cs ds before fault after word rest seen text : List Char} {pos start n : Nat}
  {e : LexError} {t : Token} {us ws : List Spelling} {ps qs : List Piece} {err : AsmError}

/-! ## Columns -/

theorem Text.utf8ByteSize_ofList : (String.ofList cs).utf8ByteSize = utf8Size cs := by
  induction cs with
  | nil => rfl
  | cons c cs ih =>
      have hcons : String.ofList (c :: cs) = String.singleton c ++ String.ofList cs := by
        rw [← String.toList_inj]
        simp
      rw [hcons, String.utf8ByteSize_append, String.utf8ByteSize_singleton, ih]
      rfl

/-- The error of a line that has a fault in the columns of a text. -/
def LexError.inColumns (e : LexError) (n start : Nat) (text : List Char) : AsmError :=
  ⟨.lex e, n, ⟨start, start + Text.utf8Size text⟩⟩

theorem Line.collect_error {items : List Item} :
    collect n (⟨.error e, String.ofList cs, pos⟩ :: items) = .error (e.inColumns n pos cs) := by
  simp only [collect, Lexeme.span, Text.utf8ByteSize_ofList]
  rfl

/-! ## Strings -/

theorem scan_spoiled : scan (.spoiled start seen e) pos cs =
    [⟨.error e, String.ofList (seen.reverse ++ cs), start⟩] := by
  induction cs generalizing pos seen with
  | nil => simp [scan, Mode.finish, item]
  | cons c cs ih =>
      rw [scan_cons, show Mode.step pos c (.spoiled start seen e) =
        ([], .spoiled start (c :: seen) e) from rfl, List.nil_append, ih]
      simp

/-- A string that is not closed is one item, up to the end of the text. -/
theorem Spoils.scan (h : Spoils cs e) : Token.scan .between pos ('"' :: cs) =
    [⟨.error e, String.ofList ('"' :: cs), pos⟩] := by
  have hinside {as bs : List Char} (hs : Escaped as bs) (rest : List Char) :
      Token.scan .between pos ('"' :: (as ++ rest)) =
        Token.scan (.string pos ('"' :: as).reverse bs.reverse) (pos + Text.utf8Size ('"' :: as))
          rest := hs.reaches pos rest
  cases h with
  | ends hs =>
      have hend := hinside hs []
      rw [List.append_nil] at hend
      rw [hend]
      simp [Token.scan, Mode.finish, item]
  | slash hs =>
      rw [hinside hs _]
      simp [Token.scan, Mode.step, Mode.finish, item]
  | feed hs =>
      rw [hinside hs _, scan_cons]
      simp [Mode.step, scan_spoiled]
  | escape hs hc =>
      rw [hinside hs _, scan_cons]
      simp [scan_cons, Mode.step, hc, scan_spoiled]

theorem Spoils.plain (hc : c ≠ '"' ∧ c ≠ '\\' ∧ c ≠ '\n') (h : Spoils cs e) :
    Spoils (c :: cs) e := by
  cases h with
  | ends hs => exact .ends (.plain hc hs)
  | slash hs => exact .slash (.plain hc hs)
  | feed hs => exact .feed (.plain hc hs)
  | escape hs hd => exact .escape (.plain hc hs) hd

theorem Spoils.escaped {d : Char} (hc : unescape? c = some d) (h : Spoils cs e) :
    Spoils ('\\' :: c :: cs) e := by
  cases h with
  | ends hs => exact .ends (.escape hc hs)
  | slash hs => exact .slash (.escape hc hs)
  | feed hs => exact .feed (.escape hc hs)
  | escape hs hd => exact .escape (.escape hc hs) hd

/-- Text behind an opening quote closes the string, or there is something wrong with it. -/
theorem closes_or_spoils (cs : List Char) :
    (∃ as bs rest, Escaped as bs ∧ cs = as ++ '"' :: rest) ∨ ∃ e, Spoils cs e := by
  -- An escape takes two characters, so the induction is on the length.
  induction hn : cs.length using Nat.strongRecOn generalizing cs with
  | ind n ih =>
      obtain _ | ⟨c, cs⟩ := cs
      · exact .inr ⟨_, .ends .nil⟩
      rw [List.length_cons] at hn
      by_cases hquote : c = '"'
      · subst hquote
        exact .inl ⟨[], [], cs, .nil, rfl⟩
      by_cases hfeed : c = '\n'
      · subst hfeed
        exact .inr ⟨_, .feed .nil⟩
      by_cases hslash : c = '\\'
      · subst hslash
        obtain _ | ⟨d, cs⟩ := cs
        · exact .inr ⟨_, .slash .nil⟩
        rw [List.length_cons] at hn
        cases hd : unescape? d with
        | none => exact .inr ⟨_, .escape .nil hd⟩
        | some =>
            rcases ih cs.length (by omega) cs rfl with ⟨as, bs, rest, hs, rfl⟩ | ⟨e, h⟩
            · exact .inl ⟨_, _, rest, .escape hd hs, rfl⟩
            · exact .inr ⟨e, h.escaped hd⟩
      · have hc : c ≠ '"' ∧ c ≠ '\\' ∧ c ≠ '\n' := ⟨hquote, hslash, hfeed⟩
        rcases ih cs.length (by omega) cs rfl with ⟨as, bs, rest, hs, rfl⟩ | ⟨e, h⟩
        · exact .inl ⟨_, _, rest, .plain hc hs, rfl⟩
        · exact .inr ⟨e, h.plain hc⟩

/-! ## Runs -/

theorem ofRun_cases (run : List Char) :
    (∃ t, ofRun run = .ok t) ∨ ∃ o, Numeral.literal? run = some (.error o) := by
  unfold ofRun
  split
  · exact .inl ⟨_, rfl⟩
  · rename_i o hl
    exact .inr ⟨o, hl⟩
  · split
    · exact .inl ⟨_, rfl⟩
    · split
      · exact .inl ⟨_, rfl⟩
      · split <;> exact .inl ⟨_, rfl⟩

theorem ofRun_of_overflow {o : Overflow} (h : Numeral.literal? word = some (.error o)) :
    ofRun word = .error .literalTooLarge := by simp [ofRun, h]

/-! ## White space -/

/-- White space that separates nothing is an item of its own. -/
theorem scan_blank (hb : Text.isBlank c = true) (hs : isSeparator c = false) :
    scan .between pos (c :: rest) =
      ⟨.error .invalidSymbol, String.ofList [c], pos⟩ ::
        scan .between (pos + c.utf8Size) rest := by
  obtain ⟨hsemi, hquote⟩ := plain_of_isBlank hb
  have hopening : Mode.opening pos c = ([item pos [c] (.error .invalidSymbol)], .between) := by
    simp [Mode.opening, hs, hsemi, hquote, hb]
  rw [scan_cons, Mode.step, hopening]
  rfl

/-! ## Parts of a line -/

namespace Line

theorem collect_run (hne : word ≠ []) (hrun : ∀ c ∈ word, isRunChar c = true)
    (hstop : StopsRun rest) (ht : ofRun word = .ok t) :
    collect n (scan .between pos (word ++ rest)) =
      (collect n (scan .between (pos + Text.utf8Size word) rest)).map
        (⟨t, String.ofList word, pos⟩ :: ·) := by
  rw [scan_run hne hrun hstop, ht, collect_item (ne_comment_of_ofRun ht)]

theorem collect_string (hs : Escaped cs ds) :
    collect n (scan .between pos (inQuotes cs ++ rest)) =
      (collect n (scan .between (pos + Text.utf8Size (inQuotes cs)) rest)).map
        (⟨.string (String.ofList ds), String.ofList (inQuotes cs), pos⟩ :: ·) := by
  rw [scan_string hs, collect_item (by simp)]

/-- The pieces of a part of a line are in front of what is made of the rest. -/
theorem collect_part (h : collect n (scan .between pos before) = .ok qs) (ho : Outside before)
    (hp : Parted before rest) : collect n (scan .between pos (before ++ rest)) =
      (collect n (scan .between (pos + Text.utf8Size before) rest)).map (qs ++ ·) := by
  have hsplits := (splits_iff n pos).2 ⟨qs, h, rfl⟩
  generalize qs.map Piece.spelling = ws at hsplits
  have hmap {α : Type} {r : Except AsmError (List α)} : r.map ([] ++ ·) = r := by cases r <;> rfl
  induction hsplits generalizing pos qs with
  | nil =>
      cases h
      exact hmap.symm
  | separator hc _ ih =>
      rw [scan_separator hc] at h
      rw [List.cons_append, scan_separator hc, ih h ((outside_separator hc).1 ho) hp.of_cons,
        Nat.add_assoc]
      rfl
  | comment => exact absurd ho not_outside_comment
  | run hne hrun hstop ht _ ih =>
      rw [collect_run hne hrun hstop ht] at h
      obtain ⟨qs, hq, rfl⟩ := map_eq_ok.1 h
      rw [List.append_assoc, collect_run hne hrun (hp.stopsRun_append hne hrun hstop) ht,
        ih hq ((outside_run hrun).1 ho) hp.of_append, utf8Size_append, Nat.add_assoc]
      cases collect n _ <;> rfl
  | string hs _ ih =>
      rw [collect_string hs] at h
      obtain ⟨qs, hq, rfl⟩ := map_eq_ok.1 h
      rw [List.append_assoc, collect_string hs, ih hq ((outside_string hs).1 ho) hp.of_append,
        utf8Size_append, Nat.add_assoc]
      cases collect n _ <;> rfl

end Line

/-! ## The error of a line -/

theorem stopsRun_of_isBlank (hb : Text.isBlank c = true) : StopsRun (c :: rest) := by
  rintro _ ⟨⟩
  simp [isRunChar, hb]

theorem stopsRun_quote : StopsRun ('"' :: rest) := by
  rintro _ ⟨⟩
  decide

theorem Fault.outside (h : Fault before fault after e) : Outside before := by
  cases h with
  | number hw => exact hw.outside
  | blank ho | string ho => exact ho

theorem Fault.parted (h : Fault before fault after e) : Parted before (fault ++ after) := by
  cases h with
  | number hw => exact hw.parted
  | blank _ hb => exact parted_of_stopsRun (stopsRun_of_isBlank hb)
  | string => exact parted_of_stopsRun stopsRun_quote

theorem Fault.collect (h : Fault before fault after e) :
    Line.collect n (scan .between pos (fault ++ after)) = .error (e.inColumns n pos fault) := by
  cases h with
  | number hw hn =>
      rw [scan_run hw.ne_nil hw.run hw.stops, ofRun_of_overflow hn, Line.collect_error]
  | blank ho hb hs => rw [List.singleton_append, scan_blank hb hs, Line.collect_error]
  | string ho hs =>
      rw [List.append_nil, hs.scan, Line.collect_error]

/-- The error of a line is its first fault. -/
theorem FirstFault.read (h : FirstFault text before fault after e) (n : Nat) :
    Line.read n text = .error (e.inColumns n (Text.utf8Size before) fault) := by
  obtain ⟨rfl, ⟨ws, hws⟩, hf⟩ := h
  obtain ⟨qs, hq, -⟩ := hws.collect n 0
  rw [Line.read, lex, List.append_assoc, Line.collect_part hq hf.outside hf.parted, hf.collect,
    Nat.zero_add]
  rfl

/-! ## Every line is read or faulty -/

theorem splits_run (hne : word ≠ []) (hrun : ∀ c ∈ word, isRunChar c = true)
    (ht : ofRun word = .ok t) : Splits word [(t, String.ofList word)] := by
  have := Splits.run hne hrun (show StopsRun [] from nofun) ht .nil
  rwa [List.append_nil] at this

theorem splits_string (hs : Escaped cs ds) :
    Splits (inQuotes cs) [(.string (String.ofList ds), String.ofList (inQuotes cs))] := by
  have := Splits.string hs .nil
  rwa [List.append_nil] at this

theorem Parted.left (h : Parted before (cs ++ ds)) : Parted before cs := fun c hc hrun =>
  (h c hc hrun).of_append

theorem parted_concat (hc : isRunChar c = false) : Parted (seen ++ [c]) rest := fun d hd hrun => by
  rw [List.getLast?_concat] at hd
  cases hd
  cases hrun.symm.trans hc

theorem parted_inQuotes : Parted (seen ++ inQuotes cs) rest := by
  rw [inQuotes, ← List.append_assoc]
  exact parted_concat (by decide)

/-- A word does not go on a run of the text before it. -/
theorem Parted.starts (h : Parted before (word ++ after)) (hne : word ≠ [])
    (hrun : ∀ c ∈ word, isRunChar c = true) : ∀ c ∈ before.getLast?, isRunChar c = false := by
  intro c hc
  obtain ⟨d, word, rfl⟩ := List.exists_cons_of_ne_nil hne
  by_contra hgo
  cases (hrun d (.head _)).symm.trans (h c hc (by simpa using hgo) d rfl)

theorem WordAt.behind (h : WordAt before word after) (ho : Outside seen)
    (hp : Parted seen (before ++ word ++ after)) : WordAt (seen ++ before) word after where
  outside := by rw [Outside, Context.after_append, ho, h.outside]
  starts := by
    cases before with
    | nil =>
        rw [List.nil_append] at hp
        rw [List.append_nil]
        exact hp.starts h.ne_nil h.run
    | cons c before =>
        rw [List.getLast?_append_of_ne_nil _ (by simp)]
        exact h.starts
  ne_nil := h.ne_nil
  run := h.run
  stops := h.stops

theorem Outside.append (ho : Outside seen) (ho' : Outside before) : Outside (seen ++ before) := by
  rw [Outside, Context.after_append, ho, ho']

theorem Fault.behind (h : Fault before fault after e) (ho : Outside seen)
    (hp : Parted seen (before ++ fault ++ after)) : Fault (seen ++ before) fault after e := by
  cases h with
  | number hw hn => exact .number (hw.behind ho hp) hn
  | blank ho' hb hs => exact .blank (ho.append ho') hb hs
  | string ho' hs => exact .string (ho.append ho') hs

theorem FirstFault.behind (h : FirstFault rest before fault after e) (hs : Splits seen us)
    (ho : Outside seen) (hp : Parted seen rest) :
    FirstFault (seen ++ rest) (seen ++ before) fault after e := by
  obtain ⟨rfl, ⟨ws, hws⟩, hf⟩ := h
  refine ⟨by simp, ⟨_, hs.join hws ho ?_⟩, hf.behind ho hp⟩
  rw [List.append_assoc] at hp
  exact hp.left

/-- What a character between tokens is. -/
theorem char_cases (c : Char) : isSeparator c = true ∨ c = ';' ∨ c = '"' ∨ isRunChar c = true ∨
    Text.isBlank c = true ∧ isSeparator c = false := by
  by_cases hs : isSeparator c = true
  · exact .inl hs
  by_cases hsemi : c = ';'
  · exact .inr (.inl hsemi)
  by_cases hquote : c = '"'
  · exact .inr (.inr (.inl hquote))
  by_cases hb : Text.isBlank c = true
  · exact .inr (.inr (.inr (.inr ⟨hb, by simpa using hs⟩)))
  · have hcomma : c ≠ ',' := fun hc => hs (by simp [isSeparator, hc])
    exact .inr (.inr (.inr (.inl (by simp [isRunChar, hb, hcomma, hsemi, hquote]))))

/-- A text is cut where a property ends to hold. -/
theorem exists_while (r : Char → Bool) (cs : List Char) :
    ∃ as bs, cs = as ++ bs ∧ (∀ c ∈ as, r c = true) ∧ ∀ c ∈ bs.head?, r c = false := by
  refine ⟨cs.takeWhile r, cs.dropWhile r, List.takeWhile_append_dropWhile.symm,
    fun c => List.mem_takeWhile_imp, fun c hc => ?_⟩
  have := List.head?_dropWhile_not r cs
  rw [Option.mem_def] at hc
  rw [hc] at this
  simpa using this

/-- A run of characters, up to one that is not of a run. -/
theorem exists_run (rest : List Char) (hc : isRunChar c = true) :
    ∃ run rest', c :: rest = run ++ rest' ∧ run ≠ [] ∧ (∀ d ∈ run, isRunChar d = true) ∧
      StopsRun rest' := by
  obtain ⟨run, rest', htext, hrun, hstop⟩ := exists_while isRunChar (c :: rest)
  refine ⟨run, rest', htext, ?_, hrun, hstop⟩
  rintro rfl
  rw [List.nil_append] at htext
  cases hc.symm.trans (hstop c (by rw [← htext]; rfl))

/-- A line has tokens or a first fault. -/
theorem splits_or_faulty (text : List Char) (hf : '\n' ∉ text) :
    (∃ ws, Splits text ws) ∨ ∃ before fault after e, FirstFault text before fault after e := by
  -- What is between two tokens is taken off in front, so the induction is on the length.
  induction hn : text.length using Nat.strongRecOn generalizing text with
  | ind n ih =>
      have hbehind (seen rest : List Char) {us : List Spelling} (htext : text = seen ++ rest)
          (hne : seen ≠ []) (hs : Splits seen us) (ho : Outside seen) (hp : Parted seen rest) :
          (∃ ws, Splits text ws) ∨
            ∃ before fault after e, FirstFault text before fault after e := by
        subst htext
        have hlt : rest.length < n := by
          have := List.length_pos_of_ne_nil hne
          rw [List.length_append] at hn
          omega
        rcases ih _ hlt rest (fun h => hf (List.mem_append_right _ h)) rfl with
          ⟨ws, hws⟩ | ⟨before, fault, after, e, h⟩
        · exact .inl ⟨_, hs.join hws ho hp⟩
        · exact .inr ⟨_, _, _, _, h.behind hs ho hp⟩
      obtain _ | ⟨c, rest⟩ := text
      · exact .inl ⟨_, .nil⟩
      rcases char_cases c with hc | rfl | rfl | hc | ⟨hb, hc⟩
      · have hsep : Separators [c] := by simpa [Separators] using hc
        have hparted : Parted ([] ++ [c]) rest := parted_concat (not_isRunChar_of_isSeparator hc)
        exact hbehind [c] rest rfl (by simp) (splits_only_separators hsep)
          (Context.next_of_isSeparator hc) hparted
      · exact .inl ⟨_, .comment fun h => hf (.tail _ h)⟩
      · rcases closes_or_spoils rest with ⟨as, bs, rest, hs, rfl⟩ | ⟨e, h⟩
        · have hparted : Parted ([] ++ inQuotes as) rest := parted_inQuotes
          exact hbehind (inQuotes as) rest (by simp [inQuotes]) (by simp [inQuotes])
            (splits_string hs) (Context.after_inQuotes hs) hparted
        · exact .inr ⟨[], _, [], e, by simp, ⟨_, .nil⟩, .string rfl h⟩
      · obtain ⟨run, rest', htext, hne, hall, hstop⟩ := exists_run rest hc
        rcases ofRun_cases run with ⟨t, ht⟩ | ⟨o, hl⟩
        · exact hbehind _ _ htext hne (splits_run hne hall ht) (Context.after_of_isRunChar hall)
            (parted_of_stopsRun hstop)
        · have hw : WordAt [] run rest' := ⟨rfl, by simp, hne, hall, hstop⟩
          exact .inr ⟨[], run, rest', _, htext, ⟨_, .nil⟩, .number hw hl⟩
      · exact .inr ⟨[], [c], rest, _, rfl, ⟨_, .nil⟩, .blank rfl hb hc⟩

/-- The error of a line is its first fault, in its columns. -/
theorem Line.read_eq_error_iff (hf : '\n' ∉ text) : Line.read n text = .error err ↔
    ∃ before fault after e, FirstFault text before fault after e ∧
      err = e.inColumns n (Text.utf8Size before) fault := by
  constructor
  · intro h
    rcases splits_or_faulty text hf with ⟨ws, hws⟩ | ⟨before, fault, after, e, hfault⟩
    · obtain ⟨l, hl, -⟩ := Line.read_of_splits hws n
      cases hl.symm.trans h
    · cases h.symm.trans (hfault.read n)
      exact ⟨before, fault, after, e, hfault, rfl⟩
  · rintro ⟨before, fault, after, e, hfault, rfl⟩
    exact hfault.read n

/-! ## Reading bytes -/

theorem Token.exists_of_isLost {i : Item} {rest : List Item} (h : isLost i rest = true) :
    ∃ t blank start rest', i.value = .ok t ∧ t ≠ .comment ∧
      rest = ⟨.error .invalidSymbol, blank, start⟩ :: rest' := by
  unfold isLost at h
  split at h
  · rename_i blank start rest
    cases hv : i.value with
    | error => simp [hv, Except.toOption] at h
    | ok t =>
        refine ⟨t, blank, start, rest, rfl, ?_, rfl⟩
        rintro rfl
        simp [hv, Except.toOption, isMistakable] at h
  · cases h

/-- What is lost when a text is read byte by byte is not seen of a line. -/
theorem Line.collect_byBytes (n : Nat) (items : List Item) :
    collect n (byBytes items) = collect n items := by
  induction items with
  | nil => rfl
  | cons i rest ih =>
      obtain ⟨value, text, start⟩ := i
      rw [byBytes]
      split
      · rename_i h
        obtain ⟨t, blank, start', rest, rfl, hne, rfl⟩ := exists_of_isLost h
        rw [collect_item (by simp), collect_item hne, ih]
        rfl
      · cases value with
        | error e => rfl
        | ok t =>
            by_cases ht : t = .comment
            · subst ht
              exact ih
            · rw [collect_item ht, collect_item ht, ih]

end Lc3
