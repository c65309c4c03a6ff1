import Lc3.Proofs.Literals

/-!
# Strings from their escapes to their words

A string is written between quotes with two characters for each of five. Main statement: a
`.STRINGZ` line with a string that is written so is read as that string and assembled to its UTF-16
units; and a string that is not closed, or has another escape, is the error of its line.
-/

namespace Lc3

open Token

/-- How a character is written between quotes. -/
def Text.escape : Char → List Char
  | '\x00' => ['\\', '0']
  | '\n' => ['\\', 'n']
  | '\r' => ['\\', 'r']
  | '"' => ['\\', '"']
  | '\\' => ['\\', '\\']
  | c => [c]

/-- How a string is written between quotes. -/
def Text.escaped (s : String) : List Char := s.toList.flatMap escape

variable {c : Char} {body cs ds rest tail text word : List Char} {e : LexError} {n : Nat}
  {s : String} {t : Token}

/-! ## Escapes -/

theorem Text.escaped_escape (c : Char) : Escaped (escape c) [c] := by
  unfold escape
  split
  case h_6 hnul hfeed hreturn hquote hslash => exact .plain ⟨hquote, hslash, hfeed⟩ .nil
  all_goals exact .escape rfl .nil

theorem Text.escaped_flatMap : Escaped (cs.flatMap escape) cs := by
  induction cs with
  | nil => exact .nil
  | cons c cs ih => exact (escaped_escape c).append ih

/-- A string is what its escapes stand for. -/
theorem Text.escaped_escaped (s : String) : Escaped (escaped s) s.toList := escaped_flatMap

theorem Escaped.not_feed (h : Escaped cs ds) : '\n' ∉ cs := by
  induction h with
  | nil => simp
  | plain hc _ ih => simpa [ih] using Ne.symm hc.2.2
  | @escape c d cs ds hc _ ih =>
      have hfeed : c ≠ '\n' := by
        rintro rfl
        cases hc
      simpa [ih] using Ne.symm hfeed

theorem Text.feed_not_mem_escaped : '\n' ∉ ".STRINGZ ".toList ++ inQuotes (escaped s) := by
  have hname : '\n' ∉ ".STRINGZ ".toList := by decide
  have hbody := (escaped_escaped s).not_feed
  rw [List.mem_append, inQuotes]
  rintro (h | h)
  · exact hname h
  · exact hbody (by simpa using h)

/-! ## The line -/

theorem Line.collect_blank (hb : Blank text) (hf : '\n' ∉ text) (pos : Nat) :
    collect n (scan .between pos text) = .ok [] := by
  obtain ⟨ps, hps, hnil⟩ := (hb.splits hf).collect n pos
  obtain rfl := List.map_eq_nil_iff.1 hnil
  exact hps

/-- The pieces of the line of a string. -/
def stringPieces (s : String) : List Piece :=
  [⟨.directive "STRINGZ", ".STRINGZ", 0⟩,
    ⟨.string s, String.ofList (inQuotes (Text.escaped s)), ".STRINGZ ".utf8ByteSize⟩]

/-- A line that starts with a word and a blank. -/
theorem Line.read_word (hne : word ≠ []) (hrun : ∀ c ∈ word, isRunChar c = true)
    (ht : ofRun word = .ok t) : read n (word ++ [' '] ++ rest) =
      (collect n (scan .between (Text.utf8Size word + 1) rest)).map
        fun ps => ⟨n, ⟨t, String.ofList word, 0⟩ :: ps⟩ := by
  have hstop : StopsRun (' ' :: rest) := by
    rintro _ ⟨⟩
    decide
  rw [read, lex, List.append_assoc, List.singleton_append, collect_run hne hrun hstop ht,
    scan_separator (by decide), Nat.zero_add]
  change (Except.map _ (collect n (scan .between (Text.utf8Size word + 1) rest))).map _ = _
  cases collect n (scan .between (Text.utf8Size word + 1) rest) <;> rfl

theorem Line.read_stringLine (hb : Blank tail) (hf : '\n' ∉ tail) :
    read n (".STRINGZ ".toList ++ inQuotes (Text.escaped s) ++ tail) =
      .ok ⟨n, stringPieces s⟩ := by
  have hname : ".STRINGZ ".toList = ".STRINGZ".toList ++ [' '] := by decide
  have ht : ofRun ".STRINGZ".toList = .ok (.directive "STRINGZ") := by decide
  rw [hname, List.append_assoc, read_word (by decide) (List.all_eq_true.1 (by decide)) ht,
    collect_string (Text.escaped_escaped s), collect_blank hb hf, String.ofList_toList,
    String.ofList_toList]
  rfl

/-- A string is not both closed and spoiled. -/
theorem Spoils.not_closes (h : Spoils body e) (hs : Escaped cs ds) : body ≠ cs ++ '"' :: rest := by
  rintro rfl
  have hquotes : '"' :: (cs ++ '"' :: rest) = inQuotes cs ++ rest := by simp [inQuotes]
  have hscan : Token.scan .between 0 _ = _ := h.scan
  rw [hquotes, scan_string hs] at hscan
  cases hscan

theorem Spoils.read (h : Spoils body e) : Line.read n (".STRINGZ \"".toList ++ body) =
    .error (e.inColumns n ".STRINGZ ".utf8ByteSize ('"' :: body)) := by
  have hread : Line.read 1 ".STRINGZ ".toList =
      .ok ⟨1, [⟨.directive "STRINGZ", ".STRINGZ", 0⟩]⟩ := by decide
  have hfault : Fault ".STRINGZ ".toList ('"' :: body) [] e := .string (by decide) h
  exact FirstFault.read ⟨by simp, ⟨_, Line.splits_of_read hread⟩, hfault⟩ n

/-! ## The program -/

theorem Text.lines_append_return (hf : '\n' ∉ text) :
    lines (text ++ '\r' :: '\n' :: rest) = text :: lines rest := by
  induction text with
  | nil => simp [lines]
  | cons c text ih =>
      have hc : c ≠ '\n' := fun h => hf (h ▸ .head _)
      have hreturn : ∀ more, c = '\r' → text ++ '\r' :: '\n' :: rest = '\n' :: more → False := by
        rintro more - hl
        cases text with
        | nil => cases hl
        | cons d text =>
            cases hl
            exact hf (.tail _ (.head _))
      rw [List.cons_append, lines.eq_4 _ _ (by simpa using hc) (by simpa using hreturn),
        ih fun h => hf (.tail _ h)]

theorem Blank.of_return (h : Blank text) (htext : text = tail ++ ['\r']) : Blank tail := by
  obtain ⟨hs, hr⟩ := h
  cases hr with
  | none =>
      rw [List.append_nil] at htext
      have := hs '\r' (by simp [htext])
      exact absurd this (by decide)
  | comment cs =>
      obtain rfl | ⟨cs, c, rfl⟩ := cs.eq_nil_or_concat'
      · have := (List.append_inj' htext rfl).2
        cases this
      · rw [← List.cons_append, ← List.append_assoc] at htext
        obtain ⟨rfl, -⟩ := List.append_inj' htext rfl
        exact .mk hs (.comment cs)

/-- A line that ends in a comment can lose a carriage return at its end, but no token. -/
theorem Text.exists_lines (rest : List Char) (hb : Blank tail) (hf : '\n' ∉ tail)
    (hf' : '\n' ∉ text) (hlast : text.getLast? ≠ some '\r') : ∃ tail', Blank tail' ∧ '\n' ∉ tail' ∧
      lines (text ++ tail ++ '\n' :: rest) = (text ++ tail') :: lines rest := by
  by_cases hr : tail.getLast? = some '\r'
  · obtain ⟨tail', rfl⟩ := List.getLast?_eq_some_iff.1 hr
    have hfeed : '\n' ∉ tail' := fun h => hf (List.mem_append_left _ h)
    refine ⟨tail', hb.of_return rfl, hfeed, ?_⟩
    rw [← List.append_assoc, List.append_assoc _ ['\r']]
    exact lines_append_return (by simp [hf', hfeed])
  · refine ⟨tail, hb, hf, lines_append_feed (by simp [hf', hf]) ?_⟩
    cases tail with
    | nil => rwa [List.append_nil]
    | cons c tail => rwa [List.getLast?_append_of_ne_nil _ (by simp)]

variable {num : List Char} {orig : Word}

theorem Text.lines_header (hd : Numeral.Denotes num orig.toNat) :
    lines (".ORIG ".toList ++ num ++ '\n' :: rest) = (".ORIG ".toList ++ num) :: lines rest := by
  have hfeed : '\n' ∉ num := fun h => by
    have := hd.isRunChar _ h
    exact absurd this (by decide)
  have hname : '\n' ∉ ".ORIG ".toList := by decide
  refine lines_append_feed ?_ ?_
  · rw [List.mem_append]
    rintro (h | h)
    · exact hname h
    · exact hfeed h
  · rw [List.getLast?_append_of_ne_nil _ hd.ne_nil]
    intro h
    have := hd.isRunChar _ (List.mem_of_getLast? h)
    exact absurd this (by decide)

/-- The line of an origin. -/
def headerLine (num : List Char) (orig : Word) : Line :=
  ⟨1, [⟨.directive "ORIG", ".ORIG", 0⟩, ⟨.literal orig.toNat, String.ofList num, 6⟩]⟩

theorem Line.read_header (hd : Numeral.Denotes num orig.toNat) :
    read 1 (".ORIG ".toList ++ num) = .ok (headerLine num orig) := by
  have hname : ".ORIG ".toList = ".ORIG".toList ++ [' '] := by decide
  have ht : ofRun ".ORIG".toList = .ok (.directive "ORIG") := by decide
  have hnum : ofRun num = .ok (.literal orig.toNat) := by
    have := orig.isLt
    exact hd.ofRun ⟨by omega, by omega⟩
  have hcollect (pos : Nat) : collect 1 (scan .between pos num) =
      .ok [⟨.literal orig.toNat, String.ofList num, pos⟩] := by
    have : collect 1 (scan .between pos (num ++ [])) = _ :=
      collect_run hd.ne_nil hd.isRunChar (show StopsRun [] from nofun) hnum
    rwa [List.append_nil] at this
  rw [hname, read_word (by decide) (List.all_eq_true.1 (by decide)) ht, hcollect,
    String.ofList_toList]
  rfl

theorem Stmt.read_stringLine :
    Stmt.read ⟨n, stringPieces s⟩ = .ok (some ⟨none, some (.directive (.string s)), n⟩) := by
  have hkey : Text.upper "STRINGZ" = "STRINGZ" := by decide
  have hread : ReadAs (stringPieces s) (.ok (.directive (.string s))) :=
    ⟨_, _, rfl, by simp [isCommand, hkey, Directive.names], Command.read_eq_ok.2
      (.inr ⟨"STRINGZ", .string s, rfl, Directive.read_string hkey rfl, rfl⟩)⟩
  exact Stmt.read_of_readAs hread rfl

/-- The line of an end. -/
def footerLine : Line := ⟨3, [⟨.directive "END", ".END", 0⟩]⟩

theorem Origin.find_cons {f q : Piece} {ls : List Line} (hf : isOrigin f = true)
    (hq : address [q] = .ok orig) : find (⟨n, [f, q]⟩ :: ls) = .ok ⟨orig, 1⟩ := by
  simp [find, findFrom, Line.isEmpty, operands, hf, Bind.bind, Except.bind, hq]

theorem Origin.find_header {ls : List Line} : find (headerLine num orig :: ls) = .ok ⟨orig, 1⟩ := by
  have hrange : (orig.toNat : Int) ≤ 65535 := by
    have := orig.isLt
    omega
  refine find_cons (by decide) ?_
  rw [address_literal rfl, if_pos ⟨Int.natCast_nonneg _, hrange⟩, BitVec.ofInt_natCast,
    BitVec.ofNat_toNat, BitVec.setWidth_eq]

theorem Stmt.readAll_string : readAll [⟨2, stringPieces s⟩, footerLine] =
    .ok [⟨none, some (.directive (.string s)), 2⟩, ⟨none, some (.directive .finish), 3⟩] := by
  have hfinish : Stmt.read footerLine = .ok (some ⟨none, some (.directive .finish), 3⟩) := by
    decide
  simp [readAll, read_stringLine, hfinish, isEnd, Bind.bind, Except.bind, pure, Except.pure]

/-- The program of one line. -/
def Program.ofLine (num text : List Char) : String :=
  String.ofList (".ORIG ".toList ++ num ++ '\n' :: (text ++ '\n' :: ".END".toList))

theorem Program.toList_ofLine : (ofLine num text).toList =
    ".ORIG ".toList ++ num ++ '\n' :: (text ++ '\n' :: ".END".toList) := String.toList_ofList

theorem Program.read_string (hb : Blank tail) (hf : '\n' ∉ tail)
    (hd : Numeral.Denotes num orig.toNat) :
    read (ofLine num (".STRINGZ ".toList ++ inQuotes (Text.escaped s) ++ tail)) =
      .ok ⟨orig, [⟨none, some (.directive (.string s)), 2⟩,
        ⟨none, some (.directive .finish), 3⟩]⟩ := by
  have hlast : (".STRINGZ ".toList ++ inQuotes (Text.escaped s)).getLast? ≠ some '\r' := by
    rw [inQuotes, ← List.append_assoc, List.getLast?_concat]
    decide
  obtain ⟨tail', hb', hf', hlines⟩ :=
    Text.exists_lines ".END".toList hb hf Text.feed_not_mem_escaped hlast
  have hend : Text.lines ".END".toList = [".END".toList] := by decide
  have htexts : Text.lines (ofLine num
      (".STRINGZ ".toList ++ inQuotes (Text.escaped s) ++ tail)).toList =
        [".ORIG ".toList ++ num,
          ".STRINGZ ".toList ++ inQuotes (Text.escaped s) ++ tail', ".END".toList] := by
    rw [toList_ofLine, Text.lines_header hd, hlines, hend]
  have hlines : Line.readAll (ofLine num
      (".STRINGZ ".toList ++ inQuotes (Text.escaped s) ++ tail)) =
        .ok [headerLine num orig, ⟨2, stringPieces s⟩, footerLine] := by
    have hlast : Line.read 3 ".END".toList = .ok footerLine := by decide
    simp only [Line.readAll, htexts, Line.readFrom, Line.read_header hd,
      Line.read_stringLine hb' hf', hlast, Bind.bind, Except.bind, pure, Except.pure]
  exact read_eq_ok.2 ⟨_, _, hlines, Origin.find_header, Stmt.readAll_string, rfl⟩

theorem ObjectFile.ofProgram_string (h : orig.toNat + (Text.utf16 s).length + 1 ≤ memorySize) :
    ofProgram ⟨orig, [⟨none, some (.directive (.string s)), 2⟩,
      ⟨none, some (.directive .finish), 3⟩]⟩ = .ok ⟨orig, Text.utf16 s ++ [0], .empty⟩ := by
  have hcheck : ¬ orig.toNat + ((Text.utf16 s).length + 1) > memorySize := by omega
  simp [ofProgram, Layout.ofStmts, Layout.walk, Layout.bind, Layout.check, hcheck, ofStmts,
    Stmt.allWords, Stmt.words, Stmt.isEnd, Stmt.size, Command.size, Directive.size, Command.words,
    Directive.words, Bind.bind, Except.bind, Except.mapError, pure, Except.pure]

/-- A string that is written with its escapes, and then only separators and a comment. The line is
read as `.STRINGZ` and the string, in the columns of its quotes, and assembled to the UTF-16 units
of the string and a zero. Whatever else follows an opening quote closes a string or is an error: the
first of a missing quote and an escape that means nothing. -/
theorem ObjectFile.assemble_string (hb : Blank tail) (hf : '\n' ∉ tail) :
    (∀ n, Line.read n (".STRINGZ ".toList ++ inQuotes (Text.escaped s) ++ tail) =
      .ok ⟨n, stringPieces s⟩) ∧
    (∀ (num : List Char) (orig : Word), Numeral.Denotes num orig.toNat →
      orig.toNat + (Text.utf16 s).length + 1 ≤ memorySize →
        assemble (Program.ofLine num
          (".STRINGZ ".toList ++ inQuotes (Text.escaped s) ++ tail)) =
            .ok ⟨orig, Text.utf16 s ++ [0], .empty⟩) ∧
    ∀ body : List Char,
      ((∃ cs ds rest, Escaped cs ds ∧ body = cs ++ '"' :: rest) ↔ ∀ e, ¬ Spoils body e) ∧
        ∀ e, Spoils body e → ∀ n, Line.read n (".STRINGZ \"".toList ++ body) =
          .error (e.inColumns n ".STRINGZ ".utf8ByteSize ('"' :: body)) := by
  refine ⟨fun n => Line.read_stringLine hb hf, fun num orig hd hfits => ?_,
    fun body => ⟨⟨?_, fun hnone => ?_⟩, fun e h n => h.read⟩⟩
  · exact (assemble_eq_ok (Program.read_string hb hf hd)).2 (ofProgram_string hfits)
  · rintro ⟨cs, ds, rest, hs, hbody⟩ e h
    exact h.not_closes hs hbody
  · exact (closes_or_spoils body).resolve_right fun ⟨e, h⟩ => hnone e h

/-- Six characters that go up to the end of memory. -/
theorem ObjectFile.assemble_string_to_end :
    let line := ".STRINGZ \"\\\\\\\"\\0;\\n😀\" ;\"".toList
    assemble (Program.ofLine "xFFF8".toList line) =
      .ok ⟨0xFFF8, [0x5C, 0x22, 0, 0x3B, 0xA, 0xD83D, 0xDE00, 0], .empty⟩ ∧
    Line.read 1 ".STRINGZ \"\\q\"".toList = .error ⟨.lex (.unsupportedEscape 'q'), 1, ⟨9, 13⟩⟩ := by
  have hb : Blank " ;\"".toList := .mk (show Separators [' '] by decide) (.comment _)
  obtain ⟨-, hwords, hclosed⟩ := assemble_string (s := "\\\"\x00;\n😀") hb (by decide)
  exact ⟨hwords _ 0xFFF8 (Numeral.denotes_of_literal? (by decide)) (by decide),
    (hclosed _).2 _ (.escape .nil rfl) 1⟩

end Lc3
