import Lc3.Proofs.Lines

/-!
# How a line is split

Runs, strings and a comment at the end, with separators around them: that is a line without a fault.
Main statements: a text is read as some tokens exactly if it is split into them, wherever it stands;
so every token that was ever read is spelled by its own text.
-/

namespace Lc3

open Token

/-- A token and the text that it was read from. -/
abbrev Spelling := Token × String

/-- A piece without its column. -/
def Piece.spelling (p : Piece) : Spelling := (p.value, p.text)

/-- What stands between quotes, and what it stands for. -/
inductive Escaped : List Char → List Char → Prop
  | nil : Escaped [] []
  | plain {c : Char} {cs ds : List Char} (hc : c ≠ '"' ∧ c ≠ '\\' ∧ c ≠ '\n') (h : Escaped cs ds) :
      Escaped (c :: cs) (c :: ds)
  | escape {c d : Char} {cs ds : List Char} (hc : unescape? c = some d) (h : Escaped cs ds) :
      Escaped ('\\' :: c :: cs) (d :: ds)

/-- A string with its quotes. -/
def inQuotes (cs : List Char) : List Char := '"' :: cs ++ ['"']

/-- What may follow a run: nothing, or a character that is not of a run. -/
def Token.StopsRun (rest : List Char) : Prop := ∀ c ∈ rest.head?, isRunChar c = false

/-- A text without a fault, and its tokens. -/
inductive Splits : List Char → List Spelling → Prop
  | nil : Splits [] []
  | separator {c : Char} {rest : List Char} {ws : List Spelling} (hc : isSeparator c = true)
      (h : Splits rest ws) : Splits (c :: rest) ws
  | comment {rest : List Char} (hf : '\n' ∉ rest) : Splits (';' :: rest) []
  | run {run rest : List Char} {t : Token} {ws : List Spelling} (hne : run ≠ [])
      (hrun : ∀ c ∈ run, isRunChar c = true) (hstop : StopsRun rest) (ht : ofRun run = .ok t)
      (h : Splits rest ws) : Splits (run ++ rest) ((t, String.ofList run) :: ws)
  | string {cs ds rest : List Char} {ws : List Spelling} (hs : Escaped cs ds)
      (h : Splits rest ws) :
      Splits (inQuotes cs ++ rest)
        ((.string (String.ofList ds), String.ofList (inQuotes cs)) :: ws)

variable {c : Char} {cs ds rest run seen contents : List Char} {pos start n : Nat} {t : Token}
  {ws : List Spelling} {ps : List Piece} {mode : Mode}

/-! ## What is split is read -/

theorem scan_comment (hf : '\n' ∉ cs) (hstop : ∀ c ∈ rest.head?, c = '\n') :
    scan (.comment start seen) pos (cs ++ rest) = item start (cs.reverse ++ seen) (.ok .comment) ::
      scan .between (pos + Text.utf8Size cs) rest := by
  induction cs generalizing pos seen with
  | nil =>
      cases rest with
      | nil => rfl
      | cons c rest =>
          obtain rfl := hstop c rfl
          rfl
  | cons c cs ih =>
      have hc : c ≠ '\n' := fun h => hf (h ▸ .head _)
      have hstep : Mode.step pos c (.comment start seen) = ([], .comment start (c :: seen)) := by
        simp [Mode.step, hc]
      rw [List.cons_append, scan_cons, hstep, List.nil_append, ih fun h => hf (.tail _ h)]
      simp [Nat.add_assoc]

theorem scan_run (hne : run ≠ []) (hrun : ∀ c ∈ run, isRunChar c = true)
    (hstop : StopsRun rest) : scan .between pos (run ++ rest) =
      ⟨ofRun run, String.ofList run, pos⟩ :: scan .between (pos + Text.utf8Size run) rest := by
  rw [reaches_run hne hrun]
  cases rest with
  | nil => simp [scan, Mode.finish, item]
  | cons c rest =>
      have hc : isRunChar c = false := hstop c rfl
      simp [scan, Mode.step, hc, item]

theorem Token.Reaches.append_escaped {pre : List Char} (hs : Escaped cs ds)
    (h : Reaches pre fun pos => .string pos pre.reverse contents) :
    Reaches (pre ++ cs) fun pos => .string pos (pre ++ cs).reverse (ds.reverse ++ contents) := by
  induction hs generalizing pre contents with
  | nil => simpa using h
  | @plain c cs ds hc hs ih =>
      obtain ⟨hquote, hslash, hfeed⟩ := hc
      have hstep : Reaches (pre ++ [c]) fun pos =>
          .string pos (pre ++ [c]).reverse (c :: contents) :=
        h.step fun start pos => by simp [Mode.step, hquote, hslash, hfeed]
      have := ih hstep
      simpa using this
  | @escape c d cs ds hc hs ih =>
      have hslash : Reaches (pre ++ ['\\']) fun pos =>
          .escape pos (pre ++ ['\\']).reverse contents :=
        h.step fun start pos => by simp [Mode.step]
      have hstep : Reaches (pre ++ ['\\'] ++ [c]) fun pos =>
          .string pos (pre ++ ['\\'] ++ [c]).reverse (d :: contents) :=
        hslash.step fun start pos => by simp [Mode.step, hc]
      have := ih hstep
      simpa using this

theorem Escaped.reaches (h : Escaped cs ds) :
    Reaches (['"'] ++ cs) fun pos => .string pos (['"'] ++ cs).reverse ds.reverse := by
  have hopen : Reaches ['"'] fun pos => .string pos ['"'].reverse [] :=
    reaches_of_opening fun pos => rfl
  have := hopen.append_escaped h
  rwa [List.append_nil] at this

theorem utf8Size_inQuotes :
    Text.utf8Size (inQuotes cs) = Text.utf8Size (['"'] ++ cs) + '"'.utf8Size := by
  have hsplit : inQuotes cs = ['"'] ++ cs ++ ['"'] := rfl
  rw [hsplit, utf8Size_append]
  rfl

theorem scan_string (hs : Escaped cs ds) : scan .between pos (inQuotes cs ++ rest) =
    ⟨.ok (.string (String.ofList ds)), String.ofList (inQuotes cs), pos⟩ ::
      scan .between (pos + Text.utf8Size (inQuotes cs)) rest := by
  have hsplit : inQuotes cs ++ rest = ['"'] ++ cs ++ '"' :: rest := by simp [inQuotes]
  rw [hsplit, hs.reaches, scan_cons, utf8Size_inQuotes, ← Nat.add_assoc]
  simp [Mode.step, item, inQuotes]

theorem Splits.collect (h : Splits cs ws) (n pos : Nat) :
    ∃ ps, Line.collect n (scan .between pos cs) = .ok ps ∧ ps.map Piece.spelling = ws := by
  induction h generalizing pos with
  | nil => exact ⟨[], rfl, rfl⟩
  | separator hc _ ih =>
      rw [scan_separator hc]
      exact ih _
  | @comment rest hf =>
      have hend : ∀ c ∈ ([] : List Char).head?, c = '\n' := nofun
      refine ⟨[], ?_, rfl⟩
      rw [scan_cons, show Mode.step pos ';' .between = ([], .comment pos [';']) from rfl,
        List.nil_append, ← List.append_nil rest, scan_comment hf hend]
      rfl
  | @run run rest t ws hne hrun hstop ht h ih =>
      obtain ⟨ps, hps, hws⟩ := ih (pos + Text.utf8Size run)
      refine ⟨⟨t, String.ofList run, pos⟩ :: ps, ?_, by simp [Piece.spelling, hws]⟩
      rw [scan_run hne hrun hstop, ht, collect_item (ne_comment_of_ofRun ht), hps]
      rfl
  | @string cs ds rest ws hs h ih =>
      obtain ⟨ps, hps, hws⟩ := ih (pos + Text.utf8Size (inQuotes cs))
      refine ⟨⟨.string (String.ofList ds), String.ofList (inQuotes cs), pos⟩ :: ps, ?_,
        by simp [Piece.spelling, hws]⟩
      rw [scan_string hs, collect_item (by simp), hps]
      rfl

/-! ## What is read is split -/

/-- The characters that the mode keeps, in their order. -/
def Token.Mode.kept : Mode → List Char
  | .between => []
  | .run _ seen | .comment _ seen | .string _ seen _ | .escape _ seen _ | .spoiled _ seen _ =>
    seen.reverse

/-- The characters that the mode keeps are what it is inside of. -/
def Token.Mode.Kept : Mode → Prop
  | .run _ seen => seen ≠ [] ∧ ∀ c ∈ seen, isRunChar c = true
  | .comment _ seen => ∃ cs, seen.reverse = ';' :: cs ∧ '\n' ∉ cs
  | .string _ seen contents => ∃ cs, seen.reverse = '"' :: cs ∧ Escaped cs contents.reverse
  | .escape _ seen contents =>
    ∃ cs, seen.reverse = '"' :: cs ++ ['\\'] ∧ Escaped cs contents.reverse
  | .between | .spoiled .. => True

theorem Escaped.append {cs' ds' : List Char} (h : Escaped cs ds) (h' : Escaped cs' ds') :
    Escaped (cs ++ cs') (ds ++ ds') := by
  induction h with
  | nil => exact h'
  | plain hc _ ih => exact .plain hc ih
  | escape hc _ ih => exact .escape hc ih

theorem splits_of_opening {items : List Item}
    (h : Line.collect n ((Mode.opening pos c).1 ++ items) = .ok ps)
    (hm : ∀ qs, Line.collect n items = .ok qs → (Mode.opening pos c).2.Kept →
      Splits ((Mode.opening pos c).2.kept ++ rest) (qs.map Piece.spelling)) :
    Splits (c :: rest) (ps.map Piece.spelling) := by
  rcases opening_cases h with ⟨hc, ho⟩ | ⟨rfl, ho⟩ | ⟨rfl, ho⟩ | ⟨hc, ho⟩ <;> rw [ho] at h hm
  · exact .separator hc (hm ps h trivial)
  · exact hm ps h ⟨[], rfl, by simp⟩
  · exact hm ps h ⟨[], rfl, .nil⟩
  · exact hm ps h ⟨by simp, by simpa using hc⟩

theorem splits_of_run (hm : (Mode.run start seen).Kept) (ht : ofRun seen.reverse = .ok t)
    (hstop : StopsRun rest) (h : Splits rest ws) :
    Splits ((Mode.run start seen).kept ++ rest) ((t, String.ofList seen.reverse) :: ws) := by
  obtain ⟨hne, hrun⟩ := hm
  have hne : seen.reverse ≠ [] := by simpa using hne
  have hrun : ∀ c ∈ seen.reverse, isRunChar c = true := by simpa using hrun
  exact .run hne hrun hstop ht h

/-- A text that is read from between tokens on, or from inside of one, is split. -/
theorem splits_of_scan (hm : mode.Kept) (h : Line.collect n (scan mode pos cs) = .ok ps) :
    Splits (mode.kept ++ cs) (ps.map Piece.spelling) := by
  -- The mode keeps what is read of a token, so a token is whole when its mode is left.
  induction cs generalizing mode pos ps with
  | nil =>
      cases mode with
      | between =>
          cases h
          exact .nil
      | run start seen =>
          obtain ⟨t, ht, qs, hq, hps⟩ := collect_cons h
          cases hq
          obtain ⟨-, rfl⟩ := hps.resolve_left fun hc => ne_comment_of_ofRun ht hc.1
          exact splits_of_run hm ht (by simp [StopsRun]) .nil
      | comment start seen =>
          cases h
          obtain ⟨as, hseen, hf⟩ := hm
          rw [Mode.kept, hseen, List.append_nil]
          exact .comment hf
      | string | escape | spoiled => cases h
  | cons c rest ih =>
      cases mode with
      | between => exact splits_of_opening h fun _ hq hnext => ih hnext hq
      | run start seen =>
          rw [scan_cons] at h
          cases hc : isRunChar c with
          | true =>
              simp only [Mode.step, hc, ↓reduceIte, List.nil_append] at h
              have hnext : (Mode.run start (c :: seen)).Kept := ⟨by simp, by simpa [hc] using hm.2⟩
              simpa [Mode.kept] using ih hnext h
          | false =>
              simp only [Mode.step, hc, Bool.false_eq_true, ↓reduceIte, List.cons_append] at h
              obtain ⟨t, ht, qs, hq, hps⟩ := collect_cons h
              have hrest := splits_of_opening hq fun _ hq hnext => ih hnext hq
              obtain ⟨-, rfl⟩ := hps.resolve_left fun hc => ne_comment_of_ofRun ht hc.1
              exact splits_of_run hm ht (by simpa [StopsRun] using hc) hrest
      | comment start seen =>
          obtain ⟨as, hseen, hf⟩ := hm
          by_cases hc : c = '\n'
          · subst hc
            exact absurd h collect_feed_ne_ok
          · simp only [scan_cons, Mode.step, hc, ↓reduceIte, List.nil_append] at h
            have hnext : (Mode.comment start (c :: seen)).Kept := by
              refine ⟨as ++ [c], by simp [hseen], ?_⟩
              simpa [hf] using Ne.symm hc
            simpa [Mode.kept] using ih hnext h
      | string start seen contents =>
          obtain ⟨as, hseen, hs⟩ := hm
          by_cases hquote : c = '"'
          · subst hquote
            obtain ⟨t, ht, qs, hq, hps⟩ := collect_cons h
            cases ht
            obtain ⟨-, rfl⟩ := hps.resolve_left fun hc => by cases hc.1
            have hrest := ih (show Mode.between.Kept from trivial) hq
            have hkept : seen.reverse ++ '"' :: rest = inQuotes as ++ rest := by
              simp [hseen, inQuotes]
            have htext : ('"' :: seen).reverse = inQuotes as := by simp [hseen, inQuotes]
            simp only [Mode.kept, hkept, List.map_cons, Piece.spelling, item, htext]
            exact .string hs hrest
          · by_cases hslash : c = '\\'
            · subst hslash
              have hnext : (Mode.escape start ('\\' :: seen) contents).Kept :=
                ⟨as, by simp [hseen], hs⟩
              simpa [Mode.kept] using ih hnext h
            · by_cases hfeed : c = '\n'
              · subst hfeed
                exact absurd h collect_feed_ne_ok
              · simp only [scan_cons, Mode.step, hquote, hslash, hfeed, ↓reduceIte,
                  List.nil_append] at h
                have hnext : (Mode.string start (c :: seen) (c :: contents)).Kept := by
                  refine ⟨as ++ [c], by simp [hseen], ?_⟩
                  rw [List.reverse_cons]
                  exact hs.append (.plain ⟨hquote, hslash, hfeed⟩ .nil)
                simpa [Mode.kept] using ih hnext h
      | escape start seen contents =>
          obtain ⟨as, hseen, hs⟩ := hm
          cases hu : unescape? c with
          | some d =>
              simp only [scan_cons, Mode.step, hu, List.nil_append] at h
              have hnext : (Mode.string start (c :: seen) (d :: contents)).Kept := by
                refine ⟨as ++ ['\\', c], by simp [hseen], ?_⟩
                rw [List.reverse_cons]
                exact hs.append (.escape hu .nil)
              simpa [Mode.kept] using ih hnext h
          | none =>
              simp only [scan_cons, Mode.step, hu, List.nil_append] at h
              exact absurd h collect_spoiled_ne_ok
      | spoiled start seen fault => exact absurd h collect_spoiled_ne_ok

/-- A text is read as some tokens exactly if it is split into them. -/
theorem splits_iff (n pos : Nat) : Splits cs ws ↔
    ∃ ps, Line.collect n (scan .between pos cs) = .ok ps ∧ ps.map Piece.spelling = ws := by
  constructor
  · intro h
    exact h.collect n pos
  · rintro ⟨ps, hps, rfl⟩
    exact splits_of_scan (show Mode.between.Kept from trivial) hps

theorem Splits.unique {ws' : List Spelling} (h : Splits cs ws) (h' : Splits cs ws') : ws = ws' := by
  obtain ⟨ps, hps, rfl⟩ := h.collect 0 0
  obtain ⟨ps', hps', rfl⟩ := h'.collect 0 0
  cases hps.symm.trans hps'
  rfl

namespace Line

variable {text : List Char} {l : Line}

theorem splits_of_read (h : read n text = .ok l) : Splits text (l.tokens.map Piece.spelling) := by
  obtain ⟨ps, hps, rfl⟩ := map_eq_ok.1 h
  exact (splits_iff n 0).2 ⟨ps, hps, rfl⟩

theorem read_of_splits (h : Splits text ws) (n : Nat) :
    ∃ l, read n text = .ok l ∧ l.tokens.map Piece.spelling = ws := by
  obtain ⟨ps, hps, hws⟩ := h.collect n 0
  exact ⟨⟨n, ps⟩, map_eq_ok.2 ⟨ps, hps, rfl⟩, hws⟩

end Line

/-! ## Single tokens -/

/-- A token is a string, or the token of its whole text, which is a run. -/
inductive Spelling.Plain : Spelling → Prop
  | run {t : Token} {text : String} (hne : text ≠ "") (hrun : ∀ c ∈ text.toList, isRunChar c = true)
      (ht : ofRun text.toList = .ok t) : Plain (t, text)
  | string {cs ds : List Char} (hs : Escaped cs ds) :
      Plain (.string (String.ofList ds), String.ofList (inQuotes cs))

theorem Splits.plain (h : Splits cs ws) : ∀ w ∈ ws, w.Plain := by
  induction h with
  | nil | comment => simp
  | separator _ _ ih => exact ih
  | run hne hrun _ ht _ ih =>
      refine List.forall_mem_cons.2 ⟨?_, ih⟩
      exact .run (by simpa using hne) (by simpa using hrun) (by simpa using ht)
  | string hs _ ih => exact List.forall_mem_cons.2 ⟨.string hs, ih⟩

theorem Line.plain_of_read {text : List Char} {l : Line} (h : Line.read n text = .ok l) :
    ∀ p ∈ l.tokens, (Piece.spelling p).Plain :=
  List.forall_mem_map.1 (splits_of_read h).plain

/-- A token that stands alone, and is in range if it is a number. -/
structure Piece.Sound (p : Piece) : Prop where
  stands : Stands p.text p.value
  inRange : ∀ z, p.value = .literal z → Numeral.InRange z

theorem Spelling.Plain.stands {w : Spelling} (h : w.Plain) : Stands w.2 w.1 := by
  cases h with
  | run hne hrun ht => exact stands_of_run hne hrun ht
  | @string cs ds hs =>
      have htext : (String.ofList (inQuotes cs)).toList = ['"'] ++ cs ++ ['"'] :=
        String.toList_ofList
      have := stands_of_quoted htext hs.reaches
      rwa [List.reverse_reverse] at this

theorem Spelling.Plain.inRange {w : Spelling} (h : w.Plain) {z : Int} (hz : w.1 = .literal z) :
    Numeral.InRange z := by
  cases h with
  | @run t text hne hrun ht =>
      obtain rfl : t = .literal z := hz
      cases of_ofRun ht with
      | literal h => exact Numeral.inRange_of_literal? h
  | string => cases hz

/-- Every token that was read is spelled by its own text. -/
theorem Line.sound_of_read {text : List Char} {l : Line} (h : Line.read n text = .ok l) :
    ∀ p ∈ l.tokens, Piece.Sound p := fun p hp =>
  ⟨(plain_of_read h p hp).stands, fun _ => (plain_of_read h p hp).inRange⟩

end Lc3
