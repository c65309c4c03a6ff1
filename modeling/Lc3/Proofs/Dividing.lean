import Lc3.Proofs.Faults
import Lc3.Proofs.Patterns

/-!
# How a text is divided

Every text is divided into separators, white space that is a fault, runs, strings, strings that
cannot be saved, and comments. Main statement: an engine that takes the longest match makes the same
items of a text as reading it one character at a time.
-/

namespace Lc3

open Token

/-- The items into which a text is divided that starts at a column. -/
inductive Divides : Nat → List Char → List Item → Prop
  | nil {pos : Nat} : Divides pos [] []
  | separators {pos : Nat} {seps rest : List Char} {items : List Item} (hne : seps ≠ [])
      (hs : Separators seps) (hstop : ∀ c ∈ rest.head?, isSeparator c = false)
      (h : Divides (pos + Text.utf8Size seps) rest items) : Divides pos (seps ++ rest) items
  | blank {pos : Nat} {c : Char} {rest : List Char} {items : List Item}
      (hb : Text.isBlank c = true) (hs : isSeparator c = false)
      (h : Divides (pos + c.utf8Size) rest items) :
      Divides pos (c :: rest) (⟨.error .invalidSymbol, String.ofList [c], pos⟩ :: items)
  | run {pos : Nat} {run rest : List Char} {items : List Item} (hne : run ≠ [])
      (hrun : ∀ c ∈ run, isRunChar c = true) (hstop : StopsRun rest)
      (h : Divides (pos + Text.utf8Size run) rest items) :
      Divides pos (run ++ rest) (⟨ofRun run, String.ofList run, pos⟩ :: items)
  | string {pos : Nat} {cs ds rest : List Char} {items : List Item} (hs : Escaped cs ds)
      (h : Divides (pos + Text.utf8Size (inQuotes cs)) rest items) :
      Divides pos (inQuotes cs ++ rest)
        (⟨.ok (.string (String.ofList ds)), String.ofList (inQuotes cs), pos⟩ :: items)
  | spoiled {pos : Nat} {cs : List Char} {e : LexError} (hs : Spoils cs e) :
      Divides pos ('"' :: cs) [⟨.error e, String.ofList ('"' :: cs), pos⟩]
  | comment {pos : Nat} {cs rest : List Char} {items : List Item} (hf : '\n' ∉ cs)
      (hstop : ∀ c ∈ rest.head?, c = '\n')
      (h : Divides (pos + Text.utf8Size (';' :: cs)) rest items) :
      Divides pos (';' :: cs ++ rest) (⟨.ok .comment, String.ofList (';' :: cs), pos⟩ :: items)

variable {c : Char} {cs ds as bs word rest text contents : List Char} {pos bytes : Nat}
  {p q : Pattern} {e : LexError} {engine : Engine} {items : List Item}

/-! ## Every text is divided -/

theorem exists_divides (pos : Nat) (text : List Char) : ∃ items, Divides pos text items := by
  -- An item is taken off in front, so the induction is on the length.
  induction hn : text.length using Nat.strongRecOn generalizing pos text with
  | ind n ih =>
      have hrest (pos : Nat) (part rest : List Char) (htext : text = part ++ rest)
          (hne : part ≠ []) : ∃ items, Divides pos rest items := by
        subst htext
        have := List.length_pos_of_ne_nil hne
        rw [List.length_append] at hn
        exact ih _ (by omega) pos rest rfl
      obtain _ | ⟨c, cs⟩ := text
      · exact ⟨[], .nil⟩
      rcases char_cases c with hc | rfl | rfl | hc | ⟨hb, hc⟩
      · obtain ⟨as, bs, rfl, has, hstop⟩ := exists_while isSeparator cs
        obtain ⟨items, h⟩ := hrest (pos + Text.utf8Size (c :: as)) (c :: as) bs rfl (by simp)
        exact ⟨items, .separators (by simp) (List.forall_mem_cons.2 ⟨hc, has⟩) hstop h⟩
      · obtain ⟨as, bs, rfl, has, hstop⟩ := exists_while (· != '\n') cs
        obtain ⟨items, h⟩ := hrest (pos + Text.utf8Size (';' :: as)) (';' :: as) bs rfl (by simp)
        have hf : '\n' ∉ as := fun hmem => by simpa using has _ hmem
        exact ⟨_, .comment hf (by simpa using hstop) h⟩
      · rcases closes_or_spoils cs with ⟨as, bs, rest, hs, rfl⟩ | ⟨e, h⟩
        · have htext : '"' :: (as ++ '"' :: rest) = inQuotes as ++ rest := by simp [inQuotes]
          obtain ⟨items, h⟩ := hrest (pos + Text.utf8Size (inQuotes as)) (inQuotes as) rest htext
            (by simp [inQuotes])
          rw [htext]
          exact ⟨_, .string hs h⟩
        · exact ⟨_, .spoiled h⟩
      · obtain ⟨run, rest, htext, hne, hall, hstop⟩ := exists_run cs hc
        obtain ⟨items, h⟩ := hrest (pos + Text.utf8Size run) run rest htext hne
        rw [htext]
        exact ⟨_, .run hne hall hstop h⟩
      · obtain ⟨items, h⟩ := hrest (pos + c.utf8Size) [c] cs rfl (by simp)
        exact ⟨_, .blank hb hc h⟩

/-! ## Reading one character at a time -/

theorem Divides.scan (h : Divides pos text items) : Token.scan .between pos text = items := by
  induction h with
  | nil => rfl
  | separators _ hs _ _ ih => rw [scan_separators hs, ih]
  | blank hb hs _ ih => rw [scan_blank hb hs, ih]
  | run hne hrun hstop _ ih => rw [scan_run hne hrun hstop, ih]
  | string hs _ ih => rw [scan_string hs, ih]
  | spoiled hs => exact hs.scan
  | @comment pos cs rest items hf hstop _ ih =>
      rw [List.cons_append, scan_cons, show Mode.step pos ';' .between =
        ([], .comment pos [';']) from rfl, List.nil_append, scan_comment hf hstop, Nat.add_assoc,
        ← Text.utf8Size_cons, ih]
      simp [item]

/-! ## Reading strings -/

theorem Text.splitBytes_append (as bs : List Char) :
    splitBytes (utf8Size as) (as ++ bs) = (as, bs) := by
  induction as with
  | nil => simp [splitBytes]
  | cons c as ih =>
      obtain ⟨n, hn⟩ : ∃ n, c.utf8Size + utf8Size as = n + 1 :=
        Nat.exists_eq_add_one.2 (Nat.add_pos_left (Char.utf8Size_pos c) _)
      have hrest : n + 1 - c.utf8Size = utf8Size as := by omega
      rw [utf8Size_cons, hn, List.cons_append, splitBytes, hrest, ih]

namespace Token.Pattern

theorem readString_closing :
    readString bytes contents ('"' :: rest) = .ok (String.ofList contents.reverse, bytes + 1) := by
  rw [readString.eq_def]
  rfl

theorem readString_plain (hc : c ≠ '"' ∧ c ≠ '\\' ∧ c ≠ '\n') :
    readString bytes contents (c :: rest) =
      readString (bytes + c.utf8Size) (c :: contents) rest := by
  rw [readString.eq_def]
  simp only [hc.1, hc.2.1, hc.2.2, ↓reduceIte]

theorem readString_feed : readString bytes contents ('\n' :: rest) = .error .unclosedString := by
  rw [readString.eq_def]
  rfl

theorem readString_append (hs : Escaped cs ds) : readString bytes contents (cs ++ rest) =
    readString (bytes + Text.utf8Size cs) (ds.reverse ++ contents) rest := by
  induction hs generalizing bytes contents with
  | nil => rfl
  | @plain c cs ds hc _ ih =>
      rw [List.cons_append, readString_plain hc, ih]
      simp [Nat.add_assoc]
  | @escape c d cs ds hc _ ih =>
      simp only [List.cons_append, readString, Char.reduceEq, ↓reduceIte, hc, ih]
      simp [Nat.add_assoc]

/-- Behind the opening quote of a string, its characters and its closing quote are read. -/
theorem readString_closed (hs : Escaped cs ds) : readString 0 [] (cs ++ '"' :: rest) =
    .ok (String.ofList ds, Text.utf8Size (cs ++ ['"'])) := by
  rw [readString_append hs, readString_closing, utf8Size_append, List.append_nil,
    List.reverse_reverse, Nat.zero_add]
  rfl

theorem readString_spoiled (hs : Spoils cs e) : readString 0 [] cs = .error e := by
  have hread {as bs : List Char} (hs : Escaped as bs) (rest : List Char) :
      readString 0 [] (as ++ rest) = readString (Text.utf8Size as) bs.reverse rest := by
    rw [readString_append hs, Nat.zero_add, List.append_nil]
  cases hs with
  | ends hs =>
      have := hread hs []
      rwa [List.append_nil] at this
  | slash hs => exact hread hs _
  | feed hs => rw [hread hs, readString_feed]
  | escape hs hc =>
      rw [hread hs]
      simp [readString, hc]

end Token.Pattern

/-! ## Reading by patterns -/

namespace Token.Pattern

theorem eq_of_kind (h : p.kind = q.kind) (hq : q.kind ≠ .run) : p = q := by
  cases q <;> first | exact absurd rfl hq | (cases p <;> first | rfl | cases h)

/-- No pattern matches white space that separates nothing. -/
theorem Kind.not_opens_of_isBlank {k : Kind} (hb : Text.isBlank c = true)
    (hs : isSeparator c = false) : ¬ k.opens c = true := by
  obtain ⟨hsemi, hquote⟩ := plain_of_isBlank hb
  cases k with
  | separators => simp [opens, hs]
  | string => simpa [opens] using hquote
  | comment => simpa [opens] using hsemi
  | run => simp [opens, isRunChar, hb]

end Token.Pattern

namespace Token.Engine

open Pattern

/-- What is made of the text that a pattern is taken for, and of the text behind that. -/
def itemsAt (engine : Engine) (pos : Nat) (word rest : List Char)
    (made : Option (Except LexError Token) × Nat) : List Item :=
  let cut := Text.splitBytes made.2 rest
  (made.1.map (⟨·, String.ofList (word ++ cut.1), pos⟩)).toList ++
    engine.items (pos + Text.utf8Size (word ++ cut.1)) cut.2

/-- Where a pattern matches as much as its kind can, one of its kind is taken for that. -/
theorem LongestMatch.items_append (he : engine.LongestMatch) (pos : Nat)
    (hq : q.regex.accepts word = true) (hstop : ∀ c ∈ rest.head?, q.kind.goesOn c = false) :
    ∃ p : Pattern, p.kind = q.kind ∧ p.Wins word rest ∧
      engine.items pos (word ++ rest) = engine.itemsAt pos word rest (p.read word rest) := by
  obtain ⟨c, cs, rfl, -⟩ := exists_of_accepts hq
  cases hc : engine c (cs ++ rest) with
  | none => cases hq.symm.trans (he.stuck hc q _ rest rfl)
  | some found =>
      obtain ⟨p, n⟩ := found
      have hwins := he.wins hc
      have hcut : (c :: cs) ++ rest = (c :: (cs ++ rest).take n) ++ (cs ++ rest).drop n := by
        rw [List.cons_append, List.cons_append, List.take_append_drop]
      obtain ⟨htake, hdrop, hkind⟩ := hwins.cut hq hcut hstop
      rw [htake, hdrop] at hwins
      refine ⟨p, hkind, hwins, ?_⟩
      rw [List.cons_append, items, hc]
      simp only [htake, hdrop, itemsAt]

/-- Where only one pattern of its kind matches, that is taken. -/
theorem LongestMatch.items_of_kind (he : engine.LongestMatch) (hq : q.regex.accepts word = true)
    (hstop : ∀ c ∈ rest.head?, q.kind.goesOn c = false) (hkind : q.kind ≠ .run) :
    engine.items pos (word ++ rest) = engine.itemsAt pos word rest (q.read word rest) := by
  obtain ⟨p, hp, -, hitems⟩ := he.items_append pos hq hstop
  rw [hitems, eq_of_kind hp hkind]

end Token.Engine

theorem Divides.items_eq (he : engine.LongestMatch) (h : Divides pos text items) :
    engine.items pos text = items := by
  induction h with
  | nil => simp [Engine.items]
  | @separators pos seps rest items hne hs hstop _ ih =>
      have hacc := Pattern.accepts_separators.2 ⟨hne, hs⟩
      rw [he.items_of_kind hacc hstop (by decide)]
      simpa [Engine.itemsAt, Pattern.read, Text.splitBytes] using ih
  | @blank pos c rest items hb hs _ ih =>
      have hnone : engine c rest = none := by
        cases hc : engine c rest with
        | none => rfl
        | some found =>
            obtain ⟨p, n⟩ := found
            obtain ⟨d, ds, hcons, hopens, -⟩ := Pattern.exists_of_accepts (he.wins hc).accepts
            obtain ⟨rfl, -⟩ := List.cons_eq_cons.1 hcons
            exact absurd hopens (Pattern.Kind.not_opens_of_isBlank hb hs)
      simp [Engine.items, hnone, ih, item]
  | @run pos run rest items hne hrun hstop _ ih =>
      have hacc := Pattern.accepts_unknown.2 ⟨hne, hrun⟩
      obtain ⟨p, hkind, hwins, hitems⟩ := he.items_append pos hacc hstop
      rw [hitems, hwins.read_run hkind]
      simpa [Engine.itemsAt, Text.splitBytes] using ih
  | @string pos cs ds rest items hs _ ih =>
      have htext : inQuotes cs ++ rest = ['"'] ++ (cs ++ '"' :: rest) := by simp [inQuotes]
      have hread : Pattern.quote.read ['"'] (cs ++ '"' :: rest) =
          (some (.ok (.string (String.ofList ds))), Text.utf8Size (cs ++ ['"'])) := by
        rw [Pattern.read, Pattern.readString_closed hs]
      have hcut : Text.splitBytes (Text.utf8Size (cs ++ ['"'])) (cs ++ '"' :: rest) =
          (cs ++ ['"'], rest) := by
        rw [← Text.splitBytes_append, List.append_assoc]
        rfl
      rw [htext, he.items_of_kind (q := .quote) rfl (fun _ _ => rfl) (by decide), hread,
        Engine.itemsAt, hcut]
      simpa [inQuotes] using ih
  | @spoiled pos cs e hs =>
      have hread : Pattern.quote.read ['"'] cs = (some (.error e), Text.utf8Size cs) := by
        rw [Pattern.read, Pattern.readString_spoiled hs]
      have hcut : Text.splitBytes (Text.utf8Size cs) cs = (cs, []) := by
        simpa using Text.splitBytes_append cs []
      rw [← List.singleton_append, he.items_of_kind (q := .quote) rfl (fun _ _ => rfl) (by decide),
        hread, Engine.itemsAt, hcut]
      simp [Engine.items]
  | @comment pos cs rest items hf hstop _ ih =>
      have hacc := Pattern.accepts_comment.2 ⟨cs, rfl, fun c hc => ne_of_mem_of_not_mem hc hf⟩
      have hends : ∀ c ∈ rest.head?, Pattern.comment.kind.goesOn c = false := fun c hc => by
        rw [hstop c hc]
        rfl
      rw [he.items_of_kind hacc hends (by decide)]
      simpa [Engine.itemsAt, Pattern.read, Text.splitBytes] using ih

/-- Reading by patterns makes the same items of a text as reading one character at a time. -/
theorem Token.Engine.lex_eq (he : engine.LongestMatch) (text : List Char) :
    engine.lex text = Token.lex text := by
  obtain ⟨items, h⟩ := exists_divides 0 text
  rw [lex, h.items_eq he, Token.lex, h.scan]

end Lc3
