import Lc3.Text.Quoted
import Lc3.Proofs.Lines

/-!
# What survives quoting

Quoted text knows more escapes than the lexer does. Main statement: a quoted string is read as the
string if it has neither a tab nor another character that is quoted by its code point, and is a
fault if it has one.
-/

namespace Lc3

open Token Text

/-- The characters that are read again from quoted text: those with a glyph, and three others that
have an escape of their own on both sides. -/
def Text.Survives (c : Char) : Prop :=
  isPrintable c = true ∨ c = '\x00' ∨ c = '\n' ∨ c = '\r'

instance : DecidablePred Text.Survives := fun c =>
  inferInstanceAs (Decidable (isPrintable c = true ∨ c = '\x00' ∨ c = '\n' ∨ c = '\r'))

variable {c : Char} {cs seen contents rest : List Char} {start pos n : Nat} {ps : List Piece}

/-! ## One character -/

theorem scan_escape {d e : Char} (hd : unescape? d = some e) :
    scan (.string start seen contents) pos ('\\' :: d :: rest) =
      scan (.string start (d :: '\\' :: seen) (e :: contents)) (pos + 1 + d.utf8Size) rest := by
  have hstep : Mode.step (pos + 1) d (.escape start ('\\' :: seen) contents) =
      ([], .string start (d :: '\\' :: seen) (e :: contents)) := by
    simp [Mode.step, hd]
  change scan (.escape start ('\\' :: seen) contents) (pos + 1) (d :: rest) = _
  rw [scan_cons, hstep]
  rfl

theorem collect_escape_ne_ok {d : Char} (hd : unescape? d = none) :
    Line.collect n (scan (.string start seen contents) pos ('\\' :: d :: rest)) ≠ .ok ps := by
  have hstep : Mode.step (pos + 1) d (.escape start ('\\' :: seen) contents) =
      ([], .spoiled start (d :: '\\' :: seen) (.unsupportedEscape d)) := by
    simp [Mode.step, hd]
  change Line.collect n (scan (.escape start ('\\' :: seen) contents) (pos + 1) (d :: rest)) ≠ _
  rw [scan_cons, hstep]
  exact collect_spoiled_ne_ok

/-- A character that survives is read inside of a string as itself. -/
theorem scan_quotedChar (h : Survives c) :
    scan (.string start seen contents) pos ((quotedChar c).toList ++ rest) =
      scan (.string start ((quotedChar c).toList.reverse ++ seen) (c :: contents))
        (pos + utf8Size (quotedChar c).toList) rest := by
  unfold quotedChar
  split
  case h_1 | h_3 | h_4 | h_5 | h_6 => exact scan_escape rfl
  case h_2 => exact absurd h (by decide)
  case h_7 hnul htab hcr hnl hquote hslash =>
    have hp : isPrintable c = true := by
      rcases h with h | rfl | rfl | rfl
      · exact h
      · exact absurd rfl hnul
      · exact absurd rfl hnl
      · exact absurd rfl hcr
    have hstep : Mode.step pos c (.string start seen contents) =
        ([], .string start (c :: seen) (c :: contents)) := by
      have hquote' : c ≠ '"' := hquote
      have hslash' : c ≠ '\\' := hslash
      have hnl' : c ≠ '\n' := hnl
      simp [Mode.step, hquote', hslash', hnl']
    rw [if_pos hp, Char.toString, String.toList_singleton, List.singleton_append, scan_cons, hstep]
    rfl

/-- Any other character is quoted by an escape that the lexer does not have. -/
theorem collect_quotedChar_ne_ok (h : ¬ Survives c) :
    Line.collect n (scan (.string start seen contents) pos ((quotedChar c).toList ++ rest)) ≠
      .ok ps := by
  unfold quotedChar
  split
  case h_1 => exact absurd (.inr (.inl rfl)) h
  case h_2 => exact collect_escape_ne_ok rfl
  case h_3 => exact absurd (.inr (.inr (.inr rfl))) h
  case h_4 => exact absurd (.inr (.inr (.inl rfl))) h
  case h_5 | h_6 =>
    refine absurd (.inl ?_) h
    decide +kernel
  case h_7 =>
    have hp : ¬ isPrintable c = true := fun hp => h (.inl hp)
    rw [if_neg hp, String.toList_append, String.toList_append]
    exact collect_escape_ne_ok (show unescape? 'u' = none by decide)

/-! ## Strings -/

theorem Text.toList_quoted {s : String} :
    (quoted s).toList = '"' :: (s.toList.flatMap fun c => (quotedChar c).toList) ++ ['"'] := by
  simp only [quoted, String.toList_append, String.toList_join, List.flatMap_map]
  rfl

theorem Token.Reaches.append_quoted (hs : ∀ c ∈ cs, Survives c) {ds : List Char}
    (h : Reaches ds fun pos => .string pos ds.reverse contents) :
    Reaches (ds ++ cs.flatMap fun c => (quotedChar c).toList) fun pos =>
      .string pos (ds ++ cs.flatMap fun c => (quotedChar c).toList).reverse
        (cs.reverse ++ contents) := by
  induction cs generalizing ds contents with
  | nil => simpa using h
  | cons c cs ih =>
      have hstep : Reaches (ds ++ (quotedChar c).toList) fun pos =>
          .string pos (ds ++ (quotedChar c).toList).reverse (c :: contents) := by
        intro pos rest
        rw [List.append_assoc, h, scan_quotedChar (hs c (.head _)), List.reverse_append,
          utf8Size_append, Nat.add_assoc]
      have := ih (fun d hd => hs d (.tail _ hd)) hstep
      simpa using this

theorem stands_quoted {s : String} (h : ∀ c ∈ s.toList, Survives c) :
    Stands (quoted s) (.string s) := by
  have hopen : Reaches ['"'] fun pos => .string pos ['"'].reverse [] :=
    reaches_of_opening fun pos => rfl
  have := stands_of_quoted toList_quoted (hopen.append_quoted h)
  simpa using this

theorem survives_of_scan (h : Line.collect n (scan (.string start seen contents) pos
    ((cs.flatMap fun c => (quotedChar c).toList) ++ rest)) = .ok ps) : ∀ c ∈ cs, Survives c := by
  induction cs generalizing seen contents pos with
  | nil => simp
  | cons c cs ih =>
      rw [List.flatMap_cons, List.append_assoc] at h
      have hc : Survives c := by
        by_contra hc
        exact collect_quotedChar_ne_ok hc h
      rw [scan_quotedChar hc] at h
      exact List.forall_mem_cons.2 ⟨hc, ih h⟩

theorem survives_of_collect {s : String}
    (h : Line.collect n (scan .between pos ((quoted s).toList ++ rest)) = .ok ps) :
    ∀ c ∈ s.toList, Survives c := by
  rw [toList_quoted, List.append_assoc] at h
  exact survives_of_scan h

end Lc3
