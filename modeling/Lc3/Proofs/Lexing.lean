import Lc3.Line
import Lc3.Proofs.Digits
import Lc3.Proofs.Reading

/-!
# Texts that spell tokens

A text spells some tokens if it is read as them at every column and before everything that starts
with a separator. Such texts can be put together with separators between them.
-/

namespace Lc3

open Token

/-! ## Fragments of a line -/

namespace Token

variable {pos : Nat} {c : Char} {cs rest : List Char} {mode : Nat → Mode}

theorem scan_cons {mode : Mode} : scan mode pos (c :: rest) =
    (mode.step pos c).1 ++ scan (mode.step pos c).2 (pos + c.utf8Size) rest := rfl

/-- What may follow a token. -/
def Ended (rest : List Char) : Prop := ∀ c ∈ rest.head?, isSeparator c = true

theorem ended_nil : Ended [] := by simp [Ended]

theorem ended_cons (h : isSeparator c = true) : Ended (c :: rest) := by simpa [Ended] using h

/-- Reading a text from between tokens ends inside of a mode that depends on the column only. -/
def Reaches (cs : List Char) (mode : Nat → Mode) : Prop :=
  ∀ pos rest, scan .between pos (cs ++ rest) = scan (mode pos) (pos + Text.utf8Size cs) rest

theorem utf8Size_append {ds : List Char} :
    Text.utf8Size (cs ++ ds) = Text.utf8Size cs + Text.utf8Size ds := by
  induction cs with
  | nil => simp
  | cons c cs ih => rw [List.cons_append, Text.utf8Size_cons, Text.utf8Size_cons, ih, Nat.add_assoc]

theorem reaches_of_opening (h : ∀ pos, Mode.opening pos c = ([], mode pos)) : Reaches [c] mode := by
  intro pos rest
  rw [List.singleton_append, scan, Mode.step, h]
  rfl

/-- A character that ends no item leads from mode to mode. -/
theorem Reaches.step {next : Nat → Mode} (h : Reaches cs mode)
    (hs : ∀ start pos, (mode start).step pos c = ([], next start)) : Reaches (cs ++ [c]) next := by
  intro pos rest
  rw [List.append_assoc, h, List.singleton_append, scan, hs, utf8Size_append, ← Nat.add_assoc]
  rfl

theorem isSeparator_of_ended (h : Ended (c :: rest)) : isSeparator c = true := h c rfl

theorem not_isRunChar_of_isSeparator (h : isSeparator c = true) : isRunChar c = false := by
  simp only [isSeparator, Bool.or_eq_true, beq_iff_eq] at h
  rcases h with ((rfl | rfl) | rfl) | rfl <;> decide

theorem scan_separator (h : isSeparator c = true) :
    scan .between pos (c :: rest) = scan .between (pos + c.utf8Size) rest := by
  rw [scan, Mode.step, Mode.opening, if_pos h]
  rfl

/-! ## Runs -/

theorem opening_of_isRunChar (h : isRunChar c = true) :
    Mode.opening pos c = ([], .run pos [c]) := by
  have hsep : isSeparator c = false := by
    cases hs : isSeparator c with
    | false => rfl
    | true => simp [not_isRunChar_of_isSeparator hs] at h
  simp only [isRunChar, Bool.not_eq_true', Bool.or_eq_false_iff, beq_eq_false_iff_ne] at h
  obtain ⟨⟨⟨hblank, -⟩, hsemi⟩, hquote⟩ := h
  simp [Mode.opening, hsep, hblank, hsemi, hquote]

theorem Reaches.append_run {ds : List Char} (hd : ∀ c ∈ ds, isRunChar c = true)
    (h : Reaches cs fun pos => .run pos cs.reverse) :
    Reaches (cs ++ ds) fun pos => .run pos (cs ++ ds).reverse := by
  induction ds generalizing cs with
  | nil => simpa using h
  | cons d ds ih =>
      have hstep : Reaches (cs ++ [d]) fun pos => .run pos (cs ++ [d]).reverse :=
        h.step fun start pos => by simp [Mode.step, hd d (.head _)]
      have := ih (fun c hc => hd c (.tail _ hc)) hstep
      rwa [List.append_assoc] at this

theorem reaches_run (hne : cs ≠ []) (h : ∀ c ∈ cs, isRunChar c = true) :
    Reaches cs fun pos => .run pos cs.reverse := by
  cases cs with
  | nil => exact absurd rfl hne
  | cons c cs =>
      have hfirst : Reaches [c] fun pos => .run pos [c].reverse :=
        reaches_of_opening fun pos => opening_of_isRunChar (h c (.head _))
      exact hfirst.append_run fun d hd => h d (.tail _ hd)

/-- The classes of tokens that a run can be, in the order in which they are tried. -/
inductive OfRun (run : List Char) : Token → Prop
  | literal {z : Int} (h : Numeral.literal? run = some (.ok z)) : OfRun run (.literal z)
  | reg {r : Reg} (hl : Numeral.literal? run = none) (h : reg? run = some r) : OfRun run (.reg r)
  | mnemonic {m : Mnemonic} (hl : Numeral.literal? run = none) (hr : reg? run = none)
      (hn : ∀ c ∈ run, isNameChar c = true) (h : Mnemonic.ofName? (String.ofList run) = some m) :
      OfRun run (.mnemonic m)
  | name (hl : Numeral.literal? run = none) (hr : reg? run = none)
      (hn : ∀ c ∈ run, isNameChar c = true) (h : Mnemonic.ofName? (String.ofList run) = none) :
      OfRun run (.name (String.ofList run))
  | directive {d : String} (h : directive? run = some d) : OfRun run (.directive d)
  | unknown (h : directive? run = none) : OfRun run (.unknown (String.ofList run))

theorem of_ofRun {run : List Char} {t : Token} (h : ofRun run = .ok t) : OfRun run t := by
  unfold ofRun at h
  split at h
  · rename_i hl
    cases h
    exact .literal hl
  · cases h
  rename_i hl
  split at h
  · rename_i hr
    cases h
    exact .reg hl hr
  rename_i hr
  split at h
  · rename_i hn
    rw [List.all_eq_true] at hn
    unfold ofName at h
    split at h <;> rename_i hm <;> cases h
    · exact .mnemonic hl hr hn hm
    · exact .name hl hr hn hm
  · split at h <;> rename_i hd <;> cases h
    · exact .directive hd
    · exact .unknown hd

theorem ne_comment_of_ofRun {run : List Char} {t : Token} (h : ofRun run = .ok t) :
    t ≠ .comment := by
  rintro rfl
  cases of_ofRun h

end Token

/-! ## Texts and their tokens -/

/-- Wherever a text stands, it is read as tokens with a property, whatever follows. -/
def Spells (text : String) (P : List Piece → Prop) : Prop :=
  ∀ pos, ∃ ps, P ps ∧ ∀ rest n, Ended rest →
    Line.collect n (scan .between pos (text.toList ++ rest)) =
      (Line.collect n (scan .between (pos + Text.utf8Size text.toList) rest)).map (ps ++ ·)

/-- Wherever a text stands, it is read as one token. -/
def Stands (text : String) (t : Token) : Prop :=
  Spells text fun ps => ∃ p : Piece, ps = [p] ∧ p.value = t ∧ p.text = text

variable {text text' : String} {P Q : List Piece → Prop} {t : Token} {n : Nat}

theorem collect_item {start : Nat} {items : List Item} (ht : t ≠ .comment) :
    Line.collect n (⟨.ok t, text, start⟩ :: items) =
      (Line.collect n items).map (⟨t, text, start⟩ :: ·) := by
  cases t <;> first | rfl | exact absurd rfl ht

theorem Spells.mono (h : Spells text P) (hPQ : ∀ ps, P ps → Q ps) : Spells text Q := by
  intro pos
  obtain ⟨ps, hP, hc⟩ := h pos
  exact ⟨ps, hPQ ps hP, hc⟩

theorem Spells.read (h : Spells text P) :
    ∃ ps, P ps ∧ ∀ n, Line.read n text.toList = .ok ⟨n, ps⟩ := by
  obtain ⟨ps, hP, hc⟩ := h 0
  refine ⟨ps, hP, fun n => ?_⟩
  have := hc [] n ended_nil
  rw [List.append_nil] at this
  rw [Line.read, lex, this]
  simp [scan, Mode.finish, Line.collect, Except.map]

theorem scan_separators {pos : Nat} {seps rest : List Char}
    (h : ∀ c ∈ seps, isSeparator c = true) :
    scan .between pos (seps ++ rest) = scan .between (pos + Text.utf8Size seps) rest := by
  induction seps generalizing pos with
  | nil => rfl
  | cons c seps ih =>
      rw [List.cons_append, scan_separator (h c (.head _)), ih fun d hd => h d (.tail _ hd),
        Nat.add_assoc]
      rfl

/-- Texts with separators between them spell the tokens of both. -/
theorem Spells.append (sep : String)
    (hsep : sep.toList ≠ [] ∧ ∀ c ∈ sep.toList, isSeparator c = true) (h : Spells text P)
    (h' : Spells text' Q) :
    Spells (text ++ sep ++ text') fun ps => ∃ xs ys, ps = xs ++ ys ∧ P xs ∧ Q ys := by
  intro pos
  obtain ⟨xs, hP, hx⟩ := h pos
  obtain ⟨ys, hQ, hy⟩ := h' (pos + Text.utf8Size text.toList + Text.utf8Size sep.toList)
  refine ⟨xs ++ ys, ⟨xs, ys, rfl, hP, hQ⟩, fun rest n hr => ?_⟩
  have hmid : Ended (sep.toList ++ (text'.toList ++ rest)) := by
    obtain ⟨hne, hall⟩ := hsep
    cases hs : sep.toList with
    | nil => exact absurd hs hne
    | cons c cs => exact ended_cons (hall c (by simp [hs]))
  simp only [String.toList_append, List.append_assoc]
  rw [hx _ n hmid, scan_separators hsep.2, hy rest n hr, utf8Size_append, utf8Size_append]
  simp only [Nat.add_assoc]
  cases Line.collect n (scan .between _ rest) <;> simp [Except.map]

theorem stands_of_reaches (h : Reaches text.toList fun pos => .run pos text.toList.reverse)
    (ht : ofRun text.toList = .ok t) : Stands text t := by
  have hne := ne_comment_of_ofRun ht
  intro pos
  refine ⟨[⟨t, text, pos⟩], ⟨_, rfl, rfl, rfl⟩, fun rest n hr => ?_⟩
  rw [h]
  cases rest with
  | nil =>
      have hitem : scan (.run pos text.toList.reverse) (pos + Text.utf8Size text.toList) [] =
          [⟨.ok t, text, pos⟩] := by
        simp [scan, Mode.finish, item, ht]
      rw [hitem, collect_item hne]
      rfl
  | cons c rest =>
      have hc := isSeparator_of_ended hr
      have hitem :
          scan (.run pos text.toList.reverse) (pos + Text.utf8Size text.toList) (c :: rest) =
            ⟨.ok t, text, pos⟩ :: scan .between (pos + Text.utf8Size text.toList) (c :: rest) := by
        simp [scan, Mode.step, not_isRunChar_of_isSeparator hc, item, ht]
      rw [hitem, collect_item hne]
      rfl

theorem stands_of_run (hne : text ≠ "") (hrun : ∀ c ∈ text.toList, isRunChar c = true)
    (ht : ofRun text.toList = .ok t) : Stands text t :=
  stands_of_reaches (reaches_run (by simpa using hne) hrun) ht

theorem stands_of_quoted {cs contents : List Char} (htext : text.toList = cs ++ ['"'])
    (h : Reaches cs fun pos => .string pos cs.reverse contents) :
    Stands text (.string (String.ofList contents.reverse)) := by
  intro pos
  refine ⟨[⟨_, text, pos⟩], ⟨_, rfl, rfl, rfl⟩, fun rest n hr => ?_⟩
  have hitem : scan .between pos (text.toList ++ rest) =
      ⟨.ok (.string (String.ofList contents.reverse)), text, pos⟩ ::
        scan .between (pos + Text.utf8Size text.toList) rest := by
    rw [htext, List.append_assoc, h, List.singleton_append, scan, utf8Size_append, ← Nat.add_assoc]
    have hofList : String.ofList ('"' :: cs.reverse).reverse = text := by
      rw [← String.toList_inj, String.toList_ofList, htext]
      simp
    simp only [Mode.step, ↓reduceIte, item, hofList]
    rfl
  rw [hitem, collect_item (by simp)]
  rfl

/-! ## Reading from between tokens -/

theorem collect_cons {i : Item} {items : List Item} {ps : List Piece}
    (h : Line.collect n (i :: items) = .ok ps) :
    ∃ t, i.value = .ok t ∧ ∃ qs, Line.collect n items = .ok qs ∧
      (t = .comment ∧ ps = qs ∨ t ≠ .comment ∧ ps = ⟨t, i.text, i.start⟩ :: qs) := by
  unfold Line.collect at h
  split at h
  · cases h
  · rename_i hv
    exact ⟨.comment, hv, ps, h, .inl ⟨rfl, rfl⟩⟩
  · rename_i t hne hv
    obtain ⟨qs, hq, rfl⟩ := map_eq_ok.1 h
    exact ⟨t, hv, qs, hq, .inr ⟨hne, rfl⟩⟩

/-- A character between tokens that is not a fault: a separator, or one that opens something. -/
theorem opening_cases {pos : Nat} {c : Char} {items : List Item} {ps : List Piece}
    (h : Line.collect n ((Mode.opening pos c).1 ++ items) = .ok ps) :
    isSeparator c = true ∧ Mode.opening pos c = ([], .between) ∨
      c = ';' ∧ Mode.opening pos c = ([], .comment pos [c]) ∨
      c = '"' ∧ Mode.opening pos c = ([], .string pos [c] []) ∨
      isRunChar c = true ∧ Mode.opening pos c = ([], .run pos [c]) := by
  unfold Mode.opening at h ⊢
  split at h
  · rename_i hsep
    exact .inl ⟨hsep, if_pos hsep⟩
  split at h
  · rename_i hsep hsemi
    exact .inr (.inl ⟨hsemi, by rw [if_neg hsep, if_pos hsemi]⟩)
  split at h
  · rename_i hsep hsemi hquote
    exact .inr (.inr (.inl ⟨hquote, by rw [if_neg hsep, if_neg hsemi, if_pos hquote]⟩))
  split at h
  · obtain ⟨_, hv, -⟩ := collect_cons h
    cases hv
  · rename_i hsep hsemi hquote hblank
    have hrun : isRunChar c = true := by
      have hcomma : c ≠ ',' := fun hc => hsep (by simp [isSeparator, hc])
      simp [isRunChar, hblank, hcomma, hsemi, hquote]
    exact .inr (.inr (.inr ⟨hrun, opening_of_isRunChar hrun⟩))

end Lc3
