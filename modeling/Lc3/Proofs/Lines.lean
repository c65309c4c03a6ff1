import Mathlib.Data.List.Forall2
import Lc3.Proofs.Lexing

/-!
# Texts line by line

Texts that spell tokens hold no line break, so they can be put together line by line. Main
statement: if the lines of a text spell an origin and statements, the text is a program of these.
-/

namespace Lc3

open Token

variable {n pos : Nat} {cs : List Char} {ps : List Piece} {text : String} {P : List Piece → Prop}

/-! ## Line breaks are faults -/

/-- A text without a line feed and without a carriage return that could belong to one. -/
structure Clean (text : String) : Prop where
  noFeed : '\n' ∉ text.toList
  noReturn : text.toList.getLast? ≠ some '\r'

theorem collect_spoiled_ne_ok {start : Nat} {seen : List Char} {fault : LexError} :
    Line.collect n (scan (.spoiled start seen fault) pos cs) ≠ .ok ps := by
  induction cs generalizing pos seen with
  | nil =>
      intro h
      cases h
  | cons c rest ih => exact ih

theorem collect_feed_ne_ok {mode : Mode} :
    Line.collect n (scan mode pos ('\n' :: cs)) ≠ .ok ps := by
  intro h
  cases mode with
  | between => cases h
  | run | comment =>
      obtain ⟨_, -, _, hq, -⟩ := collect_cons h
      cases hq
  | string => exact collect_spoiled_ne_ok h
  | escape => exact collect_spoiled_ne_ok h
  | spoiled => exact collect_spoiled_ne_ok h

theorem collect_return_eq_ok {mode : Mode} (h : Line.collect n (scan mode pos ['\r']) = .ok ps) :
    ∃ start seen, mode = .comment start seen := by
  cases mode with
  | between => cases h
  | run =>
      obtain ⟨_, -, _, hq, -⟩ := collect_cons h
      cases hq
  | comment start seen => exact ⟨start, seen, rfl⟩
  | string => cases h
  | escape => cases h
  | spoiled => cases h

theorem exists_mode (mode : Mode) (pos : Nat) (cs : List Char) :
    ∃ items next, ∀ rest, scan mode pos (cs ++ rest) =
      items ++ scan next (pos + Text.utf8Size cs) rest := by
  induction cs generalizing mode pos with
  | nil => exact ⟨[], mode, fun rest => rfl⟩
  | cons c cs ih =>
      obtain ⟨items, next, h⟩ := ih (mode.step pos c).2 (pos + c.utf8Size)
      refine ⟨(mode.step pos c).1 ++ items, next, fun rest => ?_⟩
      rw [List.cons_append, scan_cons, h, List.append_assoc, Nat.add_assoc]
      rfl

theorem collect_append {a b : List Item} :
    Line.collect n (a ++ b) =
      (Line.collect n a).bind fun xs => (Line.collect n b).map (xs ++ ·) := by
  induction a with
  | nil => cases h : Line.collect n b <;> simp [Line.collect, Except.bind, Except.map, h]
  | cons i a ih =>
      simp only [List.cons_append, Line.collect]
      split
      · rfl
      · exact ih
      · rw [ih]
        cases Line.collect n a <;> cases Line.collect n b <;> rfl

theorem collect_append_eq_ok {a b : List Item} (h : Line.collect n (a ++ b) = .ok ps) :
    ∃ xs ys, Line.collect n a = .ok xs ∧ Line.collect n b = .ok ys ∧ ps = xs ++ ys := by
  rw [collect_append] at h
  cases ha : Line.collect n a with
  | error e => simp [ha, Except.bind] at h
  | ok xs =>
      cases hb : Line.collect n b with
      | error e => simp [ha, hb, Except.bind, Except.map] at h
      | ok ys =>
          simp only [ha, hb, Except.bind, Except.map, Except.ok.injEq] at h
          exact ⟨xs, ys, rfl, rfl, h.symm⟩

/-- Texts that spell tokens can be put on a line of their own. -/
theorem Spells.clean (h : Spells text P) : Clean text := by
  obtain ⟨ps, -, hc⟩ := h 0
  have hok : Line.collect 0 (scan .between 0 text.toList) = .ok ps := by
    have := hc [] 0 ended_nil
    rw [List.append_nil] at this
    rw [this]
    simp [scan, Mode.finish, Line.collect, Except.map]
  constructor
  · intro hmem
    obtain ⟨as, bs, htext⟩ := List.append_of_mem hmem
    obtain ⟨items, next, hscan⟩ := exists_mode .between 0 as
    rw [htext, hscan] at hok
    obtain ⟨_, _, -, hfeed, -⟩ := collect_append_eq_ok hok
    exact collect_feed_ne_ok hfeed
  · intro hlast
    obtain ⟨as, htext⟩ := List.getLast?_eq_some_iff.1 hlast
    obtain ⟨items, next, hscan⟩ := exists_mode .between 0 as
    rw [htext, hscan] at hok
    obtain ⟨xs, ys, hxs, hys, rfl⟩ := collect_append_eq_ok hok
    obtain ⟨start, seen, rfl⟩ := collect_return_eq_ok hys
    -- A comment would take in what follows the text, a token among it.
    have hmore := hc [' ', '#'] 0 (ended_cons (by decide))
    rw [htext, List.append_assoc, hscan, collect_append, hxs] at hmore
    cases hys
    have hcomment : Line.collect 0 (scan (.comment start seen) (0 + Text.utf8Size as)
        (['\r'] ++ [' ', '#'])) = .ok [] := rfl
    have hname (pos : Nat) : ∃ p, Line.collect 0 (scan .between pos [' ', '#']) = .ok [p] :=
      ⟨_, rfl⟩
    obtain ⟨p, hp⟩ := hname (0 + Text.utf8Size text.toList)
    rw [htext] at hp
    rw [hcomment, hp] at hmore
    simp [Except.bind, Except.map] at hmore

theorem Spells.ne_empty (h : Spells text P) (hP : ¬ P []) : text ≠ "" := by
  rintro rfl
  obtain ⟨ps, hps, hc⟩ := h 0
  have hnil := hc [] 0 ended_nil
  have : ps = [] := by simpa [scan, Mode.finish, Line.collect, Except.map] using hnil
  exact hP (this ▸ hps)

/-! ## Joining lines -/

namespace Text

variable {l rest : List Char}

theorem lines_append_feed (hf : '\n' ∉ l) (hr : l.getLast? ≠ some '\r') :
    lines (l ++ '\n' :: rest) = l :: lines rest := by
  induction l with
  | nil => simp [lines]
  | cons c l ih =>
      have hc : c ≠ '\n' := fun h => hf (h ▸ .head _)
      have hreturn : ∀ more, c = '\r' → l ++ '\n' :: rest = '\n' :: more → False := by
        rintro more rfl hl
        cases l with
        | nil => exact hr rfl
        | cons d l =>
            cases hl
            exact hf (.tail _ (.head _))
      have hlast : l.getLast? ≠ some '\r' := by
        cases l with
        | nil => simp
        | cons d l => simpa using hr
      have hl := ih (fun h => hf (.tail _ h)) hlast
      rw [List.cons_append, lines.eq_4 _ _ (by simpa using hc) (by simpa using hreturn), hl]

theorem lines_flatMap_feed {ls : List (List Char)}
    (h : ∀ l ∈ ls, '\n' ∉ l ∧ l.getLast? ≠ some '\r') :
    lines (ls.flatMap (· ++ ['\n'])) = ls := by
  induction ls with
  | nil => rfl
  | cons l ls ih =>
      obtain ⟨hf, hr⟩ := h l (.head _)
      rw [List.flatMap_cons, List.append_assoc, List.singleton_append, lines_append_feed hf hr,
        ih fun l hl => h l (.tail _ hl)]

theorem lines_of_not_mem (hf : '\n' ∉ l) (hne : l ≠ []) : lines l = [l] := by
  induction l with
  | nil => exact absurd rfl hne
  | cons c l ih =>
      have hc : c ≠ '\n' := fun h => hf (h ▸ .head _)
      have hl : '\n' ∉ l := fun h => hf (.tail _ h)
      have hreturn : ∀ more, c = '\r' → l = '\n' :: more → False := by
        rintro more - rfl
        exact hl (.head _)
      rw [lines.eq_4 _ _ (by simpa using hc) hreturn]
      cases l with
      | nil => rfl
      | cons d l => rw [ih hl (by simp)]

theorem lines_intercalate {texts : List String} (hc : ∀ t ∈ texts, Clean t)
    (hlast : texts.getLast? ≠ some "") :
    lines ("\n".intercalate texts).toList = texts.map String.toList := by
  induction texts with
  | nil => rfl
  | cons t texts ih =>
      have ht := hc t (.head _)
      cases texts with
      | nil =>
          have hne : t.toList ≠ [] := by simpa using hlast
          rw [String.intercalate_singleton, lines_of_not_mem ht.noFeed hne]
          rfl
      | cons t' texts =>
          have hrest := ih (fun x hx => hc x (.tail _ hx)) (by simpa using hlast)
          rw [String.intercalate_cons_cons, String.toList_append, String.toList_append,
            show "\n".toList = ['\n'] by decide, List.append_assoc, List.singleton_append,
            lines_append_feed ht.noFeed ht.noReturn, hrest]
          rfl

end Text

/-! ## Programs line by line -/

variable {α : Type} {xs : List α} {line : α → String} {R : α → List Piece → Prop}
  {Q : α → Stmt → Prop}

theorem Line.readFrom_cons {n : Nat} {cs : List Char} {texts : List (List Char)}
    {lines : List Line} : Line.readFrom n (cs :: texts) = .ok lines ↔
      ∃ l more, Line.read n cs = .ok l ∧ Line.readFrom (n + 1) texts = .ok more ∧
        lines = l :: more := by
  simp only [readFrom, bind_eq_ok, pure_eq_ok]
  constructor
  · rintro ⟨l, hl, more, hmore, rfl⟩
    exact ⟨l, more, hl, hmore, rfl⟩
  · rintro ⟨l, more, hl, hmore, rfl⟩
    exact ⟨l, hl, more, hmore, rfl⟩

theorem Line.exists_text {n : Nat} {texts : List (List Char)} {lines : List Line} {l : Line}
    (h : Line.readFrom n texts = .ok lines) (hl : l ∈ lines) : ∃ k cs, Line.read k cs = .ok l := by
  induction texts generalizing n lines with
  | nil =>
      cases h
      cases hl
  | cons cs texts ih =>
      obtain ⟨line, more, hline, hmore, rfl⟩ := Line.readFrom_cons.1 h
      rcases List.mem_cons.1 hl with rfl | hl
      · exact ⟨n, cs, hline⟩
      · exact ih hmore hl

theorem Line.exists_read {n : Nat} {texts : List (List Char)} {lines : List Line} {cs : List Char}
    (h : Line.readFrom n texts = .ok lines) (hc : cs ∈ texts) : ∃ k l, Line.read k cs = .ok l := by
  induction texts generalizing n lines with
  | nil => cases hc
  | cons cs' texts ih =>
      obtain ⟨line, more, hline, hmore, rfl⟩ := Line.readFrom_cons.1 h
      rcases List.mem_cons.1 hc with rfl | hc
      · exact ⟨n, line, hline⟩
      · exact ih hmore hc

theorem Line.readFrom_of_spells (h : ∀ x ∈ xs, Spells (line x) (R x)) (n : Nat) :
    ∃ lines, Line.readFrom n ((xs.map line).map String.toList) = .ok lines ∧
      List.Forall₂ (fun x l => R x l.tokens) xs lines := by
  induction xs generalizing n with
  | nil => exact ⟨[], rfl, .nil⟩
  | cons x xs ih =>
      obtain ⟨ps, hR, hread⟩ := (h x (.head _)).read
      obtain ⟨lines, hl, hlines⟩ := ih (fun y hy => h y (.tail _ hy)) (n + 1)
      exact ⟨⟨n, ps⟩ :: lines, readFrom_cons.2 ⟨_, _, hread n, hl, rfl⟩, .cons hR hlines⟩

/-- Whether tokens are read as a statement with a property. -/
def Stmt.Reads (Q : Stmt → Prop) (ps : List Piece) : Prop :=
  ∀ n, ∃ s, Stmt.read ⟨n, ps⟩ = .ok (some s) ∧ Q s

theorem Stmt.readAll_of_reads {lines : List Line}
    (h : List.Forall₂ (fun x l => Reads (Q x) l.tokens) xs lines)
    (hend : ∀ x ∈ xs.dropLast, ∀ s, Q x s → s.isEnd = false) :
    ∃ stmts, readAll lines = .ok stmts ∧ List.Forall₂ Q xs stmts := by
  induction h with
  | nil => exact ⟨[], rfl, .nil⟩
  | @cons x l xs lines hx hrest ih =>
      obtain ⟨s, hs, hQ⟩ := hx l.number
      have hrest' : ∀ y ∈ xs.dropLast, ∀ s, Q y s → s.isEnd = false := fun y hy =>
        hend y (by cases xs with | nil => cases hy | cons z zs => exact .tail _ hy)
      obtain ⟨stmts, hss, hQs⟩ := ih hrest'
      cases he : s.isEnd with
      | false =>
          have hall := readAll_cons.2 (.inr ⟨s, hs, .inr ⟨he, stmts, hss, rfl⟩⟩)
          exact ⟨s :: stmts, hall, .cons hQ hQs⟩
      | true =>
          cases xs with
          | nil =>
              cases hrest
              exact ⟨[s], readAll_cons.2 (.inr ⟨s, hs, .inl ⟨he, rfl⟩⟩), .cons hQ .nil⟩
          | cons y ys =>
              have := hend x (.head _) s hQ
              rw [he] at this
              cases this

/-- A text of which the first line spells an origin and the others statements is a program. -/
theorem Program.read_of_spells {header : String} {orig : Word}
    (hheader : Spells header fun ps => (Origin.operands ps >>= Origin.address) = .ok orig)
    (hx : ∀ x ∈ xs, Spells (line x) (Stmt.Reads (Q x)))
    (hend : ∀ x ∈ xs.dropLast, ∀ s, Q x s → s.isEnd = false) :
    ∃ p, Program.read ("\n".intercalate (header :: xs.map line)) = .ok p ∧ p.orig = orig ∧
      List.Forall₂ Q xs p.stmts := by
  obtain ⟨ps, hps, hread⟩ := hheader.read
  obtain ⟨lines, hl, hlines⟩ := Line.readFrom_of_spells hx 2
  obtain ⟨stmts, hs, hQ⟩ := Stmt.readAll_of_reads hlines hend
  have hclean : ∀ t ∈ header :: xs.map line, Clean t :=
    List.forall_mem_cons.2 ⟨hheader.clean, List.forall_mem_map.2 fun x hx' => (hx x hx').clean⟩
  have hne : ∀ t ∈ header :: xs.map line, t ≠ "" := by
    refine List.forall_mem_cons.2 ⟨hheader.ne_empty (by rintro ⟨⟩), ?_⟩
    refine List.forall_mem_map.2 fun x hx' => (hx x hx').ne_empty fun h => ?_
    obtain ⟨s, hs, -⟩ := h 0
    cases hs
  have hlast : (header :: xs.map line).getLast? ≠ some "" := fun h =>
    hne _ (List.mem_of_getLast? h) rfl
  have hall : Line.readAll ("\n".intercalate (header :: xs.map line)) = .ok (⟨1, ps⟩ :: lines) := by
    rw [Line.readAll, Text.lines_intercalate hclean hlast]
    exact Line.readFrom_cons.2 ⟨_, _, hread 1, hl, rfl⟩
  have hfind : Origin.find (⟨1, ps⟩ :: lines) = .ok ⟨orig, 1⟩ := by
    have hempty : Line.isEmpty ⟨1, ps⟩ = false := by
      cases ps with
      | nil => cases hps
      | cons p ps => rfl
    simp only [Origin.find, Origin.findFrom, hempty, Bool.false_eq_true, ↓reduceIte, hps]
  exact ⟨⟨orig, stmts⟩, Program.read_eq_ok.2 ⟨_, _, hall, hfind, hs, rfl⟩, rfl, hQ⟩

end Lc3
