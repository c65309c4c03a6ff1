import Mathlib.Data.List.Basic
import Lc3.ObjectFile
import Lc3.Proofs.Placement

/-!
# The two passes agree

The layout counts the sizes of statements, and the words of a program come out one after the other.
Main statement: every statement makes as many words as its size says, so a label is bound to the
address of the first word that its statement, or the next one that makes any, comes to.
-/

namespace Lc3.Stmt

/-- How many words the first `i` pieces hold. -/
def emitted (pieces : List (List Word)) (i : Nat) : Nat := (pieces.take i).flatten.length

@[simp] theorem emitted_zero {pieces : List (List Word)} : emitted pieces 0 = 0 := by
  simp [emitted]

@[simp] theorem emitted_succ {ws : List Word} {pieces : List (List Word)} {i : Nat} :
    emitted (ws :: pieces) (i + 1) = ws.length + emitted pieces i := by
  simp [emitted]

/-- A piece of code for each statement before the first `.END`: its own words, made at the address
behind the pieces that went before, and as many as its size says. -/
structure Emission (labels : LabelTable) (addr : Nat) (stmts : List Stmt)
    (pieces : List (List Word)) : Prop where
  length_eq : pieces.length = (body stmts).length
  words_eq : ∀ (i : Nat) (s : Stmt) (ws : List Word), (body stmts)[i]? = some s →
    pieces[i]? = some ws → s.words labels (addr + emitted pieces i) = .ok ws
  size_eq : ∀ (i : Nat) (s : Stmt) (ws : List Word), (body stmts)[i]? = some s →
    pieces[i]? = some ws → ws.length = s.size

variable {labels : LabelTable} {addr : Nat} {s : Stmt} {stmts : List Stmt} {ws : List Word}

/-! ## One statement -/

theorem length_of_directiveWords {d : Directive} (h : d.words labels = .ok ws) :
    ws.length = d.size := by
  cases d with
  | fill t =>
      cases t with
      | offset v => cases h; rfl
      | label l =>
          simp only [Directive.words] at h
          split at h
          · cases h; rfl
          · cases h
  | block n => cases h; simp [Directive.size]
  | string s => cases h; simp [Directive.size]
  | finish => cases h; rfl

theorem length_of_commandWords {c : Command} (h : c.words labels addr = .ok ws) :
    ws.length = c.size := by
  cases c with
  | instr i =>
      simp only [Command.words] at h
      cases hi : i.resolve labels (addr + 1) with
      | error e => simp [hi, Except.map] at h
      | ok instr =>
          rw [hi] at h
          cases h
          rfl
  | directive d => exact length_of_directiveWords h

theorem length_of_words (h : s.words labels addr = .ok ws) : ws.length = s.size := by
  unfold words at h
  unfold size
  cases hc : s.command with
  | none =>
      rw [hc] at h
      cases h
      rfl
  | some c =>
      simp only [hc] at h
      cases hw : c.words labels addr with
      | error e => simp [hw, Except.mapError] at h
      | ok ws' =>
          rw [hw] at h
          cases h
          exact length_of_commandWords hw

/-! ## All statements -/

theorem Emission.nil : Emission labels addr [] [] := by
  constructor <;> simp

theorem Emission.stop {rest : List Stmt} (h : s.isEnd = true) :
    Emission labels addr (s :: rest) [] := by
  constructor <;> simp [body_cons_of_isEnd h]

theorem Emission.cons {rest : List Stmt} {pieces : List (List Word)} (he : s.isEnd = false)
    (hw : s.words labels addr = .ok ws) (h : Emission labels (addr + ws.length) rest pieces) :
    Emission labels addr (s :: rest) (ws :: pieces) where
  length_eq := by simp [body_cons he, h.length_eq]
  words_eq := by
    rintro (_ | i) s' ws' hs hp
    · simp only [body_cons he, List.getElem?_cons_zero, Option.some.injEq] at hs hp
      subst hs hp
      simpa using hw
    · simp only [body_cons he, List.getElem?_cons_succ] at hs hp
      have := h.words_eq i s' ws' hs hp
      rwa [Nat.add_assoc, ← emitted_succ] at this
  size_eq := by
    rintro (_ | i) s' ws' hs hp
    · simp only [body_cons he, List.getElem?_cons_zero, Option.some.injEq] at hs hp
      subst hs hp
      exact length_of_words hw
    · simp only [body_cons he, List.getElem?_cons_succ] at hs hp
      exact h.size_eq i s' ws' hs hp

theorem exists_emission (h : allWords labels addr stmts = .ok ws) :
    ∃ pieces, Emission labels addr stmts pieces ∧ ws = pieces.flatten := by
  induction stmts generalizing addr ws with
  | nil =>
      cases h
      exact ⟨[], .nil, rfl⟩
  | cons s rest ih =>
      rw [allWords] at h
      split at h
      · rename_i he
        cases h
        exact ⟨[], .stop he, rfl⟩
      · rename_i he
        cases hw : s.words labels addr with
        | error e => simp [hw, Bind.bind, Except.bind] at h
        | ok first =>
            cases hm : allWords labels (addr + first.length) rest with
            | error e => simp [hw, hm, Bind.bind, Except.bind] at h
            | ok more =>
                simp only [hw, hm, Bind.bind, Except.bind, pure, Except.pure,
                  Except.ok.injEq] at h
                obtain ⟨pieces, hp, rfl⟩ := ih hm
                exact ⟨first :: pieces, .cons (by simpa using he) hw hp, h.symm⟩

/-- As many words have come out before a statement as the statements before it take up. -/
theorem Emission.emitted_eq {pieces : List (List Word)} (h : Emission labels addr stmts pieces)
    {i : Nat} (hi : i ≤ (body stmts).length) : emitted pieces i = offset stmts i := by
  have hsizes : (pieces.take i).map List.length = (stmts.take i).map size := by
    have htake : stmts.take i = (body stmts).take i := by
      obtain ⟨tail, ht⟩ : body stmts <+: stmts := List.takeWhile_prefix _
      conv_lhs => rw [← ht, List.take_append_of_le_length hi]
    rw [htake]
    refine List.ext_getElem (by simp [h.length_eq]) fun j hj hj' => ?_
    simp only [List.length_map, List.length_take, Nat.lt_min] at hj hj'
    simp only [List.getElem_map, List.getElem_take]
    exact h.size_eq j _ _ (List.getElem?_eq_getElem hj'.2) (List.getElem?_eq_getElem hj.2)
  rw [emitted, List.length_flatten, hsizes, offset, List.sum_eq_foldr, List.foldr_map]

theorem Emission.exists_words {pieces : List (List Word)} (h : Emission labels addr stmts pieces)
    {i : Nat} (hs : (body stmts)[i]? = some s) :
    ∃ ws, s.words labels (addr + offset stmts i) = .ok ws ∧
      ∀ j, j < ws.length → pieces.flatten[offset stmts i + j]? = ws[j]? := by
  obtain ⟨hi, -⟩ := List.getElem?_eq_some_iff.1 hs
  have hp : i < pieces.length := h.length_eq ▸ hi
  refine ⟨pieces[i], ?_, fun j hj => ?_⟩
  · rw [← h.emitted_eq (Nat.le_of_lt hi)]
    exact h.words_eq i s _ hs (List.getElem?_eq_getElem hp)
  · have hsplit : pieces.flatten =
        (pieces.take i).flatten ++ (pieces[i] ++ (pieces.drop (i + 1)).flatten) := by
      rw [← List.flatten_cons, ← List.flatten_append, ← List.drop_eq_getElem_cons hp,
        List.take_append_drop]
    rw [← h.emitted_eq (Nat.le_of_lt hi), emitted, hsplit,
      List.getElem?_append_right (Nat.le_add_right _ _), Nat.add_sub_cancel_left,
      List.getElem?_append_left hj]

end Lc3.Stmt

namespace Lc3.ObjectFile

open Stmt

variable {orig : Word} {stmts : List Stmt} {layout : Layout} {o : ObjectFile}

theorem ofStmts_eq_ok {labels : LabelTable} (h : ofStmts orig stmts labels = .ok o) :
    ∃ words, allWords labels orig.toNat stmts = .ok words ∧ o = ⟨orig, words, labels⟩ := by
  simp only [ofStmts, Bind.bind, Except.bind] at h
  split at h
  · cases h
  · rename_i words hw
    cases h
    exact ⟨words, hw, rfl⟩

theorem addressed_of_le (h : o.orig.toNat + o.words.length ≤ memorySize) :
    o.addressed.map (fun e => e.1.toNat) = List.range' o.orig.toNat o.words.length := by
  refine List.ext_getElem (by simp [addressed]) fun i hi hi' => ?_
  simp only [addressed, List.length_map, List.length_zipIdx] at hi
  simp only [addressed, List.getElem_map, List.getElem_zipIdx, BitVec.toNat_add,
    BitVec.toNat_ofNat, List.getElem_range']
  have : memorySize = 2 ^ 16 := rfl
  omega

theorem exists_emission (hl : Layout.ofStmts orig stmts = .ok layout)
    (ho : ofStmts orig stmts layout.labels = .ok o) :
    ∃ pieces, Emission layout.labels orig.toNat stmts pieces ∧
      o = ⟨orig, pieces.flatten, layout.labels⟩ ∧ pieces.flatten.length = layout.length := by
  obtain ⟨words, hw, rfl⟩ := ofStmts_eq_ok ho
  obtain ⟨pieces, hp, rfl⟩ := Stmt.exists_emission hw
  refine ⟨pieces, hp, rfl, ?_⟩
  rw [Layout.length_of_ofStmts hl, ← hp.emitted_eq (Nat.le_refl _), emitted,
    List.take_of_length_le (Nat.le_of_eq hp.length_eq)]

/-- If the layout and the code of statements exist, the code is as long as the layout says and fits
into memory, it is made statement by statement, each making as many words as it is laid out for,
and a label is bound to the origin plus the words that came out before its statement. -/
theorem passes_agree (hl : Layout.ofStmts orig stmts = .ok layout)
    (ho : ofStmts orig stmts layout.labels = .ok o) :
    o.orig = orig ∧ o.labels = layout.labels ∧ o.words.length = layout.length ∧
      orig.toNat + layout.length ≤ memorySize ∧
      o.addressed.map (fun e => e.1.toNat) = List.range' orig.toNat layout.length ∧
      ∃ pieces, Emission layout.labels orig.toNat stmts pieces ∧ o.words = pieces.flatten ∧
        ∀ name w, layout.labels.addrOf? name = some w ↔
          ∃ i, Marks stmts i name ∧ w.toNat = orig.toNat + emitted pieces i := by
  obtain ⟨pieces, hp, rfl, hlen⟩ := exists_emission hl ho
  have hend := Layout.end_le_of_ofStmts hl
  have haddr := addressed_of_le (o := ⟨orig, pieces.flatten, layout.labels⟩)
    (by simpa [hlen] using hend)
  refine ⟨rfl, rfl, hlen, hend, by simpa only [hlen] using haddr, pieces, hp, rfl, ?_⟩
  intro name w
  have hi {i : Nat} (h : Marks stmts i name) : emitted pieces i = offset stmts i :=
    hp.emitted_eq h.1
  rw [Layout.addrOf?_of_ofStmts hl]
  constructor
  · rintro ⟨i, hm, hw⟩
    exact ⟨i, hm, by rw [hw, hi hm]⟩
  · rintro ⟨i, hm, hw⟩
    exact ⟨i, hm, by rw [hw, hi hm]⟩

/-- A label on a line of its own, a block of no words, a surrogate pair, a label on `.END`, and a
statement behind it. -/
theorem passes_agree_surrogates :
    let stmts : List Stmt :=
      [⟨some ⟨"A", .whole⟩, none, 1⟩, ⟨none, some (.directive (.block 0)), 2⟩,
       ⟨none, some (.directive (.string "a😀")), 3⟩,
       ⟨some ⟨"B", .whole⟩, some (.directive (.fill (.label ⟨"C", .whole⟩))), 4⟩,
       ⟨some ⟨"C", .whole⟩, some (.directive .finish), 5⟩, ⟨none, some (.instr .ret), 6⟩]
    let labels : LabelTable := .ofList [("A", 0xFF00), ("B", 0xFF04), ("C", 0xFF05)]
    let words : List Word := [0x61, 0xD83D, 0xDE00, 0, 0xFF05]
    Layout.ofStmts 0xFF00 stmts = .ok ⟨labels, 5⟩ ∧
      ofStmts 0xFF00 stmts labels = .ok ⟨0xFF00, words, labels⟩ ∧
      words.length = 5 ∧
        ∃ pieces, Emission labels 0xFF00 stmts pieces ∧ words = pieces.flatten := by
  intro stmts labels words
  have hl : Layout.ofStmts 0xFF00 stmts = .ok ⟨labels, 5⟩ := by decide
  have ho : ofStmts 0xFF00 stmts labels = .ok ⟨0xFF00, words, labels⟩ := by decide
  obtain ⟨-, -, hlen, -, -, pieces, hp, hw, -⟩ := passes_agree hl ho
  exact ⟨hl, ho, hlen, pieces, hp, hw⟩

end Lc3.ObjectFile
