import Lc3.Proofs.Letters
import Lc3.Proofs.Likeness
import Lc3.Proofs.Spacing

/-!
# The case of words

Numbers, and the words that name commands, can be written with capital or small letters. Main
statement: a line in which the case of such a word is changed is read as a line that is alike.
-/

namespace Lc3

open Token

variable {before word word' after text text' : List Char} {ps qs : List Piece}
  {us vs ws : List Spelling} {t : Token} {n : Nat} {strict : Prop}

/-! ## Words in a line -/

/-- A run that stands as a word between two parts of a line, outside of strings and comments. -/
structure WordAt (before word after : List Char) : Prop where
  outside : Outside before
  starts : ∀ c ∈ before.getLast?, isRunChar c = false
  ne_nil : word ≠ []
  run : ∀ c ∈ word, isRunChar c = true
  stops : StopsRun after

/-- At most a label stands at the start of a line. -/
def AtCommand (before : List Char) : Prop :=
  ∃ l, Line.read 1 before = .ok l ∧
    (l.tokens = [] ∨ ∃ p, l.tokens = [p] ∧ p.value.isCommand = false)

/-- A line in which the letters of a number, or of a word that names a command, are changed to other
case. -/
inductive Recased : List Char → List Char → Prop
  | literal {before word word' after : List Char} {z : Int} (hw : WordAt before word after)
      (hs : SameLetters word word') (ht : ofRun word = .ok (.literal z)) :
      Recased (before ++ word ++ after) (before ++ word' ++ after)
  | mnemonic {before word word' after : List Char} {m : Mnemonic} (hw : WordAt before word after)
      (hs : SameLetters word word') (hc : AtCommand before) (ht : ofRun word = .ok (.mnemonic m)) :
      Recased (before ++ word ++ after) (before ++ word' ++ after)
  | directive {before word word' after : List Char} {d : String} (hw : WordAt before word after)
      (hs : SameLetters word word') (hc : AtCommand before)
      (ht : ofRun word = .ok (.directive d)) :
      Recased (before ++ word ++ after) (before ++ word' ++ after)

theorem WordAt.parted (h : WordAt before word after) : Parted before (word ++ after) :=
  fun c hc hrun => by cases (h.starts c hc).symm.trans hrun

theorem WordAt.recase (h : WordAt before word after) (hs : SameLetters word word') :
    WordAt before word' after :=
  ⟨h.outside, h.starts, hs.ne_nil h.ne_nil, hs.isRunChar h.run, h.stops⟩

theorem WordAt.splits (h : WordAt before word after) (ht : ofRun word = .ok t) :
    Splits (before ++ word ++ after) ws ↔ ∃ us vs, Splits before us ∧ Splits after vs ∧
      ws = us ++ (t, String.ofList word) :: vs := by
  have hword : Splits word [(t, String.ofList word)] := by
    have := Splits.run h.ne_nil h.run (show StopsRun [] from nofun) ht .nil
    rwa [List.append_nil] at this
  have houtside : Outside word := Context.after_of_isRunChar h.run
  rw [List.append_assoc, splits_append h.outside h.parted]
  constructor
  · rintro ⟨us, ws', hu, hrest, rfl⟩
    obtain ⟨xs, vs, hx, hv, rfl⟩ :=
      (splits_append houtside (parted_of_stopsRun h.stops)).1 hrest
    obtain rfl := hx.unique hword
    exact ⟨us, vs, hu, hv, rfl⟩
  · rintro ⟨us, vs, hu, hv, rfl⟩
    exact ⟨us, _, hu, hword.join hv houtside (parted_of_stopsRun h.stops), rfl⟩

theorem WordAt.replace {t' : Token} (h : WordAt before word after) (hs : SameLetters word word')
    (ht : ofRun word = .ok t) (ht' : ofRun word' = .ok t')
    (hw : Splits (before ++ word ++ after) ws) :
    ∃ us vs, Splits before us ∧ ws = us ++ (t, String.ofList word) :: vs ∧
      Splits (before ++ word' ++ after) (us ++ (t', String.ofList word') :: vs) := by
  obtain ⟨us, vs, hu, hv, rfl⟩ := (h.splits ht).1 hw
  exact ⟨us, vs, hu, rfl, ((h.recase hs).splits ht').2 ⟨us, vs, hu, hv, rfl⟩⟩

/-! ## Pieces with the same spelling -/

theorem forall₂_like (h : qs.map Piece.spelling = ps.map Piece.spelling) :
    List.Forall₂ (Piece.Like strict) ps qs := by
  have heq : List.Forall₂ (· = ·) (ps.map Piece.spelling) (qs.map Piece.spelling) := by
    rw [h]
    exact List.forall₂_refl _
  rw [List.forall₂_map_left_iff, List.forall₂_map_right_iff] at heq
  exact heq.imp fun p q hpq =>
    ⟨(congrArg Prod.fst hpq).symm, .inl (congrArg Prod.snd hpq).symm⟩

theorem map_spelling_eq_append {text : String}
    (h : ps.map Piece.spelling = us ++ (t, text) :: vs) :
    ∃ as p bs, ps = as ++ p :: bs ∧ as.map Piece.spelling = us ∧ p.value = t ∧
      bs.map Piece.spelling = vs := by
  obtain ⟨as, rest, rfl, ha, hrest⟩ := List.map_eq_append_iff.1 h
  obtain ⟨p, bs, rfl, hp, hb⟩ := List.map_eq_cons_iff.1 hrest
  exact ⟨as, p, bs, rfl, ha, congrArg Prod.fst hp, hb⟩

theorem AtCommand.cases (h : AtCommand before) (hu : Splits before (ps.map Piece.spelling)) :
    ps = [] ∨ ∃ p, ps = [p] ∧ p.value.isCommand = false := by
  obtain ⟨l, hl, htokens⟩ := h
  have hmap := hu.unique (Line.splits_of_read hl)
  rcases htokens with hnil | ⟨q, hq, hc⟩
  · rw [hnil] at hmap
    exact .inl (List.map_eq_nil_iff.1 hmap)
  · rw [hq] at hmap
    obtain ⟨p, rfl, hp⟩ := List.map_eq_singleton_iff.1 hmap
    exact .inr ⟨p, rfl, by rw [show p.value = q.value from congrArg Prod.fst hp]; exact hc⟩

theorem AtCommand.like {t' : Token} {s s' : String} (h : AtCommand before)
    (hu : Splits before us) (hp : ps.map Piece.spelling = us ++ (t, s) :: vs)
    (hq : qs.map Piece.spelling = us ++ (t', s') :: vs)
    (hw : ∀ p q : Piece, p.value = t → q.value = t' → p.LikeWord strict q) :
    LikePieces strict ps qs := by
  obtain ⟨as, p, bs, rfl, rfl, hpt, rfl⟩ := map_spelling_eq_append hp
  obtain ⟨as', q, bs', rfl, ha, hqt, hb⟩ := map_spelling_eq_append hq
  have hcommand : LikeCommand strict (p :: bs) (q :: bs') :=
    .cons (hw p q hpt hqt) (forall₂_like hb)
  have hlabel : List.Forall₂ (Piece.Like strict) as as' := forall₂_like ha
  rcases h.cases hu with rfl | ⟨l, rfl, hl⟩
  · cases hlabel
    exact .command hcommand
  · obtain _ | ⟨hlike, ⟨⟩⟩ := hlabel
    exact .label hlike hl hcommand

/-! ## Lines -/

/-- A line in which the case of a word is changed is split into pieces that are alike. -/
theorem Recased.exists_splits (h : Recased text text') (hp : Splits text (ps.map Piece.spelling)) :
    ∃ ws, Splits text' ws ∧
      ∀ qs : List Piece, qs.map Piece.spelling = ws → LikePieces False ps qs := by
  cases h with
  | literal hw hs ht =>
      obtain ⟨us, vs, -, hmap, hsplits⟩ := hw.replace hs ht (hs.ofRun_literal ht) hp
      refine ⟨_, hsplits, fun qs hq => .command (.of_forall₂ ?_)⟩
      obtain ⟨as, p, bs, rfl, rfl, hpt, rfl⟩ := map_spelling_eq_append hmap
      obtain ⟨as', q, bs', rfl, ha, hqt, hb⟩ := map_spelling_eq_append hq
      have hpq : p.Like False q := ⟨hqt.trans hpt.symm, .inr ⟨id, _, hpt⟩⟩
      exact List.rel_append (forall₂_like ha) (.cons hpq (forall₂_like hb))
  | mnemonic hw hs hc ht =>
      obtain ⟨us, vs, hu, hmap, hsplits⟩ := hw.replace hs ht (hs.ofRun_mnemonic ht) hp
      exact ⟨_, hsplits, fun qs hq => hc.like hu hmap hq fun p q hp hq => .mnemonic id hp hq⟩
  | directive hw hs hc ht =>
      obtain ⟨d', ht', hd⟩ := hs.ofRun_directive ht
      obtain ⟨us, vs, hu, hmap, hsplits⟩ := hw.replace hs ht ht' hp
      exact ⟨_, hsplits, fun qs hq => hc.like hu hmap hq fun p q hp hq => .directive id hp hq hd⟩

end Lc3
