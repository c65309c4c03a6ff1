import Lc3.ObjectFile.Bytes
import Lc3.ObjectFile.Symbols
import Lc3.Proofs.Codec
import Lc3.Proofs.Letters
import Lc3.Proofs.Passes
import Lc3.Proofs.Splitting

/-!
# Exported files

Object code is written as bytes and the labels as a table of text. Main statement: both are read
back as what was written, whatever program was assembled, because the names of labels are words of
letters, digits and underscores.
-/

namespace Lc3

open Token

/-! ## Bytes -/

namespace Word

variable {bs : List Byte} {ws : List Word}

theorem bytes_append (high low : Byte) : Word.bytes (high ++ low) = [high, low] := by
  simp only [bytes, List.cons.injEq, and_true]
  constructor
  · exact BitVec.extractLsb'_append_eq_left
  · exact BitVec.extractLsb'_append_eq_right

theorem append_bytes (w : Word) : w.extractLsb' 8 8 ++ w.extractLsb' 0 8 = w :=
  (extract_append (show 8 = 0 + 8 from rfl)).trans BitVec.extractLsb'_eq_self

theorem ofBytes?_bytes : ofBytes? (ws.flatMap bytes) = some ws := by
  induction ws with
  | nil => rfl
  | cons w ws ih =>
      rw [List.flatMap_cons, bytes, List.cons_append, List.cons_append, List.nil_append, ofBytes?,
        ih, append_bytes]
      rfl

theorem bytes_of_ofBytes? (h : ofBytes? bs = some ws) : ws.flatMap bytes = bs := by
  fun_induction ofBytes? bs generalizing ws with
  | case1 =>
      cases h
      rfl
  | case2 => cases h
  | case3 high low rest ih =>
      obtain ⟨more, hmore, rfl⟩ := Option.map_eq_some_iff.1 h
      rw [List.flatMap_cons, ih hmore, bytes_append]
      rfl

theorem exists_ofBytes? : (∃ ws, ofBytes? bs = some ws) ↔ bs.length % 2 = 0 := by
  fun_induction ofBytes? bs with
  | case1 => simp
  | case2 => simp
  | case3 high low rest ih =>
      rw [List.length_cons, List.length_cons, Nat.add_assoc, Nat.add_mod_right, ← ih]
      simp

end Word

namespace ObjectFile

variable {bs : List Byte} {orig : Word} {words : List Word}

theorem ofBytes?_eq_some : ofBytes? bs = some (orig, words) ↔
    Word.ofBytes? bs = some (orig :: words) := by
  unfold ofBytes?
  split
  · rename_i h
    simp [h]
  · rename_i h
    simp only [reduceCtorEq, false_iff]
    exact h orig words

theorem ofBytes?_bytes (o : ObjectFile) : ofBytes? o.bytes = some (o.orig, o.words) :=
  ofBytes?_eq_some.2 Word.ofBytes?_bytes

theorem bytes_of_ofBytes? (h : ofBytes? bs = some (orig, words)) (labels : LabelTable) :
    bytes ⟨orig, words, labels⟩ = bs :=
  Word.bytes_of_ofBytes? (ofBytes?_eq_some.1 h)

theorem exists_ofBytes? : (∃ r, ofBytes? bs = some r) ↔ bs ≠ [] ∧ bs.length % 2 = 0 := by
  rw [← Word.exists_ofBytes?]
  constructor
  · rintro ⟨⟨orig, words⟩, h⟩
    refine ⟨?_, _, ofBytes?_eq_some.1 h⟩
    rintro rfl
    cases ofBytes?_eq_some.1 h
  · rintro ⟨hne, ws, h⟩
    cases ws with
    | nil => exact absurd (Word.bytes_of_ofBytes? h).symm hne
    | cons orig words => exact ⟨_, ofBytes?_eq_some.2 h⟩

end ObjectFile

/-! ## Names of labels -/

/-- The names that a label can have: words of letters, digits and underscores, which are neither
mnemonics, in whatever case, nor numbers. -/
structure LabelName (name : String) : Prop where
  ne_empty : name ≠ ""
  chars : ∀ c ∈ name.toList, c.isAlphanum = true ∨ c = '_'
  not_mnemonic : ∀ m : Mnemonic, name.toList.map Char.toUpper ≠ m.name.toList
  not_literal : Numeral.literal? name.toList = none

variable {c : Char} {run : List Char} {name : String} {source : String} {o : ObjectFile}

theorem Mnemonic.mem_all (m : Mnemonic) : m ∈ all := by
  cases m <;> first | decide | (rename_i x; cases x <;> decide)

theorem Mnemonic.isUpper_of_mem {m : Mnemonic} (h : c ∈ m.name.toList) : c.isUpper = true := by
  have hall : ∀ m ∈ all, m.name.toList.all Char.isUpper = true := by decide
  exact List.all_eq_true.1 (hall m m.mem_all) c h

theorem LabelName.isBlank_of_mem (h : LabelName name) (hc : c ∈ name.toList) :
    Text.isBlank c = false :=
  Token.isBlank_of_isNameChar (by simpa [isNameChar] using h.chars c hc)

theorem Mnemonic.ofName?_ne_none {m : Mnemonic} {s : String} (h : m.name = Text.upper s) :
    ofName? s ≠ none := by
  intro hnone
  have := List.find?_eq_none.1 hnone m m.mem_all
  simp [h] at this

theorem Token.reg?_eq_some {r : Reg} (h : reg? run = some r) :
    ∃ a d : Char, run = [a, d] ∧ (a = 'R' ∨ a = 'r') ∧ d.isDigit = true := by
  unfold reg? at h
  split at h
  · split at h
    · rename_i a d hc
      refine ⟨a, d, rfl, hc.1, ?_⟩
      have hle : '7' ≤ '9' := by decide
      exact Char.isDigit_iff_toNat.2 ⟨hc.2.1, Char.le_trans hc.2.2 hle⟩
    · cases h
  · cases h

theorem Token.isUpper_toUpper_of_isDigit (h : c.isDigit = true) : c.toUpper.isUpper = false := by
  have hdigit : 48 ≤ c.toNat ∧ c.toNat ≤ 57 := Char.isDigit_iff_toNat.1 h
  rcases Char.toUpper_cases c with ⟨hupper, -⟩ | ⟨hlower, -⟩
  · rw [hupper, Bool.eq_false_iff, ne_eq, Char.isUpper_iff]
    omega
  · omega

theorem LabelName.of_ofRun {t : Token} (hne : name ≠ "") (h : ofRun name.toList = .ok t)
    (ht : (∃ x, t = .name x) ∨ ∃ r, t = .reg r) : LabelName name := by
  cases Token.of_ofRun h with
  | name hl hr hn hm =>
      rw [String.ofList_toList] at hm
      have hchars : ∀ c ∈ name.toList, c.isAlphanum = true ∨ c = '_' := by
        simpa [isNameChar] using hn
      refine ⟨hne, hchars, fun m heq => ?_, hl⟩
      have hupper := Text.upper_ofList hn
      rw [heq, String.ofList_toList, String.ofList_toList] at hupper
      exact Mnemonic.ofName?_ne_none hupper.symm hm
  | reg hl hr =>
      obtain ⟨a, d, hname, ha, hd⟩ := Token.reg?_eq_some hr
      refine ⟨hne, ?_, fun m heq => ?_, hl⟩
      · rw [hname]
        rcases ha with rfl | rfl <;> simp [Char.isAlphanum, hd]
      · -- A digit stays a digit in upper case, and no mnemonic has one.
        have hmem : d.toUpper ∈ m.name.toList := by simp [← heq, hname]
        cases (Mnemonic.isUpper_of_mem hmem).symm.trans (Token.isUpper_toUpper_of_isDigit hd)
  | literal | mnemonic | directive | unknown => rcases ht with ⟨_, ⟨⟩⟩ | ⟨_, ⟨⟩⟩

theorem LabelName.of_read {n : Nat} {text : List Char} {l : Line} {s : Stmt} {label : Label}
    (hl : Line.read n text = .ok l) (hs : Stmt.read l = .ok (some s)) (h : s.label = some label) :
    LabelName label.name := by
  obtain ⟨_, _, _, _, _, _, rfl⟩ | ⟨first, rest, label', c?, ht, -, hread, -, rfl⟩ :=
    Stmt.read_eq_some.1 hs
  · cases h
  · cases h
    obtain ⟨hv, rfl⟩ := Stmt.readLabel_eq_ok.1 hread
    have hplain := Line.plain_of_read hl first (by simp [ht])
    generalize hw : Piece.spelling first = w at hplain
    cases hplain with
    | run hne hrun hof =>
        cases hw
        exact .of_ofRun hne hof hv
    | string hs =>
        obtain ⟨hstring, -⟩ := Prod.ext_iff.1 hw
        rcases hv with ⟨x, hx⟩ | ⟨r, hr⟩
        · cases hx.symm.trans hstring
        · cases hr.symm.trans hstring

/-- Every label of a program that is assembled has such a name. -/
theorem ObjectFile.labelName_of_assemble (h : assemble source = .ok o) :
    ∀ e ∈ o.labels.entries, LabelName e.2 := by
  simp only [assemble, ofProgram, bind_eq_ok] at h
  obtain ⟨p, hp, layout, hlayout, h⟩ := h
  obtain ⟨words, -, rfl⟩ := ofStmts_eq_ok h
  obtain ⟨lines, origin, hlines, -, hread, -⟩ := Program.read_eq_ok.1 hp
  intro e he
  rw [Layout.mem_walk (Layout.walk_of_ofStmts hlayout)] at he
  obtain ⟨i, ⟨-, s, label, hs, hlabel, hname⟩, -⟩ := he.resolve_left (by simp)
  obtain ⟨l, hl, hsl⟩ := Stmt.exists_line hread (List.mem_of_getElem? hs)
  obtain ⟨n, text, htext⟩ := Line.exists_text hlines (List.mem_of_mem_drop hl)
  exact hname ▸ .of_read htext hsl hlabel

/-! ## The table as text -/

section Blanks

variable {cs ds : List Char}

theorem Text.trimEnd_append_space : trimEnd (cs ++ [' ']) = trimEnd cs := by
  simp [trimEnd, show isBlank ' ' = true by decide]

theorem Text.trimEnd_append_spaces {n : Nat} :
    trimEnd (cs ++ List.replicate n ' ') = trimEnd cs := by
  induction n with
  | zero => simp
  | succ n ih =>
      rw [List.replicate_succ', ← List.append_assoc, trimEnd_append_space, ih]

theorem Text.trimEnd_of_last (h : ∀ c ∈ cs.getLast?, isBlank c = false) : trimEnd cs = cs := by
  cases hc : cs.reverse with
  | nil =>
      obtain rfl := List.reverse_eq_nil_iff.1 hc
      rfl
  | cons c rest =>
      have hlast : isBlank c = false := h c (by rw [List.getLast?_eq_head?_reverse, hc]; rfl)
      rw [trimEnd, hc, List.dropWhile_cons_of_neg (by simp [hlast]), ← hc, List.reverse_reverse]

theorem LabelTable.cutLastSpace?_append (h : ' ' ∉ ds) :
    cutLastSpace? (cs ++ ' ' :: ds) = some (cs, ds) := by
  have hne : ∀ c ∈ ds.reverse, decide (c ≠ ' ') = true := by
    rintro c hc
    have hne : c ≠ ' ' := fun heq => h (heq ▸ List.mem_reverse.1 hc)
    simpa using hne
  have hsplit : (cs ++ ' ' :: ds).reverse = ds.reverse ++ ' ' :: cs.reverse := by simp
  rw [cutLastSpace?, hsplit, List.dropWhile_append_of_pos hne, List.takeWhile_append_of_pos hne]
  simp

end Blanks

namespace LabelTable

variable {e : Word × String} {es : List (Word × String)} {t : LabelTable}

/-- What stands behind the tab in the line of a binding. -/
def entryField (e : Word × String) : List Char :=
  e.2.toList.rightpad 16 ' ' ++ ' ' :: ' ' :: (Text.hex 4 e.1.toNat).toList

/-- The line of a binding, without its ending. -/
def entryLine (e : Word × String) : List Char := '/' :: '/' :: '\t' :: entryField e

theorem toList_entryText : (entryText e).toList = entryLine e ++ ['\n'] := by
  simp [entryText, entryLine, entryField]

theorem isRunChar_of_mem_hex {n : Nat} (hc : c ∈ (Text.hex 4 n).toList) : isRunChar c = true :=
  Numeral.isRunChar_of_hex Numeral.natural?_hex (.tail _ hc)

theorem isBlank_of_isRunChar (h : isRunChar c = true) : Text.isBlank c = false := by
  simp only [isRunChar, Bool.not_eq_true', Bool.or_eq_false_iff] at h
  exact h.1.1.1

theorem address?_hex (w : Word) : address? (Text.hex 4 w.toNat).toList = some w := by
  have hnat : Numeral.natural? 16 (Text.hex 4 w.toNat).toList = some w.toNat :=
    Numeral.natural?_hex
  unfold address?
  split
  · rename_i rest heq
    have hdigit := Numeral.isSome_of_natural? hnat (heq ▸ List.mem_cons_self)
    exact absurd hdigit (by decide)
  · simp only [hnat]
    rw [if_pos (show w.toNat < memorySize from w.isLt), BitVec.ofNat_toNat, BitVec.setWidth_eq]

theorem isBlank_of_last (h : c ∈ (entryField e).getLast?) : Text.isBlank c = false := by
  have hnat : Numeral.natural? 16 (Text.hex 4 e.1.toNat).toList = some e.1.toNat :=
    Numeral.natural?_hex
  have hne : (Text.hex 4 e.1.toNat).toList ≠ [] := by
    intro hnil
    rw [hnil] at hnat
    cases hnat
  have hsplit : entryField e =
      e.2.toList.rightpad 16 ' ' ++ [' ', ' '] ++ (Text.hex 4 e.1.toNat).toList := by
    simp [entryField]
  rw [hsplit, List.getLast?_append_of_ne_nil _ hne] at h
  exact isBlank_of_isRunChar (isRunChar_of_mem_hex (List.mem_of_getLast? h))

theorem trimEnd_rightpad (h : LabelName name) :
    Text.trimEnd (name.toList.rightpad 16 ' ' ++ [' ']) = name.toList := by
  rw [Text.trimEnd_append_space, List.rightpad, Text.trimEnd_append_spaces]
  exact Text.trimEnd_of_last fun c hc => h.isBlank_of_mem (List.mem_of_getLast? hc)

/-- The binding of a line: the address behind the last space, and the name before the padding. -/
theorem entry?_entryField (h : LabelName e.2) : entry? (entryField e) = some (e.2, e.1) := by
  have hspace : ' ' ∉ (Text.hex 4 e.1.toNat).toList := fun hc =>
    absurd (isRunChar_of_mem_hex hc) (by decide)
  have hsplit : entryField e =
      (e.2.toList.rightpad 16 ' ' ++ [' ']) ++ ' ' :: (Text.hex 4 e.1.toNat).toList := by
    simp [entryField]
  have hcut : cutLastSpace? (entryField e) =
      some (e.2.toList.rightpad 16 ' ' ++ [' '], (Text.hex 4 e.1.toNat).toList) := by
    rw [hsplit, cutLastSpace?_append hspace]
  have hne : e.2.toList ≠ [] := by simpa using h.ne_empty
  unfold entry?
  simp only [Text.trimEnd_of_last fun _ => isBlank_of_last, hcut, trimEnd_rightpad h, address?_hex]
  simp

theorem inserted_last (h : ∀ f ∈ es, f.1 < e.1 ∧ f.2 ≠ e.2) : inserted es e.2 e.1 = es ++ [e] := by
  have hbefore : es.filter (fun f => f.1 < e.1 ∧ f.2 ≠ e.2) = es :=
    List.filter_eq_self.2 fun f hf => by simpa using h f hf
  have hbehind : es.filter (fun f => e.1 < f.1 ∧ f.2 ≠ e.2) = [] := by
    rw [List.filter_eq_nil_iff]
    intro f hf
    simpa using fun hlt => absurd (BitVec.lt_trans hlt (h f hf).1) (BitVec.lt_irrefl _)
  rw [inserted, hbefore, hbehind]

theorem feed_not_mem_entryLine (h : LabelName e.2) : '\n' ∉ entryLine e := by
  have hname : '\n' ∉ e.2.toList := fun hc => absurd (h.isBlank_of_mem hc) (by decide)
  have hhex : '\n' ∉ (Text.hex 4 e.1.toNat).toList := fun hc =>
    absurd (isRunChar_of_mem_hex hc) (by decide)
  simp [entryLine, entryField, List.rightpad, hname, hhex]

theorem getLast?_entryLine_ne : (entryLine e).getLast? ≠ some '\r' := by
  have hne : entryField e ≠ [] := by simp [entryField]
  have hsplit : entryLine e = ['/', '/', '\t'] ++ entryField e := rfl
  rw [hsplit, List.getLast?_append_of_ne_nil _ hne]
  exact fun h => absurd (isBlank_of_last h) (by decide)

theorem readLines_entries (hname : ∀ e ∈ es, LabelName e.2)
    (hord : (t.entries ++ es).Pairwise fun a b => a.1 < b.1)
    (hdist : (t.entries ++ es).Pairwise fun a b => a.2 ≠ b.2) :
    ∃ t', readLines t (es.map entryLine) = some t' ∧ t'.entries = t.entries ++ es := by
  induction es generalizing t with
  | nil => exact ⟨t, rfl, by simp⟩
  | cons e es ih =>
      have hlast : (t.insert e.2 e.1).entries = t.entries ++ [e] := by
        refine inserted_last fun f hf => ?_
        exact ⟨(List.pairwise_append.1 hord).2.2 f hf e (.head _),
          (List.pairwise_append.1 hdist).2.2 f hf e (.head _)⟩
      have hentries : (t.insert e.2 e.1).entries ++ es = t.entries ++ e :: es := by
        rw [hlast, List.append_assoc, List.singleton_append]
      obtain ⟨t', hread, ht'⟩ := ih (fun f hf => hname f (.tail _ hf)) (hentries ▸ hord)
        (hentries ▸ hdist)
      refine ⟨t', ?_, ht'.trans hentries⟩
      simp only [List.map_cons, entryLine, readLines, entry?_entryField (hname e (.head _))]
      exact hread

/-- The lines of the heading, the slashes and the character behind them apart. -/
def headingLines : List (List Char) :=
  ['/' :: '/' :: 'S' :: "ymbol Name\t\tPage Address".toList,
   '/' :: '/' :: '-' :: "---------------\t------------".toList]

theorem toList_text :
    t.text.toList = (headingLines ++ t.entries.map entryLine).flatMap (· ++ ['\n']) := by
  have hhead : heading.toList = headingLines.flatMap (· ++ ['\n']) := by decide
  simp only [text, String.toList_append, String.toList_join, List.flatMap_append, List.flatMap_map,
    toList_entryText, hhead]

theorem lines_text (h : ∀ e ∈ t.entries, LabelName e.2) :
    Text.lines t.text.toList = headingLines ++ t.entries.map entryLine := by
  rw [toList_text]
  refine Text.lines_flatMap_feed (List.forall_mem_append.2 ⟨by decide, ?_⟩)
  exact List.forall_mem_map.2 fun e he => ⟨feed_not_mem_entryLine (h e he), getLast?_entryLine_ne⟩

theorem readLines_heading {more : List (List Char)} :
    readLines t (headingLines ++ more) = readLines t more := by
  simp [headingLines, readLines]

/-- A table of such names is read back from its text. -/
theorem ofText?_text (h : ∀ e ∈ t.entries, LabelName e.2) : ofText? t.text = some t := by
  obtain ⟨t', hread, ht'⟩ :=
    readLines_entries h (show (empty.entries ++ t.entries).Pairwise _ from t.ordered) t.distinct
  obtain rfl : t' = t := eq_of_entries ht'
  rw [ofText?, lines_text h, readLines_heading, hread]

end LabelTable

/-- The files of an assembled program give back its origin, its words and its labels. This rests on
the names that labels have; the bytes of an object file give back its origin and its words whatever
it is, and every list of bytes that is read is what is written again. -/
theorem ObjectFile.exports_read_back :
    (∀ source o, assemble source = .ok o →
      ofBytes? o.bytes = some (o.orig, o.words) ∧
        LabelTable.ofText? o.labels.text = some o.labels ∧
          ∀ e ∈ o.labels.entries, LabelName e.2) ∧
      (∀ o : ObjectFile, ofBytes? o.bytes = some (o.orig, o.words)) ∧
        (∀ bs, (∃ r, ofBytes? bs = some r) ↔ bs ≠ [] ∧ bs.length % 2 = 0) ∧
          ∀ bs orig words labels, ofBytes? bs = some (orig, words) →
            bytes ⟨orig, words, labels⟩ = bs := by
  refine ⟨fun source o h => ?_, ofBytes?_bytes, fun bs => exists_ofBytes?, ?_⟩
  · have hnames := labelName_of_assemble h
    exact ⟨ofBytes?_bytes o, LabelTable.ofText?_text hnames, hnames⟩
  · exact fun bs orig words labels h => bytes_of_ofBytes? h labels

/-- Labels of digits, with the name of a register, and too long for their column. -/
theorem ObjectFile.exports_read_back_labels :
    let source := ".orig x3000\n42 HALT\nR3 HALT\nA_VERY_LONG_LABEL_NAME .fill 42\n.end"
    let labels := LabelTable.ofList
      [("42", 0x3000), ("R3", 0x3001), ("A_VERY_LONG_LABEL_NAME", 0x3002)]
    let o : ObjectFile := ⟨0x3000, [0xF025, 0xF025, 0x3000], labels⟩
    assemble source = .ok o ∧ ofBytes? o.bytes = some (0x3000, [0xF025, 0xF025, 0x3000]) ∧
      LabelTable.ofText? labels.text = some labels ∧ LabelName "R3" ∧
        ofBytes? [0x30, 0x00] = some (0x3000, []) ∧ bytes ⟨0x3000, [], labels⟩ = [0x30, 0x00] := by
  intro source labels o
  have ho : assemble source = .ok o := by decide
  have hb : ofBytes? [0x30, 0x00] = some (0x3000, []) := by decide
  obtain ⟨hassembled, -, -, hbytes⟩ := exports_read_back
  obtain ⟨hwords, htable, hnames⟩ := hassembled source o ho
  have hmem : ((0x3001 : Word), "R3") ∈ labels.entries := by decide
  exact ⟨ho, hwords, htable, hnames _ hmem, hb, hbytes _ _ _ labels hb⟩

end Lc3
