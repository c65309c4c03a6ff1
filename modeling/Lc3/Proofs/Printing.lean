import Lc3.Stmt.Text
import Lc3.Proofs.Field
import Lc3.Proofs.Quoting

/-!
# What is printed is read again

Statements are compared without the columns of their labels and the numbers of their lines. Main
statement: the text of a statement is read as the same statement if its labels are spelled by their
names, its numbers fit where they are read, and its strings survive quoting.
-/

namespace Lc3

open Token

/-! ## Statements without their places -/

/-- A label without its columns. -/
def Label.bare (l : Label) : Label := ⟨l.name, .whole⟩

/-- An operand without columns. -/
def Target.bare {n : Nat} : Target n → Target n
  | .offset v => .offset v
  | .label l => .label l.bare

/-- An instruction without columns. -/
def SourceInstr.bare : SourceInstr → SourceInstr
  | .br mask t => .br mask t.bare
  | .jsr t => .jsr t.bare
  | .ld dr t => .ld dr t.bare
  | .ldi dr t => .ldi dr t.bare
  | .lea dr t => .lea dr t.bare
  | .st sr t => .st sr t.bare
  | .sti sr t => .sti sr t.bare
  | i => i

/-- A directive without columns. -/
def Directive.bare : Directive → Directive
  | .fill t => .fill t.bare
  | d => d

/-- A command without columns. -/
def Command.bare : Command → Command
  | .instr i => .instr i.bare
  | .directive d => .directive d.bare

/-- A statement without columns and line number. -/
def Stmt.bare (s : Stmt) : Stmt := ⟨s.label.map Label.bare, s.command.map Command.bare, 0⟩

theorem Stmt.isEnd_bare {s : Stmt} : s.bare.isEnd = s.isEnd := by
  obtain ⟨label, command, line⟩ := s
  cases command with
  | none => rfl
  | some c =>
      cases c with
      | instr i => rfl
      | directive d => cases d <;> rfl

/-! ## What can be printed -/

/-- A label that can be an operand: its name is a token and not a number. -/
def Label.IsOperand (l : Label) : Prop := ∃ t, Stands l.name t ∧ ∀ z, t ≠ .literal z

/-- A label that can be defined: its name is a free name or a register. -/
def Label.IsDefinable (l : Label) : Prop :=
  ∃ t, Stands l.name t ∧ ((∃ x, t = .name x) ∨ ∃ r, t = .reg r)

/-- A command whose operands can be printed: the label among them is a token, the mask is that of a
named branch, and a block is no longer than a literal can say. -/
structure Command.Legible (c : Command) : Prop where
  operand : ∀ l, c.label? = some l → l.IsOperand
  mask : ∀ mask t, c = .instr (.br mask t) → ∃ b : Branch, mask = b.mask
  length : ∀ n, c = .directive (.block n) → n ≤ 2147483647

/-- A statement that can be printed, but for the contents of a string. -/
structure Stmt.Legible (s : Stmt) : Prop where
  label : ∀ l, s.label = some l → l.IsDefinable
  command : ∀ c, s.command = some c → c.Legible
  nonempty : s.label = none → s.command ≠ none

/-- A command without a string that quoting would spoil. -/
def Command.Survives (c : Command) : Prop :=
  ∀ s, c = .directive (.string s) → ∀ ch ∈ s.toList, Text.Survives ch

/-- A statement without a string that quoting would spoil. -/
def Stmt.Survives (s : Stmt) : Prop := ∀ c, s.command = some c → c.Survives

/-! ## Operands -/

variable {n : Nat} {text name x y z : String} {t : Token} {R R' R'' : Piece → Prop}

/-- A text is one token, which has a property. -/
def SpellsOne (text : String) (R : Piece → Prop) : Prop :=
  Spells text fun ps => ∃ p, ps = [p] ∧ R p

theorem Stands.spellsOne (h : Stands text t) (hR : ∀ p : Piece, p.value = t → p.text = text → R p) :
    SpellsOne text R :=
  Spells.mono h fun _ ⟨p, hps, hv, ht⟩ => ⟨p, hps, hR p hv ht⟩

theorem stands_name (hrun : ofRun name.toList = .ok t ∧ name ≠ "" ∧
    name.toList.all isRunChar = true) : Stands name t :=
  stands_of_run hrun.2.1 (List.all_eq_true.1 hrun.2.2) hrun.1

theorem stands_reg (r : Reg) : Stands r.name (.reg r) := by
  have hrun : ∀ r : Reg, ofRun r.name.toList = .ok (.reg r) ∧ r.name ≠ "" ∧
      r.name.toList.all isRunChar = true := by decide
  exact stands_name (hrun r)

theorem spells_reg (r : Reg) : SpellsOne r.name fun p => p.reg = .ok r :=
  (stands_reg r).spellsOne fun p hv _ => by rw [Piece.reg, hv]

theorem inRange_toInt (v : BitVec n) (h : n ≤ 32) : Numeral.InRange v.toInt := by
  have hpow : 2 ^ n ≤ 2 ^ 32 := Nat.pow_le_pow_right (by decide) h
  have hv := v.isLt
  unfold Numeral.InRange
  rw [BitVec.toInt_eq_toNat_cond]
  split <;> omega

theorem stands_text {v : Int} (h : Numeral.InRange v) : Stands (Field.text v) (.literal v) := by
  refine stands_of_run ?_ (fun c hc => Numeral.isRunChar_of_text hc) ?_
  · rw [ne_eq, ← String.toList_inj, Numeral.toList_text]
    simp
  · rw [ofRun, Numeral.literal?_text h]

theorem stands_hex {k : Nat} (hk : k ≤ 2147483647)
    (h : Numeral.natural? 16 text.toList = some k) : Stands ("x" ++ text) (.literal k) := by
  have htext : ("x" ++ text).toList = 'x' :: text.toList := by
    rw [String.toList_append]
    rfl
  refine stands_of_run ?_ (fun c hc => Numeral.isRunChar_of_hex h (htext ▸ hc)) ?_
  · rw [ne_eq, ← String.toList_inj, htext]
    simp
  · rw [ofRun, htext, Numeral.literal?_hex hk h]

theorem spells_operand (src : Operand 5) :
    SpellsOne src.text fun p => p.operand 5 = .ok src := by
  cases src with
  | imm v =>
      refine (stands_text (inRange_toInt v (by decide))).spellsOne fun p hv _ => ?_
      simp only [Piece.operand, hv, Field.signed?_toInt (by decide : 0 < 5)]
  | reg r =>
      refine (stands_reg r).spellsOne fun p hv _ => ?_
      simp only [Piece.operand, hv]

theorem spells_offset (off : BitVec 6) :
    SpellsOne (Field.text off.toInt) fun p => p.offset 6 = .ok off := by
  refine (stands_text (inRange_toInt off (by decide))).spellsOne fun p hv _ => ?_
  simp only [Piece.offset, Piece.literal, hv, Bind.bind, Except.bind,
    Field.signed?_toInt (by decide : 0 < 6)]

theorem spells_vector (v : BitVec 8) : SpellsOne (trapText v) fun p => p.vector = .ok v := by
  have hv := v.isLt
  refine (stands_hex (by omega) Numeral.natural?_hex).spellsOne fun p hp _ => ?_
  simp only [Piece.vector, Piece.literal, hp, Bind.bind, Except.bind, Field.unsigned?_toNat]

theorem spells_target {tgt : Target n} (hn : 0 < n) (hn' : n ≤ 32)
    (h : ∀ l, tgt.label? = some l → l.IsOperand) :
    SpellsOne tgt.text fun p => ∃ tgt', p.target n = .ok tgt' ∧ tgt'.bare = tgt.bare := by
  cases tgt with
  | offset v =>
      refine (stands_text (inRange_toInt v hn')).spellsOne fun p hv _ => ⟨.offset v, ?_, rfl⟩
      simp only [Piece.target, hv, Field.signed?_toInt hn]
  | label l =>
      obtain ⟨t, ht, hlit⟩ := h l rfl
      refine Stands.spellsOne ht fun p hv htext => ⟨.label ⟨p.text, p.span⟩, ?_, ?_⟩
      · unfold Piece.target
        split
        · rename_i z hz
          exact absurd (hv.symm.trans hz) (hlit z)
        · rfl
      · rw [Target.bare, Target.bare, Label.bare, htext]
        rfl

/-! ## Names and what follows them -/

theorem space_separates : " ".toList ≠ [] ∧ ∀ c ∈ " ".toList, isSeparator c = true :=
  ⟨by decide, List.all_eq_true.1 (by decide)⟩

theorem comma_separates : ", ".toList ≠ [] ∧ ∀ c ∈ ", ".toList, isSeparator c = true :=
  ⟨by decide, List.all_eq_true.1 (by decide)⟩

theorem spells_one (h : Stands name t) (hx : SpellsOne x R) :
    Spells (listing name [x]) fun ps => ∃ f p, ps = [f, p] ∧ f.value = t ∧ R p := by
  have := Spells.append " " space_separates h hx
  refine this.mono ?_
  rintro _ ⟨_, _, rfl, ⟨f, rfl, hf, -⟩, ⟨p, rfl, hp⟩⟩
  exact ⟨f, p, rfl, hf, hp⟩

theorem spells_two (h : Stands name t) (hx : SpellsOne x R) (hy : SpellsOne y R') :
    Spells (listing name [x, y]) fun ps =>
      ∃ f p q, ps = [f, p, q] ∧ f.value = t ∧ R p ∧ R' q := by
  have := Spells.append " " space_separates h (Spells.append ", " comma_separates hx hy)
  refine this.mono ?_
  rintro _ ⟨_, _, rfl, ⟨f, rfl, hf, -⟩, ⟨_, _, rfl, ⟨p, rfl, hp⟩, ⟨q, rfl, hq⟩⟩⟩
  exact ⟨f, p, q, rfl, hf, hp, hq⟩

theorem spells_three (h : Stands name t) (hx : SpellsOne x R) (hy : SpellsOne y R')
    (hz : SpellsOne z R'') : Spells (listing name [x, y, z]) fun ps =>
      ∃ f p q r, ps = [f, p, q, r] ∧ f.value = t ∧ R p ∧ R' q ∧ R'' r := by
  have hxy := Spells.append ", " comma_separates hx hy
  have := Spells.append " " space_separates h (Spells.append ", " comma_separates hxy hz)
  refine this.mono ?_
  rintro _ ⟨_, _, rfl, ⟨f, rfl, hf, -⟩, ⟨_, _, rfl, hpq, ⟨r, rfl, hr⟩⟩⟩
  obtain ⟨_, _, rfl, ⟨p, rfl, hp⟩, ⟨q, rfl, hq⟩⟩ := hpq
  exact ⟨f, p, q, r, rfl, hf, hp, hq, hr⟩

theorem stands_mnemonic (m : Mnemonic) : Stands m.name (.mnemonic m) := by
  have hrun : ofRun m.name.toList = .ok (.mnemonic m) ∧ m.name ≠ "" ∧
      m.name.toList.all isRunChar = true := by
    cases m with
    | branch b => cases b <;> decide
    | service s => cases s <;> decide
    | _ => decide
  exact stands_name hrun

/-- A branch is listed by a name of the same mask. -/
theorem stands_listed (b : Branch) :
    ∃ b' : Branch, Stands (Branch.listed b.mask) (.mnemonic (.branch b')) ∧ b'.mask = b.mask := by
  have hrun : ∃ b' : Branch, b'.mask = b.mask ∧
      ofRun (Branch.listed b.mask).toList = .ok (.mnemonic (.branch b')) ∧
      Branch.listed b.mask ≠ "" ∧ (Branch.listed b.mask).toList.all isRunChar = true := by
    cases b with
    | always => exact ⟨.nzp, by decide⟩
    | n => exact ⟨.n, by decide⟩
    | z => exact ⟨.z, by decide⟩
    | p => exact ⟨.p, by decide⟩
    | nz => exact ⟨.nz, by decide⟩
    | np => exact ⟨.np, by decide⟩
    | zp => exact ⟨.zp, by decide⟩
    | nzp => exact ⟨.nzp, by decide⟩
  obtain ⟨b', hmask, hrun⟩ := hrun
  exact ⟨b', stands_name hrun, hmask⟩

theorem spells_origin {d digits : String} {orig : Word} (hd : Stands name (.directive d))
    (hkey : Text.upper d = "ORIG") (h : Numeral.natural? 16 digits.toList = some orig.toNat) :
    Spells (name ++ " " ++ ("x" ++ digits)) fun ps =>
      (Origin.operands ps >>= Origin.address) = .ok orig := by
  have ho := orig.isLt
  refine (Spells.append " " space_separates hd (stands_hex (by omega) h)).mono ?_
  rintro _ ⟨_, _, rfl, ⟨f, rfl, hf, -⟩, ⟨p, rfl, hp, -⟩⟩
  have horigin : Origin.isOrigin f = true := by
    simp [Origin.isOrigin, hf, hkey]
  have hlit : p.literal = .ok (orig.toNat : Int) := by rw [Piece.literal, hp]
  have hops : Origin.operands ([f] ++ [p]) = .ok [p] := by
    simp only [List.singleton_append, Origin.operands, horigin, ↓reduceIte]
  refine bind_eq_ok.2 ⟨[p], hops, bind_eq_ok.2 ⟨orig.toNat, hlit, ?_⟩⟩
  simp only [Field.unsigned?_toNat]

/-! ## Instructions -/

/-- Whether pieces are read as an instruction, up to columns. -/
def SourceInstr.Reads (i : SourceInstr) (ps : List Piece) : Prop :=
  ∃ f ops m i', ps = f :: ops ∧ f.value = .mnemonic m ∧ SourceInstr.read m ops = .ok i' ∧
    i'.bare = i.bare

namespace SourceInstr

theorem reads_none {m : Mnemonic} {i : SourceInstr} (h : Stands name (.mnemonic m))
    (hr : read m [] = .ok i) : Spells name i.Reads :=
  Spells.mono h fun _ ⟨f, hps, hf, _⟩ => ⟨f, [], m, i, hps, hf, hr, rfl⟩

theorem reads_three (m : Mnemonic) {α : Type} (mk : Reg → Reg → α → SourceInstr)
    {last : Piece → Except Cause α} {a b : Reg} {v : α} (hz : SpellsOne z fun p => last p = .ok v)
    (hr : ∀ p q r, read m [p, q, r] = do return mk (← p.reg) (← q.reg) (← last r)) :
    Spells (listing m.name [a.name, b.name, z]) (mk a b v).Reads := by
  refine (spells_three (stands_mnemonic m) (spells_reg a) (spells_reg b) hz).mono ?_
  rintro _ ⟨f, p, q, r, rfl, hf, hp, hq, hr'⟩
  exact ⟨f, _, m, mk a b v, rfl, hf, by simp only [hr, hp, hq, hr']; rfl, rfl⟩

theorem reads_target (m : Mnemonic) (mk : Reg → Target 9 → SourceInstr) {a : Reg} {tgt : Target 9}
    (h : ∀ l, tgt.label? = some l → l.IsOperand)
    (hr : ∀ p q, read m [p, q] = do return mk (← p.reg) (← q.target 9))
    (hb : ∀ tgt', (mk a tgt').bare = mk a tgt'.bare) :
    Spells (listing m.name [a.name, tgt.text]) (mk a tgt).Reads := by
  refine (spells_two (stands_mnemonic m) (spells_reg a)
    (spells_target (by decide) (by decide) h)).mono ?_
  rintro _ ⟨f, p, q, rfl, hf, hp, tgt', hq, ht⟩
  exact ⟨f, _, m, mk a tgt', rfl, hf, by simp only [hr, hp, hq]; rfl, by rw [hb, hb, ht]⟩

theorem reads_one (m : Mnemonic) {α : Type} (mk : α → SourceInstr) {only : Piece → Except Cause α}
    {v : α} (hx : SpellsOne x fun p => only p = .ok v)
    (hr : ∀ p, read m [p] = do return mk (← only p)) :
    Spells (listing m.name [x]) (mk v).Reads := by
  refine (spells_one (stands_mnemonic m) hx).mono ?_
  rintro _ ⟨f, p, rfl, hf, hp⟩
  exact ⟨f, _, m, mk v, rfl, hf, by simp only [hr, hp]; rfl, rfl⟩

theorem spells {i : SourceInstr} (h : (Command.instr i).Legible) : Spells i.text i.Reads := by
  cases i with
  | add dr sr src => exact reads_three .add .add (spells_operand src) fun _ _ _ => rfl
  | and dr sr src => exact reads_three .and .and (spells_operand src) fun _ _ _ => rfl
  | ldr dr base off => exact reads_three .ldr .ldr (spells_offset off) fun _ _ _ => rfl
  | str sr base off => exact reads_three .str .str (spells_offset off) fun _ _ _ => rfl
  | ld dr tgt => exact reads_target .ld .ld h.operand (fun _ _ => rfl) fun _ => rfl
  | ldi dr tgt => exact reads_target .ldi .ldi h.operand (fun _ _ => rfl) fun _ => rfl
  | lea dr tgt => exact reads_target .lea .lea h.operand (fun _ _ => rfl) fun _ => rfl
  | st sr tgt => exact reads_target .st .st h.operand (fun _ _ => rfl) fun _ => rfl
  | sti sr tgt => exact reads_target .sti .sti h.operand (fun _ _ => rfl) fun _ => rfl
  | jmp base => exact reads_one .jmp .jmp (spells_reg base) fun _ => rfl
  | jsrr base => exact reads_one .jsrr .jsrr (spells_reg base) fun _ => rfl
  | trap vector => exact reads_one .trap .trap (spells_vector vector) fun _ => rfl
  | not dr sr =>
      refine (spells_two (stands_mnemonic .not) (spells_reg dr) (spells_reg sr)).mono ?_
      rintro _ ⟨f, p, q, rfl, hf, hp, hq⟩
      exact ⟨f, _, _, .not dr sr, rfl, hf, by simp only [read, hp, hq]; rfl, rfl⟩
  | br mask tgt =>
      obtain ⟨b, rfl⟩ := h.mask _ _ rfl
      obtain ⟨b', hb', hmask⟩ := stands_listed b
      refine (spells_one hb' (spells_target (by decide) (by decide) h.operand)).mono ?_
      rintro _ ⟨f, p, rfl, hf, tgt', hp, ht⟩
      exact ⟨f, _, _, .br b.mask tgt', rfl, hf, by simp only [read, hp, hmask]; rfl,
        by simp only [bare, ht]⟩
  | jsr tgt =>
      refine (spells_one (stands_mnemonic .jsr)
        (spells_target (by decide) (by decide) h.operand)).mono ?_
      rintro _ ⟨f, p, rfl, hf, tgt', hp, ht⟩
      exact ⟨f, _, _, .jsr tgt', rfl, hf, by simp only [read, hp]; rfl, by simp only [bare, ht]⟩
  | ret => exact reads_none (stands_mnemonic .ret) rfl
  | rti => exact reads_none (stands_mnemonic .rti) rfl
  | nop => exact reads_none (stands_mnemonic .nop) rfl
  | service s => exact reads_none (stands_mnemonic (.service s)) rfl

end SourceInstr

/-! ## Directives and commands -/

/-- Whether pieces are read as a command at the start of a line, up to columns. -/
def Command.Reads (c : Command) (ps : List Piece) : Prop :=
  ∃ f ops c', ps = f :: ops ∧ f.value.isCommand = true ∧ Command.read f ops = .ok c' ∧
    c'.bare = c.bare

namespace Directive

variable {p : Piece} {d : String}

theorem read_fill {tgt : Target 17} (hd : Text.upper d = "FILL") (h : p.target 17 = .ok tgt) :
    read d [p] = .ok (.fill tgt) := by
  simp only [read, hd, ↓reduceIte, Piece.only, Bind.bind, Except.bind, h]
  rfl

theorem read_block {k : Nat} (hd : Text.upper d = "BLKW") (h : p.literal = .ok (k : Int)) :
    read d [p] = .ok (.block k) := by
  have hne : ¬ "BLKW" = "FILL" := by decide
  have hk : ¬ (k : Int) < 0 := by omega
  simp only [read, hd, hne, hk, ↓reduceIte, Piece.only, Bind.bind, Except.bind, h]
  rfl

theorem read_string {s : String} (hd : Text.upper d = "STRINGZ") (h : p.value = .string s) :
    read d [p] = .ok (.string s) := by
  have hne : ¬ "STRINGZ" = "FILL" ∧ ¬ "STRINGZ" = "BLKW" := by decide
  simp only [read, hd, hne, ↓reduceIte, Piece.only, Bind.bind, Except.bind, h]
  rfl

theorem read_finish {ops : List Piece} (hd : Text.upper d = "END") : read d ops = .ok .finish := by
  have hne : ¬ "END" = "FILL" ∧ ¬ "END" = "BLKW" ∧ ¬ "END" = "STRINGZ" := by decide
  simp only [read, hd, hne, ↓reduceIte]

theorem reads_only {dir : Directive} (hd : Stands name (.directive d))
    (hcmd : (Token.directive d).isCommand = true)
    (hx : SpellsOne x fun p => ∃ dir', read d [p] = .ok dir' ∧ dir'.bare = dir.bare) :
    Spells (name ++ " " ++ x) (Command.directive dir).Reads := by
  refine (spells_one hd hx).mono ?_
  rintro _ ⟨f, p, rfl, hf, dir', hr, hbare⟩
  refine ⟨f, [p], .directive dir', rfl, hf ▸ hcmd, ?_, by rw [Command.bare, Command.bare, hbare]⟩
  exact Command.read_eq_ok.2 (.inr ⟨d, dir', hf, hr, rfl⟩)

theorem reads_finish (hd : Stands name (.directive d)) (hkey : Text.upper d = "END") :
    Spells name (Command.directive .finish).Reads := by
  have hcmd : (Token.directive d).isCommand = true := by
    rw [Token.isCommand, hkey]
    decide
  refine Spells.mono hd ?_
  rintro _ ⟨f, rfl, hf, -⟩
  refine ⟨f, [], .directive .finish, rfl, hf ▸ hcmd, ?_, rfl⟩
  exact Command.read_eq_ok.2 (.inr ⟨d, .finish, hf, read_finish hkey, rfl⟩)

theorem stands_stringz : Stands ".stringz" (.directive "stringz") := stands_name (by decide)

theorem text_string {s : String} :
    (Directive.string s).text = ".stringz" ++ " " ++ Text.quoted s :=
  congrArg (· ++ Text.quoted s) (show ".stringz " = ".stringz" ++ " " by decide)

theorem spells {dir : Directive} (h : (Command.directive dir).Legible)
    (hs : (Command.directive dir).Survives) :
    Spells dir.text (Command.directive dir).Reads := by
  cases dir with
  | fill tgt =>
      have htext : (Directive.fill tgt).text = ".fill" ++ " " ++ tgt.text :=
        congrArg (· ++ tgt.text) (show ".fill " = ".fill" ++ " " by decide)
      have hkey : Text.upper "fill" = "FILL" := by decide
      have hd : Stands ".fill" (.directive "fill") := stands_name (by decide)
      rw [htext]
      refine reads_only hd (by decide) ?_
      refine (spells_target (by decide) (by decide) h.operand).mono ?_
      rintro _ ⟨p, rfl, tgt', hp, ht⟩
      exact ⟨p, rfl, .fill tgt', read_fill hkey hp, by simp only [bare, ht]⟩
  | block n =>
      have htext : (Directive.block n).text = ".blkw" ++ " " ++ Field.text n :=
        congrArg (· ++ Field.text n) (show ".blkw " = ".blkw" ++ " " by decide)
      have hkey : Text.upper "blkw" = "BLKW" := by decide
      have hd : Stands ".blkw" (.directive "blkw") := stands_name (by decide)
      have hn := h.length n rfl
      rw [htext]
      refine reads_only hd (by decide) ?_
      refine (stands_text ⟨by omega, by omega⟩).spellsOne fun p hp _ => ?_
      exact ⟨.block n, read_block hkey (by rw [Piece.literal, hp]), rfl⟩
  | string s =>
      have hkey : Text.upper "stringz" = "STRINGZ" := by decide
      rw [text_string]
      refine reads_only stands_stringz (by decide) ?_
      refine (stands_quoted (hs s rfl)).spellsOne fun p hp _ => ?_
      exact ⟨.string s, read_string hkey hp, rfl⟩
  | finish =>
      have hd : Stands ".end" (.directive "end") := stands_name (by decide)
      exact reads_finish hd (by decide)

end Directive

theorem Command.spells {c : Command} (h : c.Legible) (hs : c.Survives) :
    Spells c.text c.Reads := by
  cases c with
  | instr i =>
      refine (SourceInstr.spells h).mono ?_
      rintro _ ⟨f, ops, m, i', rfl, hf, hr, hb⟩
      refine ⟨f, ops, .instr i', rfl, by rw [hf]; rfl, ?_, by rw [bare, bare, hb]⟩
      exact Command.read_eq_ok.2 (.inl ⟨m, i', hf, hr, rfl⟩)
  | directive dir => exact Directive.spells h hs

/-! ## Statements -/

theorem Label.spellsOne {l : Label} (h : l.IsDefinable) : SpellsOne l.name fun p =>
    p.value.isCommand = false ∧ ∀ n, ∃ l', Stmt.readLabel n p = .ok l' ∧ l'.bare = l.bare := by
  obtain ⟨t, ht, hvalue⟩ := h
  refine Stands.spellsOne ht fun p hp htext => ⟨?_, fun n => ⟨⟨p.text, p.span⟩, ?_, ?_⟩⟩
  · rcases hvalue with ⟨x, rfl⟩ | ⟨r, rfl⟩ <;> rw [hp] <;> rfl
  · rcases hvalue with ⟨x, rfl⟩ | ⟨r, rfl⟩ <;> simp only [Stmt.readLabel, hp]
  · simp only [bare, htext]

/-- A statement is read again from its text. -/
theorem Stmt.spells {s : Stmt} (h : s.Legible) (hs : s.Survives) :
    Spells s.text (Stmt.Reads fun s' => s'.bare = s.bare) := by
  obtain ⟨label, command, line⟩ := s
  cases label with
  | none =>
      cases command with
      | none => exact absurd rfl (h.nonempty rfl)
      | some c =>
          refine (Command.spells (h.command c rfl) (hs c rfl)).mono ?_
          rintro _ ⟨f, ops, c', rfl, hf, hr, hb⟩ n
          refine ⟨_, read_eq_some.2 (.inl ⟨f, ops, c', rfl, hf, hr, rfl⟩), ?_⟩
          simp only [bare, Option.map_none, Option.map_some, hb]
  | some l =>
      have hl := Label.spellsOne (h.label l rfl)
      cases command with
      | none =>
          refine Spells.mono hl ?_
          rintro _ ⟨p, rfl, hp, hread⟩ n
          obtain ⟨l', hl', hb⟩ := hread n
          refine ⟨_, read_eq_some.2 (.inr ⟨p, [], l', none, rfl, hp, hl', rfl, rfl⟩), ?_⟩
          simp only [bare, Option.map_none, Option.map_some, hb]
      | some c =>
          have hc := Command.spells (h.command c rfl) (hs c rfl)
          refine (Spells.append " " space_separates hl hc).mono ?_
          rintro _ ⟨_, _, rfl, ⟨p, rfl, hp, hread⟩, ⟨f, ops, c', rfl, -, hr, hb⟩⟩ n
          obtain ⟨l', hl', hb'⟩ := hread n
          have hcmd : readCommand n (f :: ops) = .ok (some c') :=
            readCommand_eq_ok.2 (.inr ⟨f, ops, c', rfl, hr, rfl⟩)
          refine ⟨_, read_eq_some.2 (.inr ⟨p, f :: ops, l', some c', rfl, hp, hl', hcmd, rfl⟩), ?_⟩
          simp only [bare, Option.map_some, hb, hb']

end Lc3
