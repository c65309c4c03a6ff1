import Lc3.Instr.Text
import Lc3.ObjectFile
import Lc3.Proofs.Codec
import Lc3.Proofs.Placement
import Lc3.Proofs.Printing

/-!
# Disassembling and assembling again

Main statement: a listing of words at an address, each disassembled on a line of its own, is
assembled to these words at this address, whatever the words are.
-/

namespace Lc3

open Token

variable {labels : LabelTable} {addr pc : Nat} {w : Word} {ws : List Word}

/-! ## Words do not depend on columns -/

theorem Target.resolve_bare {n : Nat} {t : Target n} :
    t.bare.resolve labels pc = t.resolve labels pc := by
  cases t <;> rfl

theorem SourceInstr.resolve_bare {i : SourceInstr} :
    i.bare.resolve labels pc = i.resolve labels pc := by
  cases i <;> simp only [bare, resolve, Target.resolve_bare]

theorem Command.words_bare {c : Command} : c.bare.words labels addr = c.words labels addr := by
  cases c with
  | instr i => simp only [bare, words, SourceInstr.resolve_bare]
  | directive d =>
      cases d with
      | fill t => cases t <;> rfl
      | _ => rfl

theorem Command.size_bare {c : Command} : c.bare.size = c.size := by
  cases c with
  | instr i => rfl
  | directive d => cases d <;> rfl

/-! ## One word -/

/-- A command of one word that makes this word wherever it lies. -/
structure Command.Makes (c : Command) (w : Word) : Prop where
  size_eq : c.size = 1
  words_eq : ∀ labels addr, c.words labels addr = .ok [w]

theorem Command.Makes.of_bare_eq {c c' : Command} (h : c.Makes w) (hb : c'.bare = c.bare) :
    c'.Makes w where
  size_eq := by rw [← size_bare, hb, size_bare, h.size_eq]
  words_eq labels addr := by rw [← words_bare, hb, words_bare, h.words_eq]

/-- An instruction as a listing of words shows it: a trap into a service routine by the routine's
name. -/
def Instr.listed (i : Instr) : String :=
  match i with
  | .trap vector =>
    match Service.ofVector? vector with
    | some s => s.name
    | none => i.text
  | i => i.text

theorem Word.disassemble_eq : w.disassemble = if w.instr.2 then w.instr.1.listed else w.data := by
  unfold disassemble Instr.listed
  rfl

theorem Service.vector_of_ofVector? {v : BitVec 8} {s : Service} (h : ofVector? v = some s) :
    s.vector = v := by
  simpa using List.find?_some h

theorem Branch.exists_mask {mask : BitVec 8} (h : mask.toNat < 8) (hne : mask ≠ 0) :
    ∃ b : Branch, mask = b.mask := by
  have hall : ∀ mask : BitVec 8, mask.toNat < 8 → mask ≠ 0 →
      mask ∈ [Branch.n, .z, .p, .nz, .np, .zp, .nzp].map Branch.mask := by decide
  obtain ⟨b, -, hb⟩ := List.mem_map.1 (hall mask h hne)
  exact ⟨b, hb.symm⟩

/-- A strictly valid instruction is listed as an instruction that is made into it, unless it is a
branch that is never taken and goes anywhere. -/
theorem Instr.exists_source {i : Instr} (h : i.HasWord) :
    (∃ si : SourceInstr, si.text = i.listed ∧ si.label? = none ∧
      (∀ mask t, si = .br mask t → ∃ b : Branch, mask = b.mask) ∧
        ∀ labels pc, si.resolve labels pc = .ok i) ∨
      i.listed = i.encode.data := by
  cases i with
  | br mask off =>
      by_cases hmask : mask = 0
      · subst hmask
        by_cases hoff : off = 0
        · subst hoff
          exact .inl ⟨.nop, rfl, rfl, by simp, fun _ _ => rfl⟩
        · refine .inr ?_
          simp only [listed, text, hoff, ↓reduceIte]
      · refine .inl ⟨.br mask (.offset off), ?_, rfl, ?_, fun _ _ => rfl⟩
        · simp only [listed, text, hmask, ↓reduceIte]
          rfl
        · rintro _ _ ⟨⟩
          exact Branch.exists_mask h hmask
  | add dr sr src => exact .inl ⟨.add dr sr src, rfl, rfl, by simp, fun _ _ => rfl⟩
  | and dr sr src => exact .inl ⟨.and dr sr src, rfl, rfl, by simp, fun _ _ => rfl⟩
  | ld dr off => exact .inl ⟨.ld dr (.offset off), rfl, rfl, by simp, fun _ _ => rfl⟩
  | st sr off => exact .inl ⟨.st sr (.offset off), rfl, rfl, by simp, fun _ _ => rfl⟩
  | ldi dr off => exact .inl ⟨.ldi dr (.offset off), rfl, rfl, by simp, fun _ _ => rfl⟩
  | sti sr off => exact .inl ⟨.sti sr (.offset off), rfl, rfl, by simp, fun _ _ => rfl⟩
  | lea dr off => exact .inl ⟨.lea dr (.offset off), rfl, rfl, by simp, fun _ _ => rfl⟩
  | jsr target =>
      cases target with
      | imm off => exact .inl ⟨.jsr (.offset off), rfl, rfl, by simp, fun _ _ => rfl⟩
      | reg base => exact .inl ⟨.jsrr base, rfl, rfl, by simp, fun _ _ => rfl⟩
  | ldr dr base off => exact .inl ⟨.ldr dr base off, rfl, rfl, by simp, fun _ _ => rfl⟩
  | str sr base off => exact .inl ⟨.str sr base off, rfl, rfl, by simp, fun _ _ => rfl⟩
  | rti => exact .inl ⟨.rti, rfl, rfl, by simp, fun _ _ => rfl⟩
  | not dr sr => exact .inl ⟨.not dr sr, rfl, rfl, by simp, fun _ _ => rfl⟩
  | jmp base =>
      by_cases hbase : base = Reg.link
      · subst hbase
        exact .inl ⟨.ret, rfl, rfl, by simp, fun _ _ => rfl⟩
      · refine .inl ⟨.jmp base, ?_, rfl, by simp, fun _ _ => rfl⟩
        simp only [listed, text, hbase, ↓reduceIte]
        rfl
  | reserved => exact h.elim
  | trap vector =>
      cases hs : Service.ofVector? vector with
      | some s =>
          refine .inl ⟨.service s, ?_, rfl, by simp, fun _ _ => ?_⟩
          · simp only [listed, hs]
            rfl
          · rw [SourceInstr.resolve, Service.vector_of_ofVector? hs]
      | none =>
          refine .inl ⟨.trap vector, ?_, rfl, by simp, fun _ _ => rfl⟩
          simp only [listed, hs]
          rfl

theorem Word.spells_data :
    Spells w.data (Command.directive (.fill (.offset (w.setWidth 17)))).Reads := by
  have htext : w.data = ".FILL" ++ " " ++ ("x" ++ Text.hex 4 w.toNat) :=
    congrArg (· ++ w.hex) (show ".FILL " = ".FILL" ++ " " by decide)
  have hw := w.isLt
  have hkey : Text.upper "FILL" = "FILL" := by decide
  have hd : Stands ".FILL" (.directive "FILL") := stands_name (by decide)
  have hnat : ((w.setWidth 17).toInt : Int) = w.toNat := by
    rw [BitVec.toInt_setWidth]
    exact Int.bmod_eq_of_le (by omega) (by omega)
  rw [htext]
  refine Directive.reads_only hd (by decide) ?_
  refine (stands_hex (by omega) Numeral.natural?_hex).spellsOne fun p hp _ => ?_
  have htarget : p.target 17 = .ok (.offset (w.setWidth 17)) := by
    simp only [Piece.target, hp, ← hnat, Field.signed?_toInt (by decide : 0 < 17)]
  exact ⟨_, Directive.read_fill hkey htarget, rfl⟩

theorem Word.exists_command (w : Word) :
    ∃ c : Command, Spells w.disassemble c.Reads ∧ c.Makes w := by
  have hdata : (Command.directive (.fill (.offset (w.setWidth 17)))).Makes w := by
    refine ⟨rfl, fun labels addr => ?_⟩
    simp [Command.words, Directive.words]
  rw [disassemble_eq]
  split
  · rename_i hstrict
    obtain ⟨si, htext, hlabel, hmask, hr⟩ | hlisted := Instr.exists_source (hasWord_instr hstrict)
    · have hlegible : (Command.instr si).Legible := by
        refine ⟨fun l hl => ?_, fun mask t ht => hmask mask t (by simpa using ht), by simp⟩
        cases hlabel.symm.trans hl
      have hspells := Command.spells hlegible (by rintro _ ⟨⟩)
      refine ⟨.instr si, htext ▸ hspells, rfl, fun labels addr => ?_⟩
      simp only [Command.words, hr, Except.map, encode_instr hstrict]
    · rw [hlisted, encode_instr hstrict]
      exact ⟨_, spells_data, hdata⟩
  · exact ⟨_, spells_data, hdata⟩

/-! ## A whole listing -/

/-- What the lines of a listing are read as: a word as a command that makes it, and the last line
as `.END`. -/
def Stmt.Lists : Option Word → Stmt → Prop
  | some w, s => s.label = none ∧ ∃ c, s.command = some c ∧ c.Makes w
  | none, s => s.label = none ∧ s.isEnd = true

theorem Stmt.isEnd_of_lists {s : Stmt} (h : s.Lists (some w)) : s.isEnd = false := by
  obtain ⟨-, c, hc, hm⟩ := h
  have hne : c ≠ .directive .finish := by
    rintro rfl
    cases hm.size_eq
  simpa [isEnd, hc] using hne

theorem Stmt.reads_of_command {c : Command} (hm : c.Makes w) {ps : List Piece} (h : c.Reads ps) :
    Stmt.Reads (Stmt.Lists (some w)) ps := by
  intro n
  obtain ⟨f, ops, c', rfl, hf, hr, hb⟩ := h
  exact ⟨_, read_eq_some.2 (.inl ⟨f, ops, c', rfl, hf, hr, rfl⟩), rfl, c', rfl, hm.of_bare_eq hb⟩

theorem Stmt.spells_end : Spells ".END" (Stmt.Reads (Stmt.Lists none)) := by
  have hd : Stands ".END" (.directive "END") := stands_name (by decide)
  refine (Directive.reads_finish hd (by decide)).mono ?_
  rintro _ ⟨f, ops, c', rfl, hf, hr, hb⟩ n
  have hc : c' = .directive .finish := by
    cases c' with
    | instr i => cases hb
    | directive d => cases d <;> first | rfl | cases hb
  subst hc
  exact ⟨_, read_eq_some.2 (.inl ⟨f, ops, _, rfl, hf, hr, rfl⟩), rfl, rfl⟩

theorem Layout.walk_of_lists {stmts : List Stmt}
    (h : List.Forall₂ Stmt.Lists (ws.map some ++ [none]) stmts)
    (hfit : addr + ws.length ≤ memorySize) :
    walk .empty addr stmts = .ok (some (.empty, addr + ws.length)) := by
  induction ws generalizing addr stmts with
  | nil =>
      obtain _ | ⟨⟨hlabel, hend⟩, _⟩ := h
      simp only [walk, bind, hlabel, hend, Bind.bind, Except.bind, ↓reduceIte]
      rfl
  | cons w ws ih =>
      obtain _ | ⟨hs, hrest⟩ := h
      obtain ⟨hlabel, c, hc, hm⟩ := id hs
      rename_i s stmts
      have hsize : s.size = 1 := by simp [Stmt.size, hc, hm.size_eq]
      rw [List.length_cons] at hfit ⊢
      have hcheck : check (addr + 1) = .ok () := check_eq_ok.2 (by omega)
      have hnext := ih hrest (by omega : addr + 1 + ws.length ≤ memorySize)
      simp only [walk, bind, hlabel, Stmt.isEnd_of_lists hs, hsize, hcheck, hnext, Bind.bind,
        Except.bind, Bool.false_eq_true, ↓reduceIte, Except.ok.injEq, Option.some.injEq,
        Prod.mk.injEq, true_and]
      omega

theorem Stmt.allWords_of_lists {stmts : List Stmt}
    (h : List.Forall₂ Stmt.Lists (ws.map some ++ [none]) stmts) :
    allWords labels addr stmts = .ok ws := by
  induction ws generalizing addr stmts with
  | nil =>
      obtain _ | ⟨⟨hlabel, hend⟩, _⟩ := h
      simp only [allWords, hend, ↓reduceIte]
  | cons w ws ih =>
      obtain _ | ⟨hs, hrest⟩ := h
      obtain ⟨hlabel, c, hc, hm⟩ := id hs
      rename_i s stmts
      have hwords : s.words labels addr = .ok [w] := by
        simp only [words, hc, hm.words_eq, Except.mapError]
      simp only [allWords, isEnd_of_lists hs, hwords, ih hrest, Bind.bind, Except.bind,
        Bool.false_eq_true, ↓reduceIte]
      rfl

/-- The listing of words at an address given in hexadecimal: `.ORIG`, one line for each word, and
`.END`. -/
def listingOf (digits : String) (ws : List Word) : String :=
  "\n".intercalate ((".ORIG x" ++ digits) :: (ws.map Word.disassemble ++ [".END"]))

/-- A line of a listing behind its first: a word, or the end. -/
def listedLine : Option Word → String
  | some w => w.disassemble
  | none => ".END"

namespace ObjectFile

/-- A listing of words that fit into memory is assembled to the same words. -/
theorem assemble_listing {orig : Word} {digits : String}
    (hdigits : Numeral.natural? 16 digits.toList = some orig.toNat)
    (hfit : orig.toNat + ws.length ≤ memorySize) :
    assemble (listingOf digits ws) = .ok ⟨orig, ws, .empty⟩ := by
  have hheader : ".ORIG x" ++ digits = ".ORIG" ++ " " ++ ("x" ++ digits) := by
    rw [← String.append_assoc]
    exact congrArg (· ++ digits) (show ".ORIG x" = ".ORIG" ++ " " ++ "x" by decide)
  have htext : listingOf digits ws =
      "\n".intercalate
        ((".ORIG" ++ " " ++ ("x" ++ digits)) :: (ws.map some ++ [none]).map listedLine) := by
    rw [listingOf, hheader, List.map_append, List.map_map]
    rfl
  have hname : Stands ".ORIG" (.directive "ORIG") := stands_name (by decide)
  have horigin := spells_origin hname (by decide) hdigits
  have hlines : ∀ x ∈ ws.map some ++ [none],
      Spells (listedLine x) (Stmt.Reads (Stmt.Lists x)) := by
    intro x hx
    cases x with
    | some w =>
        obtain ⟨c, hc, hm⟩ := w.exists_command
        exact hc.mono fun ps hps => Stmt.reads_of_command hm hps
    | none => exact Stmt.spells_end
  have hend : ∀ x ∈ (ws.map some ++ [none]).dropLast, ∀ s, Stmt.Lists x s → s.isEnd = false := by
    intro x hx s hs
    rw [List.dropLast_concat] at hx
    obtain ⟨w, -, rfl⟩ := List.mem_map.1 hx
    exact Stmt.isEnd_of_lists hs
  obtain ⟨p, hp, rfl, hstmts⟩ := Program.read_of_spells horigin hlines hend
  have hlayout : Layout.ofStmts p.orig p.stmts = .ok ⟨.empty, ws.length⟩ := by
    rw [Layout.ofStmts, Layout.walk_of_lists hstmts hfit]
    simp only [Bind.bind, Except.bind, Nat.add_sub_cancel_left]
    rfl
  rw [assemble, htext, hp]
  simp only [Bind.bind, Except.bind, ofProgram, hlayout, ofStmts, Stmt.allWords_of_lists hstmts]
  rfl

/-- Words of every kind at the end of memory: an addition, the reserved opcode, a branch that is
never taken, no operation, a return, a trap into a routine, and an addition with a stray bit. -/
theorem assemble_listing_kinds :
    let ws : List Word := [0x1401, 0xD000, 0x0005, 0x0000, 0xC1C0, 0xF025, 0x1408]
    Numeral.natural? 16 "fff9".toList = some 0xFFF9 ∧
      assemble (listingOf "fff9" ws) = .ok ⟨0xFFF9, ws, .empty⟩ := by
  intro ws
  have hdigits : Numeral.natural? 16 "fff9".toList = some (0xFFF9 : Word).toNat := by decide
  exact ⟨hdigits, assemble_listing hdigits (by decide)⟩

end ObjectFile

end Lc3
