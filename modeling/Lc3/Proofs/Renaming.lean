import Mathlib.Logic.Embedding.Basic
import Mathlib.Logic.Equiv.Basic
import Lc3.ObjectFile
import Lc3.Proofs.Agreement
import Lc3.Proofs.LabelTable

/-!
# Names of labels do not matter

A renaming gives different names to different labels. Main statement: both passes of the assembler
commute with it. A renamed program has the same layout and the same words as before, with the labels
renamed, or it fails at the same place with the same error, again with the labels renamed.
-/

namespace Lc3

/-- A function on names that keeps different names apart. -/
abbrev Renaming := String ↪ String

/-! ## Renamed programs and tables -/

section Definitions

variable (f : Renaming)

/-- A label under its new name, in the same columns. -/
def Label.rename (l : Label) : Label := ⟨f l.name, l.cols⟩

/-- An operand with its label renamed. -/
def Target.rename {n : Nat} : Target n → Target n
  | .offset v => .offset v
  | .label l => .label (l.rename f)

/-- An instruction with its label renamed. -/
def SourceInstr.rename : SourceInstr → SourceInstr
  | .br mask t => .br mask (t.rename f)
  | .jsr t => .jsr (t.rename f)
  | .ld dr t => .ld dr (t.rename f)
  | .ldi dr t => .ldi dr (t.rename f)
  | .lea dr t => .lea dr (t.rename f)
  | .st sr t => .st sr (t.rename f)
  | .sti sr t => .sti sr (t.rename f)
  | i => i

/-- A directive with its label renamed. -/
def Directive.rename : Directive → Directive
  | .fill t => .fill (t.rename f)
  | d => d

/-- A command with its label renamed. -/
def Command.rename : Command → Command
  | .instr i => .instr (i.rename f)
  | .directive d => .directive (d.rename f)

/-- A statement with its label and its operands renamed, in the same columns of the same line. -/
def Stmt.rename (s : Stmt) : Stmt where
  label := s.label.map (Label.rename f)
  command := s.command.map (Command.rename f)
  line := s.line

/-- A table with the same addresses under new names. -/
def LabelTable.rename (t : LabelTable) : LabelTable where
  entries := t.entries.map fun e => (e.1, f e.2)
  ordered := t.ordered.map _ fun _ _ h => h
  distinct := t.distinct.map _ fun _ _ h heq => h (f.injective heq)

/-- A cause that speaks of labels by their new names. -/
def Cause.rename : Cause → Cause
  | .duplicateLabel label addr => .duplicateLabel (f label) addr
  | .duplicateAddress label addr => .duplicateAddress (f label) addr
  | .undefinedLabel label => .undefinedLabel (f label)
  | c => c

/-- An error at the same place, about labels with new names. -/
def AsmError.rename (e : AsmError) : AsmError := ⟨e.cause.rename f, e.place⟩

/-- A layout with the labels under new names. -/
def Layout.rename (l : Layout) : Layout := ⟨l.labels.rename f, l.length⟩

/-- An object file with the labels under new names. -/
def ObjectFile.rename (o : ObjectFile) : ObjectFile := ⟨o.orig, o.words, o.labels.rename f⟩

end Definitions

variable {f : Renaming} {name : String} {addr pc : Nat} {labels : LabelTable} {s : Stmt}
  {stmts : List Stmt}

/-! ## Lookups -/

namespace LabelTable

variable {t : LabelTable} {a : Word}

theorem rename_empty : empty.rename f = empty := rfl

@[simp] theorem addrOf?_rename : (t.rename f).addrOf? (f name) = t.addrOf? name := by
  simp [addrOf?, rename, List.find?_map, Function.comp_def]

@[simp] theorem nameAt?_rename : (t.rename f).nameAt? a = (t.nameAt? a).map f := by
  simp [nameAt?, rename, List.find?_map, Function.comp_def]

theorem rename_insert : (t.insert name a).rename f = (t.rename f).insert (f name) a := by
  refine eq_of_entries ?_
  simp [rename, insert, inserted, List.filter_map, Function.comp_def]

end LabelTable

/-! ## The first pass -/

namespace Stmt

@[simp] theorem isEnd_rename : (s.rename f).isEnd = s.isEnd := by
  obtain ⟨label, command, line⟩ := s
  cases command with
  | none => rfl
  | some c =>
      cases c with
      | instr i => rfl
      | directive d => cases d <;> rfl

@[simp] theorem size_rename : (s.rename f).size = s.size := by
  obtain ⟨label, command, line⟩ := s
  cases command with
  | none => rfl
  | some c =>
      cases c with
      | instr i => rfl
      | directive d => cases d <;> rfl

end Stmt

namespace Layout

theorem bind_rename : Agree (fun e e' => e' = e.rename f) (fun t t' => t' = t.rename f)
    (bind labels addr s) (bind (labels.rename f) addr (s.rename f)) := by
  obtain ⟨label, command, line⟩ := s
  cases label with
  | none => exact .ok rfl
  | some l =>
      simp only [bind, check, Stmt.rename, Option.map_some, Label.rename,
        LabelTable.addrOf?_rename, LabelTable.nameAt?_rename]
      by_cases hb : addr + 1 > memorySize
      · simp only [hb, ↓reduceIte]
        exact .error rfl
      · simp only [hb, ↓reduceIte]
        cases labels.addrOf? l.name with
        | some old => exact .error rfl
        | none =>
            cases labels.nameAt? (BitVec.ofNat 16 addr) with
            | some old => exact .error rfl
            | none => exact .ok LabelTable.rename_insert.symm

theorem walk_rename :
    Agree (fun e e' => e' = e.rename f)
      (fun r r' => r' = r.map fun (labels, stop) => (labels.rename f, stop))
      (walk labels addr stmts) (walk (labels.rename f) addr (stmts.map (Stmt.rename f))) := by
  induction stmts generalizing labels addr with
  | nil => exact .ok rfl
  | cons s rest ih =>
      simp only [walk, List.map_cons, Stmt.isEnd_rename, Stmt.size_rename]
      refine bind_rename.bind ?_
      rintro bound _ rfl
      split
      · exact .ok rfl
      · unfold check
        split
        · rename_i hc
          split at hc
          · cases hc
            exact .error rfl
          · cases hc
        · exact ih

theorem lastLine_rename : lastLine (stmts.map (Stmt.rename f)) = lastLine stmts := by
  unfold lastLine
  rw [List.getLast?_map]
  cases stmts.getLast? <;> rfl

theorem ofStmts_rename {orig : Word} :
    Agree (fun e e' => e' = e.rename f) (fun l l' => l' = l.rename f)
      (ofStmts orig stmts) (ofStmts orig (stmts.map (Stmt.rename f))) := by
  unfold ofStmts
  rw [lastLine_rename, ← LabelTable.rename_empty (f := f)]
  refine walk_rename.bind ?_
  rintro r _ rfl
  cases r with
  | none => exact .error rfl
  | some => exact .ok rfl

end Layout

/-! ## The second pass -/

theorem Target.resolve_rename {n : Nat} {t : Target n} :
    Agree (fun c c' => c' = c.rename f) (· = ·) (t.resolve labels pc)
      ((t.rename f).resolve (labels.rename f) pc) := by
  cases t with
  | offset v => exact .ok rfl
  | label l =>
      simp only [rename, resolve, Label.rename, LabelTable.addrOf?_rename]
      cases labels.addrOf? l.name with
      | none => exact .error rfl
      | some a =>
          simp only
          split
          · exact .ok rfl
          · exact .error rfl

theorem SourceInstr.resolve_rename {i : SourceInstr} :
    Agree (fun c c' => c' = c.rename f) (· = ·) (i.resolve labels pc)
      ((i.rename f).resolve (labels.rename f) pc) := by
  cases i with
  | br | jsr | ld | ldi | lea | st | sti =>
      exact Target.resolve_rename.map fun _ _ h => by rw [h]
  | _ => exact .ok rfl

theorem Directive.words_rename {d : Directive} :
    Agree (fun c c' => c' = c.rename f) (· = ·) (d.words labels)
      ((d.rename f).words (labels.rename f)) := by
  cases d with
  | fill t =>
      cases t with
      | offset v => exact .ok rfl
      | label l =>
          simp only [rename, Target.rename, words, Label.rename, LabelTable.addrOf?_rename]
          cases labels.addrOf? l.name with
          | none => exact .error rfl
          | some a => exact .ok rfl
  | _ => exact .ok rfl

namespace Stmt

theorem words_rename : Agree (fun e e' => e' = e.rename f) (· = ·) (s.words labels addr)
    ((s.rename f).words (labels.rename f) addr) := by
  obtain ⟨label, command, line⟩ := s
  cases command with
  | none => exact .ok rfl
  | some c =>
      have hc : Agree (fun c c' => c' = c.rename f) (· = ·) (c.words labels addr)
          ((c.rename f).words (labels.rename f) addr) := by
        cases c with
        | instr i => exact SourceInstr.resolve_rename.map fun _ _ h => by rw [h]
        | directive d => exact Directive.words_rename
      refine hc.mapError ?_
      rintro cause _ rfl
      rfl

theorem allWords_rename : Agree (fun e e' => e' = e.rename f) (· = ·)
    (allWords labels addr stmts) (allWords (labels.rename f) addr (stmts.map (Stmt.rename f))) := by
  induction stmts generalizing addr with
  | nil => exact .ok rfl
  | cons s rest ih =>
      simp only [allWords, List.map_cons, isEnd_rename]
      split
      · exact .ok rfl
      · refine words_rename.bind ?_
        rintro ws _ rfl
        refine ih.bind ?_
        rintro more _ rfl
        exact .ok rfl

end Stmt

namespace ObjectFile

theorem ofStmts_rename {orig : Word} :
    Agree (fun e e' => e' = e.rename f) (fun o o' => o' = o.rename f) (ofStmts orig stmts labels)
      (ofStmts orig (stmts.map (Stmt.rename f)) (labels.rename f)) := by
  refine Stmt.allWords_rename.bind ?_
  rintro ws _ rfl
  exact .ok rfl

/-- Both passes commute with a renaming: statements have a layout exactly if the renamed ones have
one, of the same length and with the same addresses; over any table, they make words exactly if the
renamed ones make the same words over the renamed table; and an error stays at its place and is the
same but for the names of labels. -/
theorem passes_rename (f : Renaming) (orig : Word) (stmts : List Stmt) :
    Agree (fun e e' => e' = e.rename f) (fun l l' => l' = l.rename f)
        (Layout.ofStmts orig stmts) (Layout.ofStmts orig (stmts.map (Stmt.rename f))) ∧
      ∀ labels, Agree (fun e e' => e' = e.rename f) (fun o o' => o' = o.rename f)
        (ofStmts orig stmts labels)
        (ofStmts orig (stmts.map (Stmt.rename f)) (labels.rename f)) :=
  ⟨Layout.ofStmts_rename, fun _ => ofStmts_rename⟩

/-- Two names that change places, so that their order does, too. -/
example :
    let f : Renaming := (Equiv.swap "A" "B").toEmbedding
    let stmts : List Stmt :=
      [⟨some ⟨"A", ⟨0, 1⟩⟩, some (.instr (.lea 0 (.label ⟨"B", ⟨9, 10⟩⟩))), 2⟩,
       ⟨some ⟨"B", ⟨0, 1⟩⟩, some (.directive (.fill (.label ⟨"C", ⟨8, 9⟩⟩))), 3⟩,
       ⟨none, some (.directive .finish), 4⟩]
    let labels : LabelTable := .ofList [("B", 0x3000), ("A", 0x3001)]
    Layout.ofStmts 0x3000 (stmts.map (Stmt.rename f)) = .ok ⟨labels, 2⟩ ∧
      ofStmts 0x3000 (stmts.map (Stmt.rename f)) labels =
        .error (.ofLine 3 (.undefinedLabel "C")) := by
  decide

end ObjectFile

end Lc3
